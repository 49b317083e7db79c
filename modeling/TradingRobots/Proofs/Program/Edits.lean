/-
A mutated program, read from left to right beside its source.

Before every instruction of the source there may be a fresh one, and one more after the last; the instruction itself is
kept, left out, or replaced in its place. Nothing moves. A kind of change whose chance is not above zero does not happen,
so without insertions and replacements the source only loses instructions, without omissions and replacements it only
gains some, and without any it stays as it is.

The limits hold insertions and omissions back one by one: a source that is too long grows no further, one that is too
short loses nothing, and one within the limits stays within.

`edited_revise`: what a revision writes is an edit of its source.
`Edited.sublist`, `Edited.superlist`, `Edited.eq`: edits without some kinds of change.
`mutate_edits`: a mutated program, with the range of its length.
-/
import TradingRobots.Proofs.Program.Variation
import TradingRobots.Proofs.Random.Unit

namespace TradingRobots.Mutation

open TradingRobots.Random

/-! ## Edits -/

/-- an instruction that was drawn for a program with so many registers -/
def Fresh (bounds : ProgramBounds) (registers : Nat) (i : Instruction) : Prop :=
  ∃ s, i = (bounds.randomInstruction registers s).1

/-- a place for an insertion: empty, or with a fresh instruction -/
inductive Inserted (bounds : ProgramBounds) (rates : MutationRates) (registers : Nat) : List Instruction → Prop where
  | none : Inserted bounds rates registers []
  | fresh {i : Instruction} (hrate : 0.0 < rates.newInstruction) (hfresh : Fresh bounds registers i) :
    Inserted bounds rates registers [i]

/-- what is left of an instruction -/
inductive Retained (bounds : ProgramBounds) (rates : MutationRates) (registers : Nat) (i : Instruction) :
    List Instruction → Prop where
  | kept : Retained bounds rates registers i [i]
  | dropped (hrate : 0.0 < rates.skipInstruction) : Retained bounds rates registers i []
  | replaced {j : Instruction} (hrate : 0.0 < rates.instructionMutation) (hfresh : Fresh bounds registers j) :
    Retained bounds rates registers i [j]

/-- an edit of a source: a place before every instruction, what is left of it, and a place after the last -/
inductive Edited (bounds : ProgramBounds) (rates : MutationRates) (registers : Nat) :
    List Instruction → List Instruction → Prop where
  | last {place : List Instruction} (hplace : Inserted bounds rates registers place) :
    Edited bounds rates registers [] place
  | next {i : Instruction} {rest place left tail : List Instruction} (hplace : Inserted bounds rates registers place)
    (hleft : Retained bounds rates registers i left) (htail : Edited bounds rates registers rest tail) :
    Edited bounds rates registers (i :: rest) (place ++ left ++ tail)

variable {bounds : ProgramBounds} {rates : MutationRates} {registers : Nat} {source result : List Instruction}

/-- something happens only if its chance is above zero -/
theorem pos_of_chance {rate : Float} {s : Stream} (h : (chance rate s).1 = true) : 0.0 < rate := by
  have hlt : s.unit.1 < rate := of_decide_eq_true h
  rw [Stream.unit_eq] at hlt
  exact Stream.pos_of_number_lt hlt

theorem inserted_insertion (length : Nat) (s : Stream) :
    Inserted bounds rates registers (insertion bounds rates registers length s).1 := by
  simp only [insertion]
  split
  next h =>
    rw [Bool.and_eq_true] at h
    exact .fresh (pos_of_chance h.1) ⟨_, rfl⟩
  next => exact .none

theorem retained_retention (length : Nat) (i : Instruction) (s : Stream) :
    Retained bounds rates registers i (retention bounds rates registers length i s).1 := by
  simp only [retention]
  split
  next h =>
    rw [Bool.and_eq_true] at h
    exact .dropped (pos_of_chance h.1)
  next =>
    split
    next h => exact .replaced (pos_of_chance h) ⟨_, rfl⟩
    next => exact .kept

/-- **A revision is an edit.** -/
theorem edited_revise (done : Nat) (source : List Instruction) (s : Stream) :
    Edited bounds rates registers source (revise bounds rates registers done source s).1 := by
  induction source generalizing done s with
  | nil => exact .last (inserted_insertion done s)
  | cons i rest ih => exact .next (inserted_insertion _ s) (retained_retention _ i _) (ih _ _)

/-! ## Without some kinds of change -/

theorem Inserted.eq_nil {place : List Instruction} (h : Inserted bounds rates registers place)
    (hinsert : ¬0.0 < rates.newInstruction) : place = [] := by
  cases h with
  | none => rfl
  | fresh hrate => exact absurd hrate hinsert

/-- without insertions and replacements the source only loses instructions -/
theorem Edited.sublist (h : Edited bounds rates registers source result) (hinsert : ¬0.0 < rates.newInstruction)
    (hreplace : ¬0.0 < rates.instructionMutation) : result.Sublist source := by
  induction h with
  | last hplace => rw [hplace.eq_nil hinsert]
  | next hplace hleft _ ih =>
    rw [hplace.eq_nil hinsert]
    cases hleft with
    | kept => exact ih.cons_cons _
    | dropped => exact ih.cons _
    | replaced hrate => exact absurd hrate hreplace

/-- without omissions and replacements it only gains some -/
theorem Edited.superlist (h : Edited bounds rates registers source result) (hskip : ¬0.0 < rates.skipInstruction)
    (hreplace : ¬0.0 < rates.instructionMutation) : source.Sublist result := by
  induction h with
  | last => exact List.nil_sublist _
  | @next i rest place left tail _ hleft _ ih =>
    rw [List.append_assoc]
    refine List.Sublist.trans ?_ (List.sublist_append_right place (left ++ tail))
    cases hleft with
    | kept => exact ih.cons_cons _
    | dropped hrate => exact absurd hrate hskip
    | replaced hrate => exact absurd hrate hreplace

/-- without any change it stays as it is -/
theorem Edited.eq (h : Edited bounds rates registers source result) (hinsert : ¬0.0 < rates.newInstruction)
    (hskip : ¬0.0 < rates.skipInstruction) (hreplace : ¬0.0 < rates.instructionMutation) : result = source :=
  (h.sublist hinsert hreplace).antisymm (h.superlist hskip hreplace)

/-! ## Mutated programs -/

/-- **A mutated program is an edit of its source**, with as many registers. Its length is at least the smaller of the
source's and the least one, and at most the larger of the source's and the greatest one. What is drawn for it keeps the
bounds if there is something to draw. A kind of change whose chance is not above zero does not happen. Of streams on which
a draw does not end (`Stream.patience`) nothing is said. -/
theorem mutate_edits (bounds : ProgramBounds) (rates : MutationRates) (p : Program) (s : Stream) :
    let child := (mutate bounds rates p s).1
    child.registers = p.registers ∧
      (min p.length bounds.minimumLength ≤ child.length ∧ child.length ≤ max p.length bounds.maximumLength) ∧
      (bounds.minimumLength ≤ p.length → p.length ≤ bounds.maximumLength →
        bounds.minimumLength ≤ child.length ∧ child.length ≤ bounds.maximumLength) ∧
      Edited bounds rates p.registers p.instructions child.instructions ∧
      (0 < p.registers → bounds.Roomy → ∀ i, Fresh bounds p.registers i → bounds.allows p.registers i = true) ∧
      (¬0.0 < rates.instructionMutation → ¬0.0 < rates.newInstruction →
        child.instructions.Sublist p.instructions) ∧
      (¬0.0 < rates.instructionMutation → ¬0.0 < rates.skipInstruction →
        p.instructions.Sublist child.instructions) ∧
      (¬0.0 < rates.instructionMutation → ¬0.0 < rates.newInstruction → ¬0.0 < rates.skipInstruction → child = p) := by
  intro child
  have hedited : Edited bounds rates p.registers p.instructions child.instructions := edited_revise 0 p.instructions s
  have hlength := @length_revise_range bounds rates p.registers 0 p.instructions s
  rw [Nat.zero_add, Nat.zero_add] at hlength
  have hrange : min p.length bounds.minimumLength ≤ child.length ∧ child.length ≤ max p.length bounds.maximumLength :=
    hlength
  refine ⟨rfl, hrange, fun hleast hmost => by omega, hedited, ?_, ?_, ?_, ?_⟩
  · rintro hpos hroom i ⟨drawn, rfl⟩
    exact ProgramBounds.allows_randomInstruction hroom hpos drawn
  · exact fun hreplace hinsert => hedited.sublist hinsert hreplace
  · exact fun hreplace hskip => hedited.superlist hskip hreplace
  · intro hreplace hinsert hskip
    have hsame := hedited.eq hinsert hskip hreplace
    exact congrArg (Program.mk · p.registers) hsame

end TradingRobots.Mutation
