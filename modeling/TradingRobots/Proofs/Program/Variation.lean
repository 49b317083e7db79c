/-
Mutation and crossing keep the bounds.

While a program is revised, what is written and what is still to come add up to a length within the limits: an
insertion happens below the greatest length only, an omission above the least. A child of a crossing has as many
instructions as one of its parents, and at least as many registers, so its operands stay in range.

`admits_mutate`, `admits_cross`: the children of admitted programs are admitted.
-/
import TradingRobots.Crossing
import TradingRobots.Mutation
import TradingRobots.Proofs.Program.Admitted

namespace TradingRobots

open TradingRobots.Random

/-! ## Mutation -/

namespace Mutation

variable {bounds : ProgramBounds} {rates : MutationRates} {registers : Nat}

/-- a fresh instruction comes in, where there is room, or none -/
theorem length_insertion (length : Nat) (s : Stream) :
    (insertion bounds rates registers length s).1.length = 0 ∨
      (insertion bounds rates registers length s).1.length = 1 ∧ length < bounds.maximumLength := by
  simp only [insertion]
  split
  · rename_i h
    simp only [Bool.and_eq_true, decide_eq_true_eq] at h
    exact Or.inr ⟨rfl, h.2⟩
  · exact Or.inl rfl

/-- one instruction is kept, or none where the rest is long enough -/
theorem length_retention (length : Nat) (i : Instruction) (s : Stream) :
    (retention bounds rates registers length i s).1.length = 1 ∨
      (retention bounds rates registers length i s).1.length = 0 ∧ bounds.minimumLength ≤ length - 1 := by
  simp only [retention]
  split
  · rename_i h
    simp only [Bool.and_eq_true, decide_eq_true_eq] at h
    exact Or.inr ⟨rfl, h.2⟩
  · split
    · exact Or.inl rfl
    · exact Or.inl rfl

/-- what was written and what the revision adds is longer than what was to come only up to the greatest length, and shorter
only down to the least -/
theorem length_revise_range (done : Nat) (source : List Instruction) (s : Stream) :
    min (done + source.length) bounds.minimumLength ≤ done + (revise bounds rates registers done source s).1.length ∧
      done + (revise bounds rates registers done source s).1.length ≤ max (done + source.length) bounds.maximumLength := by
  induction source generalizing done s with
  | nil =>
    have hlast : (insertion bounds rates registers done s).1.length = 0 ∨
        (insertion bounds rates registers done s).1.length = 1 ∧ done < bounds.maximumLength := length_insertion done s
    simp only [revise, List.length_nil]
    omega
  | cons i rest ih =>
    simp only [revise, List.length_append, List.length_cons]
    set before := insertion bounds rates registers (done + (rest.length + 1)) s
    set kept := retention bounds rates registers (done + before.1.length + (rest.length + 1)) i before.2
    have hbefore : before.1.length = 0 ∨ before.1.length = 1 ∧ done + (rest.length + 1) < bounds.maximumLength :=
      length_insertion _ s
    have hkept : kept.1.length = 1 ∨
        kept.1.length = 0 ∧ bounds.minimumLength ≤ done + before.1.length + (rest.length + 1) - 1 :=
      length_retention _ i _
    have := ih (done + before.1.length + kept.1.length) kept.2
    omega

end Mutation

/-! ## Crossing -/

namespace Crossing

variable {bounds : ProgramBounds} {first second : Program}

/-- a child is as long as the parent that gives its tail -/
theorem length_cutAt (point : Nat) {a b : List Instruction} (ha : point ≤ a.length) (hb : point ≤ b.length) :
    (cutAt point a b).1.length = b.length ∧ (cutAt point a b).2.length = a.length := by
  simp only [cutAt, List.length_append, List.length_take, List.length_drop]
  omega

/-- the instructions of a child come from its parents -/
theorem mem_cutAt {point : Nat} {a b : List Instruction} {i : Instruction}
    (h : i ∈ (cutAt point a b).1 ∨ i ∈ (cutAt point a b).2) : i ∈ a ∨ i ∈ b := by
  simp only [cutAt, List.mem_append] at h
  rcases h with (h | h) | h | h
  · exact Or.inl (List.mem_of_mem_take h)
  · exact Or.inr (List.mem_of_mem_drop h)
  · exact Or.inr (List.mem_of_mem_take h)
  · exact Or.inl (List.mem_of_mem_drop h)

theorem registers_cross (first second : Program) (s : Stream) :
    (cross first second s).1.1.registers = max first.registers second.registers ∧
      (cross first second s).1.2.registers = max first.registers second.registers := by
  simp only [cross]
  split
  · exact ⟨rfl, rfl⟩
  · exact ⟨rfl, rfl⟩

theorem mem_cross {s : Stream} {i : Instruction}
    (h : i ∈ (cross first second s).1.1.instructions ∨ i ∈ (cross first second s).1.2.instructions) :
    i ∈ first.instructions ∨ i ∈ second.instructions := by
  simp only [cross] at h
  split at h
  · exact h
  · exact mem_cutAt h

/-- the children have the lengths of the parents -/
theorem length_cross (first second : Program) (s : Stream) :
    ((cross first second s).1.1.length = first.length ∨ (cross first second s).1.1.length = second.length) ∧
      ((cross first second s).1.2.length = first.length ∨ (cross first second s).1.2.length = second.length) := by
  simp only [cross]
  split
  · exact ⟨Or.inl rfl, Or.inr rfl⟩
  · rename_i hcommon
    have hpoint := Stream.below_lt (n := min first.length second.length - 1) (by omega) s
    obtain ⟨h₁, h₂⟩ := length_cutAt (a := first.instructions) (b := second.instructions)
      ((s.below (min first.length second.length - 1)).1 + 1) (by rw [← Program.length]; omega)
      (by rw [← Program.length]; omega)
    exact ⟨Or.inr h₁, Or.inl h₂⟩

/-- **The children of a crossing keep the bounds.** -/
theorem admits_cross (hf : bounds.Admits first) (hs : bounds.Admits second) (s : Stream) :
    bounds.Admits (cross first second s).1.1 ∧ bounds.Admits (cross first second s).1.2 := by
  have hoperands : ∀ i, i ∈ first.instructions ∨ i ∈ second.instructions →
      bounds.allows (max first.registers second.registers) i = true := by
    rintro i (hi | hi)
    · exact ProgramBounds.allows_mono (Nat.le_max_left _ _) (hf.operands i hi)
    · exact ProgramBounds.allows_mono (Nat.le_max_right _ _) (hs.operands i hi)
  have child : ∀ c : Program, c.registers = max first.registers second.registers →
      (c.length = first.length ∨ c.length = second.length) →
      (∀ i ∈ c.instructions, i ∈ first.instructions ∨ i ∈ second.instructions) → bounds.Admits c := by
    intro c hregisters hlength hmem
    have := hf.least
    have := hf.most
    have := hs.least
    have := hs.most
    refine ⟨by omega, by omega, ?_, ?_, ?_⟩
    · exact hregisters ▸ hf.registers_pos.trans_le (Nat.le_max_left _ _)
    · exact hregisters ▸ Nat.max_le.2 ⟨hf.registers_le, hs.registers_le⟩
    · exact fun i hi => hregisters ▸ hoperands i (hmem i hi)
  obtain ⟨hr₁, hr₂⟩ := registers_cross first second s
  obtain ⟨hl₁, hl₂⟩ := length_cross first second s
  exact ⟨child _ hr₁ hl₁ fun i hi => mem_cross (Or.inl hi), child _ hr₂ hl₂ fun i hi => mem_cross (Or.inr hi)⟩

end Crossing

end TradingRobots
