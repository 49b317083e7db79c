/-
Crossing loses and invents nothing.

Two programs that are cut at one point exchange their tails. A child agrees with one parent before the point and with the
other from there on, so both children together hold what both parents held, and cutting them at the same point gives the
parents back. Parents too short to be cut are handed on as they are.

A child runs on the larger of the two register counts, so what was in range for a parent is in range for the child.

`Instruction.isWithin_iff_operands`: an instruction is in range when every operand is.
`parted_cutAt`: the children of a cut.
`cross_cases`: a crossing hands its parents on, or cuts them inside both.
`cross_exchange`: the instructions, the lengths, the registers and the bounds of the children.
-/
import TradingRobots.Proofs.Program.Variation

namespace TradingRobots

open TradingRobots.Random

/-! ## Operands -/

namespace Instruction

/-- an operand keeps the bounds: its name tells what a number refers to, and a target may be any -/
def OperandWithin (registers columns maximumOffset : Nat) : String × Operand → Prop
  | (_, .amount x) => x.isFinite = true
  | (_, .cell ref) => ref.column < columns ∧ ref.offset < maximumOffset
  | (name, .index n) =>
    (name = "column" → n < columns) ∧ (name = "length" → 1 ≤ n ∧ n ≤ maximumOffset) ∧
      (name ∈ ["register", "from", "to", "left", "right"] → n < registers)

/-- an instruction is in range when every operand is -/
theorem isWithin_iff_operands (i : Instruction) (registers columns maximumOffset : Nat) :
    i.isWithin registers columns maximumOffset = true ↔
      ∀ o ∈ i.operands, OperandWithin registers columns maximumOffset o := by
  cases i <;> simp [isWithin, operands, OperandWithin, and_assoc]

/-- an operand in range stays so among more registers -/
theorem OperandWithin.mono {registers more columns maximumOffset : Nat} {o : String × Operand} (hle : registers ≤ more)
    (h : OperandWithin registers columns maximumOffset o) : OperandWithin more columns maximumOffset o := by
  match o, h with
  | (_, .amount _), h => exact h
  | (_, .cell _), h => exact h
  | (_, .index _), ⟨hcolumn, hlength, hregister⟩ => exact ⟨hcolumn, hlength, fun hname => (hregister hname).trans_le hle⟩

end Instruction

namespace Crossing

/-! ## One cut -/

/-- two lists that came from two others by a cut before a position: the heads stayed, the tails were exchanged -/
structure Parted (point : Nat) (a b c d : List Instruction) : Prop where
  firstHead : c.take point = a.take point
  firstTail : c.drop point = b.drop point
  secondHead : d.take point = b.take point
  secondTail : d.drop point = a.drop point
  firstLength : c.length = b.length
  secondLength : d.length = a.length

variable {point : Nat} {a b c d : List Instruction}

/-- **A cut inside two lists parts them.** -/
theorem parted_cutAt (ha : point ≤ a.length) (hb : point ≤ b.length) :
    Parted point a b (cutAt point a b).1 (cutAt point a b).2 := by
  have hheada : (a.take point).length = point := by rw [List.length_take, Nat.min_eq_left ha]
  have hheadb : (b.take point).length = point := by rw [List.length_take, Nat.min_eq_left hb]
  obtain ⟨hfirst, hsecond⟩ := length_cutAt point ha hb
  exact
    { firstHead := List.take_left' hheada
      firstTail := List.drop_left' hheada
      secondHead := List.take_left' hheadb
      secondTail := List.drop_left' hheadb
      firstLength := hfirst
      secondLength := hsecond }

/-- the same cut gives back what was parted -/
theorem Parted.cutAt_eq (h : Parted point a b c d) : cutAt point c d = (a, b) := by
  unfold cutAt
  rw [h.firstHead, h.firstTail, h.secondHead, h.secondTail, List.take_append_drop, List.take_append_drop]

/-- nothing is lost and nothing invented -/
theorem Parted.perm (h : Parted point a b c d) : (c ++ d).Perm (a ++ b) := by
  have hc : c = a.take point ++ b.drop point := by rw [← h.firstHead, ← h.firstTail, List.take_append_drop]
  have hd : d = b.take point ++ a.drop point := by rw [← h.secondHead, ← h.secondTail, List.take_append_drop]
  have hsecond : (b.drop point ++ b.take point).Perm b := by
    have hswap : (b.drop point ++ b.take point).Perm (b.take point ++ b.drop point) := List.perm_append_comm
    rwa [List.take_append_drop] at hswap
  have htails : (b.drop point ++ (b.take point ++ a.drop point)).Perm (a.drop point ++ b) := by
    rw [← List.append_assoc]
    exact List.perm_append_comm.trans (hsecond.append_left _)
  have hwhole : a.take point ++ (a.drop point ++ b) = a ++ b := by rw [← List.append_assoc, List.take_append_drop]
  rw [hc, hd, List.append_assoc, ← hwhole]
  exact htails.append_left _

/-! ## Crossings -/

open Instruction (OperandWithin)

variable (first second : Program) (s : Stream)

/-- a crossing hands its parents on, or cuts them inside both -/
theorem cross_cases :
    (min first.length second.length ≤ 1 ∧ (cross first second s).1.1.instructions = first.instructions ∧
        (cross first second s).1.2.instructions = second.instructions) ∨
      ∃ point, 1 ≤ point ∧ point < min first.length second.length ∧
        Parted point first.instructions second.instructions (cross first second s).1.1.instructions
          (cross first second s).1.2.instructions := by
  simp only [cross]
  split
  next hshort => exact .inl ⟨hshort, rfl, rfl⟩
  next hlong =>
    have hpoint := Stream.below_lt (n := min first.length second.length - 1) (by omega) s
    generalize (s.below (min first.length second.length - 1)).1 = k at hpoint
    have hfirst : k + 1 ≤ first.instructions.length := by
      have : k + 1 < first.length := by omega
      exact this.le
    have hsecond : k + 1 ≤ second.instructions.length := by
      have : k + 1 < second.length := by omega
      exact this.le
    exact .inr ⟨k + 1, by omega, by omega, parted_cutAt hfirst hsecond⟩

/-- **Crossing loses and invents nothing**, wherever it cuts; of streams on which a draw does not end (`Stream.patience`)
nothing is said. -/
theorem cross_exchange :
    let children := (cross first second s).1
    (children.1.instructions ++ children.2.instructions).Perm (first.instructions ++ second.instructions) ∧
      (2 ≤ first.length → 2 ≤ second.length → ∃ point, 1 ≤ point ∧ point < min first.length second.length ∧
        Parted point first.instructions second.instructions children.1.instructions children.2.instructions ∧
        cutAt point children.1.instructions children.2.instructions = (first.instructions, second.instructions)) ∧
      (¬(2 ≤ first.length ∧ 2 ≤ second.length) →
        children.1.instructions = first.instructions ∧ children.2.instructions = second.instructions) ∧
      (children.1.registers = max first.registers second.registers ∧
        children.2.registers = max first.registers second.registers) ∧
      (∀ (columns maximumOffset : Nat) (o : String × Operand),
        OperandWithin first.registers columns maximumOffset o ∨ OperandWithin second.registers columns maximumOffset o →
          OperandWithin children.1.registers columns maximumOffset o ∧
            OperandWithin children.2.registers columns maximumOffset o) ∧
      ∀ bounds : ProgramBounds, bounds.check first = .ok () → bounds.check second = .ok () →
        bounds.check children.1 = .ok () ∧ bounds.check children.2 = .ok () := by
  intro children
  obtain ⟨hfirst, hsecond⟩ : children.1.registers = max first.registers second.registers ∧
      children.2.registers = max first.registers second.registers := registers_cross first second s
  refine ⟨?_, ?_, ?_, ⟨hfirst, hsecond⟩, ?_, ?_⟩
  · rcases cross_cases first second s with ⟨-, hone, htwo⟩ | ⟨point, -, -, hparted⟩
    · rw [hone, htwo]
    · exact hparted.perm
  · intro hone htwo
    rcases cross_cases first second s with ⟨hshort, -⟩ | ⟨point, hpos, hlt, hparted⟩
    · omega
    · exact ⟨point, hpos, hlt, hparted, hparted.cutAt_eq⟩
  · intro hshort
    rcases cross_cases first second s with ⟨-, hsame⟩ | ⟨point, hpos, hlt, -⟩
    · exact hsame
    · omega
  · rintro columns maximumOffset o (h | h)
    · rw [hfirst, hsecond]
      exact ⟨h.mono (Nat.le_max_left _ _), h.mono (Nat.le_max_left _ _)⟩
    · rw [hfirst, hsecond]
      exact ⟨h.mono (Nat.le_max_right _ _), h.mono (Nat.le_max_right _ _)⟩
  · intro bounds hone htwo
    rw [ProgramBounds.check_eq_ok_iff] at hone htwo
    rw [ProgramBounds.check_eq_ok_iff, ProgramBounds.check_eq_ok_iff]
    exact admits_cross hone htwo s

end Crossing

end TradingRobots
