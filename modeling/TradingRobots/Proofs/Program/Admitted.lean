/-
Programs that keep the bounds, and programs that are drawn.

`Admits` lists what the check asks of a program, clause by clause. A drawn instruction has its operands in range,
because every operand is drawn below its bound and constants are finite; so a drawn program is admitted.

`check_eq_ok_iff`: the check passes exactly the admitted programs.
`admits_of_randomProgram?`, `exists_randomProgram?`: what is drawn is admitted, and bounds that leave room draw.
-/
import TradingRobots.Program
import TradingRobots.Proofs.Random.Draw

namespace TradingRobots

/-! ## Operands in range -/

/-- operands in range stay in range among more registers -/
theorem Instruction.isWithin_mono {i : Instruction} {registers more columns offset : Nat} (hle : registers ≤ more)
    (h : i.isWithin registers columns offset = true) : i.isWithin more columns offset = true := by
  cases i with
  | constant use value register =>
    simp only [isWithin, Bool.and_eq_true, decide_eq_true_eq] at h ⊢
    exact ⟨h.1, h.2.trans_le hle⟩
  | _ => simp only [isWithin, Bool.and_eq_true, decide_eq_true_eq] at h ⊢ <;> omega

namespace Sampling

open TradingRobots.Random

/-- there is something to draw for every operand -/
structure Roomy (b : Sampling) : Prop where
  registers : 0 < b.registers
  columns : 0 < b.columns
  offset : 0 < b.maximumOffset

/-- the operands of an instruction keep the bounds it was drawn for -/
def Fits (b : Sampling) (i : Instruction) : Prop :=
  i.isWithin b.registers b.columns b.maximumOffset = true

variable {b : Sampling}

theorem register_lt (h : b.Roomy) (s : Stream) : (b.register s).1 < b.registers :=
  Stream.below_max_one_lt h.registers s

theorem column_lt (h : b.Roomy) (s : Stream) : (b.column s).1 < b.columns :=
  Stream.below_max_one_lt h.columns s

theorem offset_lt (h : b.Roomy) (s : Stream) : (b.offset s).1 < b.maximumOffset :=
  Stream.below_max_one_lt h.offset s

theorem length_bounds (h : b.Roomy) (s : Stream) : 1 ≤ (b.length s).1 ∧ (b.length s).1 ≤ b.maximumOffset :=
  ⟨Nat.le_add_left 1 _, Stream.below_max_one_lt h.offset s⟩

theorem fits_drawData (h : b.Roomy) (use : DataUse) (s : Stream) : b.Fits (b.drawData use s).1 := by
  simp only [Fits, drawData, Instruction.isWithin, Bool.and_eq_true, decide_eq_true_eq]
  exact ⟨⟨column_lt h _, offset_lt h _⟩, register_lt h _⟩

theorem fits_drawScan (h : b.Roomy) (use : ColumnScan) (s : Stream) : b.Fits (b.drawScan use s).1 := by
  simp only [Fits, drawScan, Instruction.isWithin, Bool.and_eq_true, decide_eq_true_eq]
  obtain ⟨hpos, hle⟩ := length_bounds h (b.column s).2
  exact ⟨⟨⟨column_lt h _, hpos⟩, hle⟩, register_lt h _⟩

theorem fits_drawConstant (h : b.Roomy) (use : ConstantUse) (s : Stream) : b.Fits (b.drawConstant use s).1 := by
  simp only [Fits, drawConstant, Instruction.isWithin, Bool.and_eq_true, decide_eq_true_eq]
  exact ⟨Stream.isFinite_constant s, register_lt h _⟩

theorem fits_drawPair (h : b.Roomy) (use : PairUse) (s : Stream) : b.Fits (b.drawPair use s).1 := by
  simp only [Fits, drawPair, Instruction.isWithin, Bool.and_eq_true, decide_eq_true_eq]
  exact ⟨register_lt h _, register_lt h _⟩

theorem fits_drawAlter (h : b.Roomy) (use : Alteration) (s : Stream) : b.Fits (b.drawAlter use s).1 :=
  decide_eq_true (register_lt h s)

theorem fits_drawJumpIf (h : b.Roomy) (test : JumpTest) (s : Stream) : b.Fits (b.drawJumpIf test s).1 :=
  decide_eq_true (register_lt h s)

theorem fits_drawJumpIfGreater (h : b.Roomy) (s : Stream) : b.Fits (b.drawJumpIfGreater s).1 := by
  simp only [Fits, drawJumpIfGreater, Instruction.isWithin, Bool.and_eq_true, decide_eq_true_eq]
  exact ⟨register_lt h _, register_lt h _⟩

theorem fits_drawEmitSignOf (h : b.Roomy) (s : Stream) : b.Fits (b.drawEmitSignOf s).1 :=
  decide_eq_true (register_lt h s)

theorem fits_drawEmitIfGreater (h : b.Roomy) (s : Stream) : b.Fits (b.drawEmitIfGreater s).1 := by
  simp only [Fits, drawEmitIfGreater, Instruction.isWithin, Bool.and_eq_true, decide_eq_true_eq]
  exact ⟨register_lt h _, register_lt h _⟩

/-- every kind draws its operands in range -/
theorem fits_of_mem_kinds (h : b.Roomy) {kind : Stream → Instruction × Stream} (hk : kind ∈ b.kinds) (s : Stream) :
    b.Fits (kind s).1 := by
  simp only [kinds, List.mem_append, List.mem_map, List.mem_cons, List.not_mem_nil, or_false] at hk
  rcases hk with (((((((((⟨use, -, rfl⟩ | ⟨use, -, rfl⟩) | rfl) | ⟨use, -, rfl⟩) | ⟨use, -, rfl⟩) | ⟨use, -, rfl⟩) |
    ⟨use, -, rfl⟩) | (rfl | rfl | rfl | rfl | rfl)) | ⟨signal, -, rfl⟩) | (rfl | rfl))
  · exact fits_drawData h use s
  · exact fits_drawScan h use s
  · exact fits_drawConstant h .move s
  · exact fits_drawPair h use s
  · exact fits_drawConstant h use s
  · exact fits_drawAlter h use s
  · exact fits_drawPair h use s
  · exact fits_drawAlter h .clear s
  · exact rfl
  · exact fits_drawJumpIf h .zero s
  · exact fits_drawJumpIf h .positive s
  · exact fits_drawJumpIfGreater h s
  · exact rfl
  · exact fits_drawEmitSignOf h s
  · exact fits_drawEmitIfGreater h s

/-- **A drawn instruction has its operands in range.** -/
theorem fits_draw (h : b.Roomy) (s : Stream) : b.Fits (b.draw s).1 := by
  simp only [draw]
  split
  · rename_i kind hk
    exact fits_of_mem_kinds h (List.mem_of_getElem? hk) _
  · exact fits_drawEmitIfGreater h _

end Sampling

/-! ## Admitted programs -/

namespace ProgramBounds

open TradingRobots.Random

/-- a program keeps the bounds -/
structure Admits (b : ProgramBounds) (p : Program) : Prop where
  least : b.minimumLength ≤ p.length
  most : p.length ≤ b.maximumLength
  registers_pos : 0 < p.registers
  registers_le : p.registers ≤ b.maximumRegisters
  operands : ∀ i ∈ p.instructions, b.allows p.registers i = true

/-- the data leave something to refer to -/
structure Roomy (b : ProgramBounds) : Prop where
  columns : 0 < b.columns
  offset : 0 < b.maximumOffset

/-- programs can be drawn: the limits do not cross, and memory can hold the longest program -/
structure Drawable (b : ProgramBounds) : Prop where
  lengths : b.minimumLength ≤ b.maximumLength
  registers : 0 < b.maximumRegisters
  holdable : b.maximumLength ≤ Program.longest

variable {b : ProgramBounds}

theorem firstOutside_eq_none_iff {registers position : Nat} {instructions : List Instruction} :
    b.firstOutside registers position instructions = none ↔ ∀ i ∈ instructions, b.allows registers i = true := by
  induction instructions generalizing position with
  | nil => simp [firstOutside]
  | cons i rest ih =>
    rw [firstOutside]
    split
    · rename_i h
      simp [ih, h]
    · rename_i h
      simp [h]

/-- the check passes exactly the admitted programs -/
theorem check_eq_ok_iff {p : Program} : b.check p = .ok () ↔ b.Admits p := by
  unfold check
  constructor
  · intro h
    split at h
    · cases h
    · rename_i hlength
      split at h
      · cases h
      · rename_i hregisters
        split at h
        · cases h
        · rename_i hoperands
          exact ⟨by omega, by omega, by omega, by omega, firstOutside_eq_none_iff.1 hoperands⟩
  · rintro ⟨hleast, hmost, hpos, hle, hoperands⟩
    rw [if_neg (by omega), if_neg (by omega), firstOutside_eq_none_iff.2 hoperands]

/-- operands that were in range stay so among more registers -/
theorem allows_mono {registers more : Nat} {i : Instruction} (hle : registers ≤ more)
    (h : b.allows registers i = true) : b.allows more i = true :=
  i.isWithin_mono hle h

/-! ## Drawn programs -/

theorem allows_randomInstruction (h : b.Roomy) {registers : Nat} (hr : 0 < registers) (s : Stream) :
    b.allows registers (b.randomInstruction registers s).1 = true :=
  Sampling.fits_draw (b := b.sampling registers) ⟨hr, h.columns, h.offset⟩ s

theorem length_randomInstructions (registers n : Nat) (s : Stream) :
    (b.randomInstructions registers n s).1.length = n := by
  induction n generalizing s with
  | zero => rfl
  | succ n ih =>
    simp only [randomInstructions, List.length_cons]
    rw [ih]

theorem allows_randomInstructions (h : b.Roomy) {registers : Nat} (hr : 0 < registers) (n : Nat) (s : Stream) :
    ∀ i ∈ (b.randomInstructions registers n s).1, b.allows registers i = true := by
  induction n generalizing s with
  | zero => simp [randomInstructions]
  | succ n ih =>
    simp only [randomInstructions, List.mem_cons, forall_eq_or_imp]
    exact ⟨allows_randomInstruction h hr s, ih _⟩

/-- **A drawn program is admitted.** -/
theorem admits_of_randomProgram? (h : b.Roomy) {p : Program} {s s' : Stream}
    (hp : b.randomProgram? s = some (p, s')) : b.Admits p := by
  obtain ⟨⟨length, s₁⟩, hlength, hp⟩ := Option.bind_eq_some_iff.1 hp
  obtain ⟨⟨registers, s₂⟩, hregisters, hp⟩ := Option.bind_eq_some_iff.1 hp
  obtain ⟨hleast, hmost⟩ := Stream.between?_eq_some hlength
  obtain ⟨hpos, hle⟩ := Stream.between?_eq_some hregisters
  simp only at hp
  split at hp
  · cases hp
  · simp only [Option.some.injEq, Prod.mk.injEq] at hp
    obtain ⟨rfl, -⟩ := hp
    refine ⟨?_, ?_, hpos, hle, allows_randomInstructions h hpos _ _⟩
    · rwa [Program.length, length_randomInstructions]
    · rwa [Program.length, length_randomInstructions]

/-- bounds that leave room always draw a program -/
theorem exists_randomProgram? (h : b.Drawable) (s : Stream) : ∃ p s', b.randomProgram? s = some (p, s') := by
  obtain ⟨length, s₁, hlength⟩ := Stream.exists_between? h.lengths s
  obtain ⟨registers, s₂, hregisters⟩ := Stream.exists_between? h.registers s₁
  have hle := (Stream.between?_eq_some hlength).2
  have hheld : ¬Program.longest < length := Nat.not_lt.2 (hle.trans h.holdable)
  refine ⟨⟨(b.randomInstructions registers length s₂).1, registers⟩, (b.randomInstructions registers length s₂).2, ?_⟩
  unfold randomProgram?
  simp only [hlength, hregisters, Option.bind_eq_bind, Option.bind_some]
  exact if_neg hheld

end ProgramBounds

end TradingRobots
