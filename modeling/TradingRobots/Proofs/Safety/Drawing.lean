/-
Random programs, mutations, crossings and picks that do not fail.

A draw fails on a range without numbers, a part of a list beyond its end, a position or a length below zero. The ranges
of operands hold at least one number, since a bound of zero counts as one; a program is cut inside both parents; what a
mutation has left of its source counts down from the source's length; and a wheel that picks evenly has entries.

`drawGuarded_eq`, `randomProgramGuarded_eq`: random instructions and programs.
`mutateGuarded_eq`, `crossGuarded_eq`: variations of programs.
`selectGuarded_eq`: the wheel.
-/
import TradingRobots.Crossing
import TradingRobots.Mutation
import TradingRobots.Proofs.Safety.Guarded
import TradingRobots.Wheel

namespace TradingRobots

open TradingRobots.Random

/-! ## Instructions -/

namespace Sampling

def registerGuarded (b : Sampling) (s : Stream) : Guarded (Nat × Stream) :=
  Guarded.below (max b.registers 1) s

def columnGuarded (b : Sampling) (s : Stream) : Guarded (Nat × Stream) :=
  Guarded.below (max b.columns 1) s

def offsetGuarded (b : Sampling) (s : Stream) : Guarded (Nat × Stream) :=
  Guarded.below (max b.maximumOffset 1) s

def lengthGuarded (b : Sampling) (s : Stream) : Guarded (Nat × Stream) :=
  Guarded.between 1 (max b.maximumOffset 1) s

def targetGuarded (b : Sampling) (s : Stream) : Guarded (Nat × Stream) :=
  Guarded.below (max b.maximumJump 1) s

def drawDataGuarded (b : Sampling) (use : DataUse) (s : Stream) : Guarded (Instruction × Stream) := do
  let (column, s) ← b.columnGuarded s
  let (offset, s) ← b.offsetGuarded s
  let (register, s) ← b.registerGuarded s
  .ok (.data use ⟨column, offset⟩ register, s)

def drawScanGuarded (b : Sampling) (use : ColumnScan) (s : Stream) : Guarded (Instruction × Stream) := do
  let (column, s) ← b.columnGuarded s
  let (length, s) ← b.lengthGuarded s
  let (register, s) ← b.registerGuarded s
  .ok (.scan use column length register, s)

def drawConstantGuarded (b : Sampling) (use : ConstantUse) (s : Stream) : Guarded (Instruction × Stream) := do
  let (value, s) ← Guarded.constant s
  let (register, s) ← b.registerGuarded s
  .ok (.constant use value register, s)

def drawPairGuarded (b : Sampling) (use : PairUse) (s : Stream) : Guarded (Instruction × Stream) := do
  let (source, s) ← b.registerGuarded s
  let (target, s) ← b.registerGuarded s
  .ok (.pair use source target, s)

def drawAlterGuarded (b : Sampling) (use : Alteration) (s : Stream) : Guarded (Instruction × Stream) := do
  let (register, s) ← b.registerGuarded s
  .ok (.alter use register, s)

def drawJumpGuarded (b : Sampling) (s : Stream) : Guarded (Instruction × Stream) := do
  let (target, s) ← b.targetGuarded s
  .ok (.jump target, s)

def drawJumpIfGuarded (b : Sampling) (test : JumpTest) (s : Stream) : Guarded (Instruction × Stream) := do
  let (register, s) ← b.registerGuarded s
  let (target, s) ← b.targetGuarded s
  .ok (.jumpIf test register target, s)

def drawJumpIfGreaterGuarded (b : Sampling) (s : Stream) : Guarded (Instruction × Stream) := do
  let (left, s) ← b.registerGuarded s
  let (right, s) ← b.registerGuarded s
  let (target, s) ← b.targetGuarded s
  .ok (.jumpIfGreater left right target, s)

def drawEmitSignOfGuarded (b : Sampling) (s : Stream) : Guarded (Instruction × Stream) := do
  let (register, s) ← b.registerGuarded s
  .ok (.emitSignOf register, s)

def drawEmitIfGreaterGuarded (b : Sampling) (s : Stream) : Guarded (Instruction × Stream) := do
  let (left, s) ← b.registerGuarded s
  let (right, s) ← b.registerGuarded s
  .ok (.emitIfGreater left right, s)

/-- the thirty kinds with guarded operands -/
def kindsGuarded (b : Sampling) : List (Stream → Guarded (Instruction × Stream)) :=
  DataUse.all.map b.drawDataGuarded ++ ColumnScan.all.map b.drawScanGuarded ++
  [b.drawConstantGuarded .move] ++
  [.move, .add, .subtract, .multiply, .divide].map b.drawPairGuarded ++
  [.add, .multiply].map b.drawConstantGuarded ++
  [.negate, .absolute, .squareRoot, .logarithm].map b.drawAlterGuarded ++
  [.minimum, .maximum].map b.drawPairGuarded ++
  [b.drawAlterGuarded .clear, b.drawJumpGuarded, b.drawJumpIfGuarded .zero, b.drawJumpIfGuarded .positive,
    b.drawJumpIfGreaterGuarded] ++
  [.long, .short, .out].map (fun signal s => .ok (.emit signal, s)) ++
  [b.drawEmitSignOfGuarded, b.drawEmitIfGreaterGuarded]

def drawGuarded (b : Sampling) (s : Stream) : Guarded (Instruction × Stream) := do
  let (kind, s) ← Guarded.below kindCount s
  match b.kindsGuarded[kind]? with
  | some operands => operands s
  | none => b.drawEmitIfGreaterGuarded s

variable (b : Sampling)

@[simp]
theorem registerGuarded_eq (s : Stream) : b.registerGuarded s = .ok (b.register s) :=
  Guarded.below_max_one _ s

@[simp]
theorem columnGuarded_eq (s : Stream) : b.columnGuarded s = .ok (b.column s) :=
  Guarded.below_max_one _ s

@[simp]
theorem offsetGuarded_eq (s : Stream) : b.offsetGuarded s = .ok (b.offset s) :=
  Guarded.below_max_one _ s

@[simp]
theorem targetGuarded_eq (s : Stream) : b.targetGuarded s = .ok (b.target s) :=
  Guarded.below_max_one _ s

@[simp]
theorem lengthGuarded_eq (s : Stream) : b.lengthGuarded s = .ok (b.length s) := by
  have hone : 1 ≤ max b.maximumOffset 1 := Nat.le_max_right _ 1
  refine Guarded.between_eq ?_
  rw [Stream.between?, if_pos hone, Nat.sub_add_cancel hone]
  exact congrArg some (Prod.ext (Nat.add_comm 1 _) rfl)

theorem drawDataGuarded_eq : b.drawDataGuarded = fun use s => .ok (b.drawData use s) := by
  funext use s
  simp only [drawDataGuarded, columnGuarded_eq, offsetGuarded_eq, registerGuarded_eq, Guarded.ok_bind]
  rfl

theorem drawScanGuarded_eq : b.drawScanGuarded = fun use s => .ok (b.drawScan use s) := by
  funext use s
  simp only [drawScanGuarded, columnGuarded_eq, lengthGuarded_eq, registerGuarded_eq, Guarded.ok_bind]
  rfl

theorem drawConstantGuarded_eq : b.drawConstantGuarded = fun use s => .ok (b.drawConstant use s) := by
  funext use s
  simp only [drawConstantGuarded, Guarded.constant_eq, registerGuarded_eq, Guarded.ok_bind]
  rfl

theorem drawPairGuarded_eq : b.drawPairGuarded = fun use s => .ok (b.drawPair use s) := by
  funext use s
  simp only [drawPairGuarded, registerGuarded_eq, Guarded.ok_bind]
  rfl

theorem drawAlterGuarded_eq : b.drawAlterGuarded = fun use s => .ok (b.drawAlter use s) := by
  funext use s
  simp only [drawAlterGuarded, registerGuarded_eq, Guarded.ok_bind]
  rfl

theorem drawJumpGuarded_eq : b.drawJumpGuarded = fun s => .ok (b.drawJump s) := by
  funext s
  simp only [drawJumpGuarded, targetGuarded_eq, Guarded.ok_bind]
  rfl

theorem drawJumpIfGuarded_eq : b.drawJumpIfGuarded = fun test s => .ok (b.drawJumpIf test s) := by
  funext test s
  simp only [drawJumpIfGuarded, registerGuarded_eq, targetGuarded_eq, Guarded.ok_bind]
  rfl

theorem drawJumpIfGreaterGuarded_eq : b.drawJumpIfGreaterGuarded = fun s => .ok (b.drawJumpIfGreater s) := by
  funext s
  simp only [drawJumpIfGreaterGuarded, registerGuarded_eq, targetGuarded_eq, Guarded.ok_bind]
  rfl

theorem drawEmitSignOfGuarded_eq : b.drawEmitSignOfGuarded = fun s => .ok (b.drawEmitSignOf s) := by
  funext s
  simp only [drawEmitSignOfGuarded, registerGuarded_eq, Guarded.ok_bind]
  rfl

theorem drawEmitIfGreaterGuarded_eq : b.drawEmitIfGreaterGuarded = fun s => .ok (b.drawEmitIfGreater s) := by
  funext s
  simp only [drawEmitIfGreaterGuarded, registerGuarded_eq, Guarded.ok_bind]
  rfl

/-- a guarded kind draws what the kind does -/
theorem kindsGuarded_eq : b.kindsGuarded = b.kinds.map fun operands s => .ok (operands s) := by
  rw [kindsGuarded, drawDataGuarded_eq, drawScanGuarded_eq, drawConstantGuarded_eq, drawPairGuarded_eq,
    drawAlterGuarded_eq, drawJumpGuarded_eq, drawJumpIfGuarded_eq, drawJumpIfGreaterGuarded_eq,
    drawEmitSignOfGuarded_eq, drawEmitIfGreaterGuarded_eq]
  rfl

/-- **A random instruction can always be drawn.** -/
@[simp]
theorem drawGuarded_eq (s : Stream) : b.drawGuarded s = .ok (b.draw s) := by
  have hkind : (s.below kindCount).1 < b.kinds.length := by
    rw [length_kinds]
    exact Stream.below_lt (by decide) s
  rw [drawGuarded, Guarded.below_eq (by decide), Guarded.ok_bind, kindsGuarded_eq, draw]
  dsimp only
  rw [List.getElem?_map, List.getElem?_eq_getElem hkind]
  rfl

end Sampling

/-! ## Programs -/

namespace ProgramBounds

def randomInstructionGuarded (b : ProgramBounds) (registers : Nat) (s : Stream) : Guarded (Instruction × Stream) :=
  (b.sampling registers).drawGuarded s

def randomInstructionsGuarded (b : ProgramBounds) (registers : Nat) : Nat → Stream → Guarded (List Instruction × Stream)
  | 0, s => .ok ([], s)
  | n + 1, s => do
    let (i, s) ← b.randomInstructionGuarded registers s
    let (rest, s) ← b.randomInstructionsGuarded registers n s
    .ok (i :: rest, s)

def randomProgramGuarded (b : ProgramBounds) (s : Stream) : Guarded (Program × Stream) := do
  let (length, s) ← Guarded.between b.minimumLength b.maximumLength s
  let (registers, s) ← Guarded.between 1 b.maximumRegisters s
  if Program.longest < length then .error .memory
  else
    let (instructions, s) ← b.randomInstructionsGuarded registers length s
    .ok (⟨instructions, registers⟩, s)

variable (b : ProgramBounds)

@[simp]
theorem randomInstructionGuarded_eq (registers : Nat) (s : Stream) :
    b.randomInstructionGuarded registers s = .ok (b.randomInstruction registers s) :=
  (b.sampling registers).drawGuarded_eq s

theorem randomInstructionsGuarded_eq (registers n : Nat) (s : Stream) :
    b.randomInstructionsGuarded registers n s = .ok (b.randomInstructions registers n s) := by
  induction n generalizing s with
  | zero => rfl
  | succ n ih =>
    simp only [randomInstructionsGuarded, randomInstructionGuarded_eq, ih, Guarded.ok_bind]
    rfl

/-- **A program that can be drawn is drawn without failing.** -/
theorem randomProgramGuarded_eq {s : Stream} {drawn : Program × Stream} (h : b.randomProgram? s = some drawn) :
    b.randomProgramGuarded s = .ok drawn := by
  obtain ⟨⟨length, s₁⟩, hlength, h⟩ := Option.bind_eq_some_iff.1 h
  obtain ⟨⟨registers, s₂⟩, hregisters, h⟩ := Option.bind_eq_some_iff.1 h
  dsimp only at h
  split at h
  · cases h
  · rename_i hheld
    cases h
    simp only [randomProgramGuarded, Guarded.between_eq hlength, Guarded.between_eq hregisters, Guarded.ok_bind,
      if_neg hheld, randomInstructionsGuarded_eq]

end ProgramBounds

/-! ## Mutations and crossings -/

namespace Mutation

variable (bounds : ProgramBounds) (rates : MutationRates) (registers : Nat)

def insertionGuarded (length : Nat) (s : Stream) : Guarded (List Instruction × Stream) := do
  let (wanted, s) := chance rates.newInstruction s
  if wanted && length < bounds.maximumLength then
    let (fresh, s) ← bounds.randomInstructionGuarded registers s
    .ok ([fresh], s)
  else .ok ([], s)

/-- an omission looks at the length without the instruction; the length is not looked at when none is wanted -/
def retentionGuarded (length : Nat) (i : Instruction) (s : Stream) : Guarded (List Instruction × Stream) := do
  let (skipped, s) := chance rates.skipInstruction s
  let omitted ← if skipped then do .ok (decide (bounds.minimumLength ≤ (← Guarded.sub length 1))) else .ok false
  if omitted then .ok ([], s)
  else
    let (replaced, s) := chance rates.instructionMutation s
    if replaced then
      let (fresh, s) ← bounds.randomInstructionGuarded registers s
      .ok ([fresh], s)
    else .ok ([i], s)

/-- goes through a source of a total length from a position on; what remains is counted down from the total -/
def reviseGuarded (total : Nat) : Nat → Nat → List Instruction → Stream → Guarded (List Instruction × Stream)
  | _, done, [], s => insertionGuarded bounds rates registers done s
  | position, done, i :: rest, s => do
    let remaining ← Guarded.sub total position
    let (before, s) ← insertionGuarded bounds rates registers (done + remaining) s
    let done := done + before.length
    let (kept, s) ← retentionGuarded bounds rates registers (done + remaining) i s
    let (tail, s) ← reviseGuarded total (position + 1) (done + kept.length) rest s
    .ok (before ++ kept ++ tail, s)

def mutateGuarded (p : Program) (s : Stream) : Guarded (Program × Stream) := do
  let (instructions, s) ← reviseGuarded bounds rates p.registers p.length 0 0 p.instructions s
  .ok (⟨instructions, p.registers⟩, s)

theorem insertionGuarded_eq (length : Nat) (s : Stream) :
    insertionGuarded bounds rates registers length s = .ok (insertion bounds rates registers length s) := by
  unfold insertionGuarded insertion
  dsimp only
  split
  · rw [bounds.randomInstructionGuarded_eq]
    rfl
  · rfl

theorem retentionGuarded_eq {length : Nat} (h : 0 < length) (i : Instruction) (s : Stream) :
    retentionGuarded bounds rates registers length i s = .ok (retention bounds rates registers length i s) := by
  unfold retentionGuarded retention
  dsimp only
  rw [Guarded.sub_eq h]
  cases (chance rates.skipInstruction s).1 with
  | false =>
    simp only [Guarded.ok_bind, Bool.false_eq_true, if_false, Bool.false_and]
    split
    · rw [bounds.randomInstructionGuarded_eq]
      rfl
    · rfl
  | true =>
    simp only [Guarded.ok_bind, if_true, Bool.true_and, decide_eq_true_eq]
    split
    · rfl
    · split
      · rw [bounds.randomInstructionGuarded_eq]
        rfl
      · rfl

theorem reviseGuarded_eq {total : Nat} (position done : Nat) (code : List Instruction) (s : Stream)
    (h : total = position + code.length) :
    reviseGuarded bounds rates registers total position done code s =
      .ok (revise bounds rates registers done code s) := by
  induction code generalizing position done s with
  | nil => exact insertionGuarded_eq bounds rates registers done s
  | cons i rest ih =>
    have hremaining : total - position = rest.length + 1 := by
      rw [h, List.length_cons]
      omega
    have hnext : total = position + 1 + rest.length := by
      rw [h, List.length_cons]
      omega
    rw [reviseGuarded, Guarded.sub_eq (by omega), Guarded.ok_bind, hremaining, insertionGuarded_eq, Guarded.ok_bind,
      revise]
    rcases insertion bounds rates registers (done + (rest.length + 1)) s with ⟨before, s₁⟩
    dsimp only
    rw [retentionGuarded_eq bounds rates registers (by omega), Guarded.ok_bind]
    rcases retention bounds rates registers (done + before.length + (rest.length + 1)) i s₁ with ⟨kept, s₂⟩
    dsimp only
    rw [ih (position + 1) _ _ hnext]
    rfl

/-- **Any program is mutated without failing.** -/
@[simp]
theorem mutateGuarded_eq (p : Program) (s : Stream) :
    mutateGuarded bounds rates p s = .ok (mutate bounds rates p s) := by
  have htotal : p.length = 0 + p.instructions.length := (Nat.zero_add _).symm
  rw [mutateGuarded, reviseGuarded_eq bounds rates p.registers 0 0 p.instructions s htotal]
  rfl

end Mutation

namespace Crossing

/-- the point is drawn from one up to the length that both have; both are split there -/
def crossGuarded (first second : Program) (s : Stream) : Guarded ((Program × Program) × Stream) := do
  let registers := max first.registers second.registers
  let common := min first.length second.length
  if common ≤ 1 then .ok ((⟨first.instructions, registers⟩, ⟨second.instructions, registers⟩), s)
  else
    let (point, s) ← Guarded.between 1 (common - 1) s
    let (firstHead, firstTail) ← Guarded.split first.instructions point
    let (secondHead, secondTail) ← Guarded.split second.instructions point
    .ok ((⟨firstHead ++ secondTail, registers⟩, ⟨secondHead ++ firstTail, registers⟩), s)

/-- **Any two programs are crossed without failing.** -/
@[simp]
theorem crossGuarded_eq (first second : Program) (s : Stream) :
    crossGuarded first second s = .ok (cross first second s) := by
  unfold crossGuarded cross
  dsimp only
  split
  · rfl
  · rename_i hcommon
    have hrange : 1 ≤ min first.length second.length - 1 := by omega
    have hdrawn : s.between? 1 (min first.length second.length - 1) =
        some (1 + (s.below (min first.length second.length - 1)).1,
          (s.below (min first.length second.length - 1)).2) := by
      rw [Stream.between?, if_pos hrange, Nat.sub_add_cancel hrange]
    have hpoint := Stream.below_lt hrange s
    have hfirst : 1 + (s.below (min first.length second.length - 1)).1 ≤ first.instructions.length := by
      have : min first.length second.length ≤ first.length := Nat.min_le_left _ _
      show _ ≤ first.length
      omega
    have hsecond : 1 + (s.below (min first.length second.length - 1)).1 ≤ second.instructions.length := by
      have : min first.length second.length ≤ second.length := Nat.min_le_right _ _
      show _ ≤ second.length
      omega
    rw [Guarded.between_eq hdrawn, Guarded.ok_bind]
    dsimp only
    rw [Guarded.split_eq hfirst, Guarded.ok_bind, Guarded.split_eq hsecond, Guarded.ok_bind, Nat.add_comm 1]
    rfl

end Crossing

/-! ## The wheel -/

namespace Wheel

def selectGuarded (weights : List Float) (s : Stream) : Guarded (Option Nat × Stream) := do
  if weights.isEmpty then .ok (none, s)
  else
    let total := sumOf (weights.map Binary64.nonNegative)
    if total ≤ 0.0 ∨ ¬total.isFinite then
      let (k, s) ← Guarded.below weights.length s
      .ok (some k, s)
    else
      let (u, s) := s.unit
      match stop? (u * total) 0 weights with
      | some k => .ok (some k, s)
      | none => .ok (last? weights, s)

/-- a wheel with entries has one to pick evenly -/
theorem selectGuarded_eq (weights : List Float) (s : Stream) : selectGuarded weights s = .ok (select weights s) := by
  unfold selectGuarded select
  split
  · rfl
  · rename_i hsome
    have hpos : 0 < weights.length := by
      rw [List.isEmpty_iff] at hsome
      exact List.length_pos_iff.2 hsome
    dsimp only
    split
    · rw [Guarded.below_eq hpos]
      rfl
    · cases stop? ((s.unit).1 * sumOf (weights.map Binary64.nonNegative)) 0 weights with
      | none => rfl
      | some k => rfl

end Wheel

end TradingRobots
