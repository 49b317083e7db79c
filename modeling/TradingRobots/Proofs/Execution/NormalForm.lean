/-
Operands out of range mean their clamped form.

The machine takes registers and jump targets modulo a count, and clamps columns, offsets and lengths. The normal form
of a program has its operands changed in this way beforehand. It passes the check of operands, and it runs as the
program does: each step is the same, except that the target of a jump is already taken modulo the length.

`operands_normalForm`: the normal form has each operand as the machine takes it.
`isWithin_normalForm`: its operands are in range.
`step_normalForm`: it does the same in one step.
`normalForm_runs_alike`: the checks and the runs of the normal form of a program.
-/
import TradingRobots.Proofs.Execution.Dispatch
import TradingRobots.Proofs.Program.Exchange

namespace TradingRobots

/-! ## Taking what was taken again -/

namespace Registers

variable (r : Registers)

@[simp]
theorem read_mod (register : Nat) : r.read (register % r.size) = r.read register := by
  rw [read, read, Nat.mod_mod]

@[simp]
theorem write_mod (register : Nat) (x : Float) : r.write (register % r.size) x = r.write register x := by
  rw [write, write, Nat.mod_mod]

end Registers

namespace Window

variable (w : Window)

@[simp]
theorem clampColumn?_min (column : Nat) : w.clampColumn? (min column (w.columnCount - 1)) = w.clampColumn? column := by
  rw [clampColumn?, clampColumn?, Nat.min_assoc, Nat.min_self]

@[simp]
theorem clampOffset_min (offset : Nat) : w.clampOffset (min offset (w.maximumOffset - 1)) = w.clampOffset offset := by
  rw [clampOffset, clampOffset, Nat.min_assoc, Nat.min_self]

@[simp]
theorem clampLength_clamped (length : Nat) :
    w.clampLength (max 1 (min length w.maximumOffset)) = w.clampLength length := by
  rw [clampLength, clampLength]
  omega

end Window

/-! ## Operands -/

/-- what operands are taken by: the registers, columns and offsets there are, and the length of the program -/
structure Limits where
  registers : Nat
  columns : Nat
  maximumOffset : Nat
  length : Nat
deriving DecidableEq, Repr

/-- an amount is finite; nothing is asked of other operands -/
def Operand.isFinite : Operand → Bool
  | amount x => x.isFinite
  | _ => true

namespace Limits

/-- an operand as the machine takes it; its name tells what a number refers to -/
def taken (l : Limits) : String × Operand → String × Operand
  | (name, .amount x) => (name, .amount x)
  | (name, .cell ref) => (name, .cell ⟨min ref.column (l.columns - 1), min ref.offset (l.maximumOffset - 1)⟩)
  | (name, .index n) =>
    (name, .index (
      if name = "column" then min n (l.columns - 1)
      else if name = "length" then max 1 (min n l.maximumOffset)
      else if name = "target" then n % l.length
      else n % l.registers))

end Limits

/-! ## Instructions -/

namespace Instruction

/-- the instruction with every operand in range -/
def normalForm (l : Limits) : Instruction → Instruction
  | data use source register =>
    .data use ⟨min source.column (l.columns - 1), min source.offset (l.maximumOffset - 1)⟩ (register % l.registers)
  | scan use column length register =>
    .scan use (min column (l.columns - 1)) (max 1 (min length l.maximumOffset)) (register % l.registers)
  | constant use value register => .constant use value (register % l.registers)
  | pair use source target => .pair use (source % l.registers) (target % l.registers)
  | alter use register => .alter use (register % l.registers)
  | jump target => .jump (target % l.length)
  | jumpIf test register target => .jumpIf test (register % l.registers) (target % l.length)
  | jumpIfGreater left right target => .jumpIfGreater (left % l.registers) (right % l.registers) (target % l.length)
  | emit signal => .emit signal
  | emitSignOf register => .emitSignOf (register % l.registers)
  | emitIfGreater left right => .emitIfGreater (left % l.registers) (right % l.registers)

variable {l : Limits}

/-- **Each operand of the normal form is as the machine takes it.** -/
theorem operands_normalForm (i : Instruction) : (i.normalForm l).operands = i.operands.map l.taken := by
  cases i <;> rfl

/-- an operand as the machine takes it keeps the bounds -/
theorem operandWithin_taken (hr : 0 < l.registers) (hc : 0 < l.columns) (ho : 0 < l.maximumOffset)
    {o : String × Operand} (hfinite : o.2.isFinite = true) :
    OperandWithin l.registers l.columns l.maximumOffset (l.taken o) := by
  match o with
  | (name, .amount x) => exact hfinite
  | (name, .cell ref) =>
    simp only [Limits.taken, OperandWithin]
    omega
  | (name, .index n) =>
    have hmod : n % l.registers < l.registers := Nat.mod_lt n hr
    refine ⟨?_, ?_, ?_⟩
    · rintro rfl
      show min n (l.columns - 1) < l.columns
      omega
    · rintro rfl
      show 1 ≤ max 1 (min n l.maximumOffset) ∧ max 1 (min n l.maximumOffset) ≤ l.maximumOffset
      omega
    · intro hname
      simp only [List.mem_cons, List.not_mem_nil, or_false] at hname
      rcases hname with rfl | rfl | rfl | rfl | rfl <;> exact hmod

/-- **The normal form keeps the bounds**, if constants are finite. -/
theorem isWithin_normalForm (hr : 0 < l.registers) (hc : 0 < l.columns) (ho : 0 < l.maximumOffset) {i : Instruction}
    (hfinite : ∀ o ∈ i.operands, o.2.isFinite = true) :
    (i.normalForm l).isWithin l.registers l.columns l.maximumOffset = true := by
  rw [isWithin_iff_operands, operands_normalForm]
  intro o ho'
  obtain ⟨given, hgiven, rfl⟩ := List.mem_map.1 ho'
  exact operandWithin_taken hr hc ho (hfinite given hgiven)

end Instruction

/-- a step whose jump lands inside a program of so many instructions -/
def Step.landing (length : Nat) : Step → Step
  | jump target => .jump (target % length)
  | s => s

/-- **The normal form does the same in one step**, but for the target of a jump. -/
theorem Instruction.step_normalForm (w : Window) (r : Registers) (length : Nat) (i : Instruction) :
    (i.normalForm ⟨r.size, w.columnCount, w.maximumOffset, length⟩).step w r = (i.step w r).landing length := by
  cases i with
  | data use source register =>
    simp only [normalForm, step, Window.cell?, Window.clampColumn?_min, Window.clampOffset_min, Registers.read_mod,
      Registers.write_mod]
    split <;> rfl
  | scan use column span register =>
    have hscan : w.scan? use (min column (w.columnCount - 1)) (max 1 (min span w.maximumOffset)) =
        w.scan? use column span := by
      cases use <;> simp [Window.scan?, Window.fold?]
    simp only [normalForm, step, hscan, Registers.write_mod]
    split <;> rfl
  | pair use source target =>
    simp only [normalForm, step, Registers.read_mod, Registers.write_mod]
    split <;> rfl
  | jumpIf test register target =>
    simp only [normalForm, step, Registers.read_mod]
    split <;> rfl
  | jumpIfGreater left right target =>
    simp only [normalForm, step, Registers.read_mod]
    split <;> rfl
  | _ => simp [normalForm, step, Step.landing]

/-! ## Programs -/

namespace Program

/-- what the operands of a program are taken by when it runs on a window -/
def limits (p : Program) (w : Window) : Limits :=
  ⟨p.registers, w.columnCount, w.maximumOffset, p.length⟩

/-- the program with every operand as it is taken on a window -/
def normalForm (p : Program) (w : Window) : Program :=
  ⟨p.instructions.map (Instruction.normalForm (p.limits w)), p.registers⟩

variable (p : Program) (w : Window)

theorem length_normalForm : (p.normalForm w).length = p.length := by
  simp [normalForm, length]

theorem normalForm_emptied : p.normalForm w.emptied = p.normalForm w := by
  simp [normalForm, limits, Window.emptied, Window.columnCount]

/-- the normal form runs as the program does, from any position on the program's registers -/
theorem runFrom_normalForm (left n : Nat) {r : Registers} (position : Nat) (hr : r.size = p.registers) :
    runFrom (p.normalForm w).instructions.toArray w left n r position =
      runFrom p.instructions.toArray w left n r position := by
  have hcode : ∀ k : Nat,
      (p.normalForm w).instructions[k]? = p.instructions[k]?.map (Instruction.normalForm (p.limits w)) := by
    intro k
    simp [normalForm]
  have hlimits : p.limits w = ⟨r.size, w.columnCount, w.maximumOffset, p.length⟩ := by
    rw [limits, hr]
  have hlength : (p.normalForm w).instructions.length = p.instructions.length := p.length_normalForm w
  induction left generalizing n r position with
  | zero =>
    rw [runFrom, runFrom]
    simp only [List.getElem?_toArray, hcode]
    cases p.instructions[position]? <;> rfl
  | succ left ih =>
    rw [runFrom, runFrom]
    simp only [List.getElem?_toArray, List.size_toArray, hcode, hlength]
    cases hi : p.instructions[position]? with
    | none => rfl
    | some i =>
      have hstep : (i.normalForm (p.limits w)).step w r = (i.step w r).landing p.length := by
        rw [hlimits, i.step_normalForm]
      simp only [Option.map_some, hstep]
      cases hs : i.step w r with
      | next r' =>
        have hsize := Instruction.size_of_step hs
        exact ih (n + 1) (position + 1) (hsize.trans hr) (by rw [hlimits, hsize])
      | jump target =>
        have hland : target % p.length % p.instructions.length = target % p.instructions.length := Nat.mod_mod _ _
        simp only [Step.landing, hland]
        exact ih (n + 1) (target % p.instructions.length) hr hlimits
      | emit signal => rfl
      | missing => rfl

theorem execute_normalForm (factor : Nat) : (p.normalForm w).execute factor w = p.execute factor w := by
  have hbudget : (p.normalForm w).budget factor = p.budget factor := by
    rw [budget, budget, length_normalForm]
  rw [execute, execute, hbudget]
  exact p.runFrom_normalForm w _ 0 0 rfl

/-- **Operands out of range mean exactly their clamped form.** The normal form of a program on a window has each
register modulo the register count, each column and offset cut down to the last one, each length clamped to the offsets
there are, and each jump target modulo the length. If there are registers, columns and offsets, and the constants are
finite, all its instructions pass the check of operands. Under every factor it runs as the program does: the same
signal, after as many dispatches, for the same reason; and it breaks down when the program does. -/
theorem normalForm_runs_alike :
    (0 < p.registers → 0 < w.columnCount → 0 < w.maximumOffset →
      (∀ i ∈ p.instructions, ∀ o ∈ i.operands, o.2.isFinite = true) →
      ∀ i ∈ (p.normalForm w).instructions, i.isWithin p.registers w.columnCount w.maximumOffset = true) ∧
    ∀ factor, (p.normalForm w).execute factor w = p.execute factor w ∧
      (p.normalForm w).breaksDown factor w = p.breaksDown factor w := by
  refine ⟨fun hr hc ho hfinite i hi => ?_, fun factor => ⟨p.execute_normalForm w factor, ?_⟩⟩
  · obtain ⟨given, hgiven, rfl⟩ := List.mem_map.1 hi
    exact Instruction.isWithin_normalForm (l := p.limits w) hr hc ho (hfinite given hgiven)
  · have hlooks : (p.normalForm w).looksForData factor w = p.looksForData factor w := by
      rw [looksForData, looksForData, ← p.normalForm_emptied w, execute_normalForm]
    rw [breaksDown, breaksDown, hlooks]
    rfl

/-- a loop with all operands out of range: it is cut off, and so is its normal form -/
theorem normalForm_runs_alike_loop :
    let p : Program :=
      ⟨[.data .add ⟨7, 9⟩ 5, .scan .highest 4 0 2, .constant .multiply 0.5 3, .jumpIfGreater 8 7 12, .emitSignOf 6], 2⟩
    let w : Window := ⟨#[#[1.0, 2.0, 1.5]], 2, 2, none⟩
    p.normalForm w =
      ⟨[.data .add ⟨0, 1⟩ 1, .scan .highest 0 1 0, .constant .multiply 0.5 1, .jumpIfGreater 0 1 2, .emitSignOf 0], 2⟩ ∧
      (∀ i ∈ (p.normalForm w).instructions, i.isWithin 2 1 2 = true) ∧
      (p.execute 4 w).termination = .budgetExhausted ∧ (p.normalForm w).execute 4 w = p.execute 4 w ∧
      (p.normalForm w).breaksDown 4 w = p.breaksDown 4 w := by
  intro p w
  obtain ⟨hwithin, hruns⟩ := normalForm_runs_alike p w
  obtain ⟨hsame, hdown⟩ := hruns 4
  have hchecked := hwithin (by decide) (by decide) (by decide) (by decide)
  exact ⟨by decide +kernel, hchecked, by decide +kernel, hsame, hdown⟩

end Program

end TradingRobots
