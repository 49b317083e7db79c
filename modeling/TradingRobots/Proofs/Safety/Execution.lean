/-
Programs that run without failing.

The machine takes registers and jump targets modulo a count, clamps columns and lengths, and looks back from a row by an
offset. Each of these would fail on a count of zero, on limits that cross, or before the first row. None does: the file
of a sound program has registers, a jump is taken within a program, the clamps' limits start at one, and an offset is
below the number of rows up to the window's own.

`stepGuarded_eq`, `runFromGuarded_eq`: a guarded step, and a guarded run, never fail.
`Equipped.executeGuarded_eq`: neither does a program with registers that memory holds.
`breaksDown_iff`: a run breaks down where the machine fails.
-/
import TradingRobots.Proofs.Execution.Dispatch
import TradingRobots.Proofs.Safety.Guarded

namespace TradingRobots

/-! ## Registers -/

namespace Registers

def readGuarded (r : Registers) (register : Nat) : Guarded Float :=
  if r.size = 0 then .ok 0.0
  else do
    let place ← Guarded.rem register r.size
    if place < r.size then .ok (r.numberAt place) else .error .index

def writeGuarded (r : Registers) (register : Nat) (x : Float) : Guarded Registers :=
  if r.size = 0 then .ok r
  else do
    let place ← Guarded.rem register r.size
    if place < r.size then .ok { r with written := put place (settled x) r.written } else .error .index

variable {r : Registers}

theorem readGuarded_eq (h : 0 < r.size) (register : Nat) : r.readGuarded register = .ok (r.read register) := by
  rw [readGuarded, if_neg (Nat.ne_of_gt h), Guarded.rem_eq h, Guarded.ok_bind, if_pos (Nat.mod_lt register h)]
  rfl

theorem writeGuarded_eq (h : 0 < r.size) (register : Nat) (x : Float) :
    r.writeGuarded register x = .ok (r.write register x) := by
  rw [writeGuarded, if_neg (Nat.ne_of_gt h), Guarded.rem_eq h, Guarded.ok_bind, if_pos (Nat.mod_lt register h), write,
    if_neg (Nat.ne_of_gt h)]

end Registers

/-! ## Windows -/

namespace Window

/-- the cell of a column so many rows back: the row is counted down by the offset -/
def readGuarded (w : Window) (column offset : Nat) : Guarded (Option Float) :=
  if offset < w.available then do
    let row ← Guarded.sub w.row offset
    .ok ((w.columns[column]?).bind fun cells => cells[row]?)
  else .ok none

def clampColumnGuarded (w : Window) (column : Nat) : Guarded (Option Nat) :=
  if w.columnCount = 0 then .ok none
  else do
    let last ← Guarded.sub w.columnCount 1
    .ok (some (min column last))

def clampLengthGuarded (w : Window) (length : Nat) : Guarded Nat :=
  Guarded.clamp length 1 (max w.maximumOffset 1)

def cellGuarded (w : Window) (ref : DataRef) : Guarded (Option Float) := do
  match ← w.clampColumnGuarded ref.column with
  | none => .ok none
  | some column => w.readGuarded column (w.clampOffset ref.offset)

def foldFromGuarded (w : Window) (column : Nat) (f : Float → Float → Float) :
    Nat → Nat → Float → Guarded (Option Float)
  | 0, _, acc => .ok (some acc)
  | n + 1, offset, acc => do
    match ← w.readGuarded column offset with
    | none => .ok none
    | some x => w.foldFromGuarded column f n (offset + 1) (f acc x)

def foldGuarded (w : Window) (column length : Nat) (f : Float → Float → Float) (start : Float) :
    Guarded (Option Float) := do
  match ← w.clampColumnGuarded column with
  | none => .ok none
  | some column =>
    let length ← w.clampLengthGuarded length
    w.foldFromGuarded column f length 0 start

/-- the average needs the number of cells once more -/
def scanGuarded (w : Window) (use : ColumnScan) (column length : Nat) : Guarded (Option Float) :=
  match use with
  | .average => do
    match ← w.foldGuarded column length (· + ·) 0.0 with
    | none => .ok none
    | some sum =>
      let count ← w.clampLengthGuarded length
      .ok (some (sum / Binary64.ofCount count))
  | .highest => w.foldGuarded column length Binary64.larger (-Binary64.infinity)
  | .lowest => w.foldGuarded column length Binary64.smaller Binary64.infinity

variable (w : Window)

/-- an available offset does not reach before the first row -/
theorem readGuarded_eq (column offset : Nat) : w.readGuarded column offset = .ok (w.read? column offset) := by
  unfold readGuarded read?
  split
  · rename_i hlt
    have hle : offset ≤ w.row := Nat.le_of_lt_succ (hlt.trans_le (Nat.min_le_left _ _))
    rw [Guarded.sub_eq hle, Guarded.ok_bind]
    cases w.columns[column]? with
    | none => rfl
    | some cells => rfl
  · rfl

theorem clampColumnGuarded_eq (column : Nat) : w.clampColumnGuarded column = .ok (w.clampColumn? column) := by
  unfold clampColumnGuarded clampColumn?
  split
  · rfl
  · rename_i hsome
    rw [Guarded.sub_eq (Nat.pos_of_ne_zero hsome)]
    rfl

/-- the limits of a length never cross -/
theorem clampLengthGuarded_eq (length : Nat) : w.clampLengthGuarded length = .ok (w.clampLength length) :=
  Guarded.clamp_eq (Nat.le_max_right _ _)

theorem cellGuarded_eq (ref : DataRef) : w.cellGuarded ref = .ok (w.cell? ref) := by
  rw [cellGuarded, clampColumnGuarded_eq, Guarded.ok_bind, cell?]
  cases w.clampColumn? ref.column with
  | none => rfl
  | some column => exact w.readGuarded_eq column _

theorem foldFromGuarded_eq (column : Nat) (f : Float → Float → Float) (n offset : Nat) (acc : Float) :
    w.foldFromGuarded column f n offset acc = .ok (w.foldFrom? column f n offset acc) := by
  induction n generalizing offset acc with
  | zero => rfl
  | succ n ih =>
    rw [foldFromGuarded, readGuarded_eq, Guarded.ok_bind, foldFrom?]
    cases w.read? column offset with
    | none => rfl
    | some x => exact ih (offset + 1) (f acc x)

theorem foldGuarded_eq (column length : Nat) (f : Float → Float → Float) (start : Float) :
    w.foldGuarded column length f start = .ok (w.fold? column length f start) := by
  rw [foldGuarded, clampColumnGuarded_eq, Guarded.ok_bind, fold?]
  cases w.clampColumn? column with
  | none => rfl
  | some column =>
    dsimp only
    rw [clampLengthGuarded_eq, Guarded.ok_bind, foldFromGuarded_eq]
    rfl

theorem scanGuarded_eq (use : ColumnScan) (column length : Nat) :
    w.scanGuarded use column length = .ok (w.scan? use column length) := by
  cases use with
  | average =>
    rw [scanGuarded, foldGuarded_eq, Guarded.ok_bind, scan?]
    cases w.fold? column length (· + ·) 0.0 with
    | none => rfl
    | some sum =>
      dsimp only
      rw [clampLengthGuarded_eq]
      rfl
  | highest => exact w.foldGuarded_eq column length _ _
  | lowest => exact w.foldGuarded_eq column length _ _

end Window

/-! ## Instructions -/

/-- one instruction with guarded reads and writes -/
def Instruction.stepGuarded (w : Window) (r : Registers) : Instruction → Guarded Step
  | data use source register => do
    match ← w.cellGuarded source with
    | some x => .ok (.next (← r.writeGuarded register (use.apply (← r.readGuarded register) x)))
    | none => .ok .missing
  | scan use column length register => do
    match ← w.scanGuarded use column length with
    | some x => .ok (.next (← r.writeGuarded register x))
    | none => .ok .missing
  | constant use value register => do
    .ok (.next (← r.writeGuarded register (use.apply (← r.readGuarded register) value)))
  | pair use source target => do
    match use.apply? (← r.readGuarded target) (← r.readGuarded source) with
    | some x => .ok (.next (← r.writeGuarded target x))
    | none => .ok (.next r)
  | alter use register => do .ok (.next (← r.writeGuarded register (use.apply (← r.readGuarded register))))
  | jump target => .ok (.jump target)
  | jumpIf test register target => do
    .ok (if test.holds (← r.readGuarded register) then .jump target else .next r)
  | jumpIfGreater left right target => do
    .ok (if (← r.readGuarded left) > (← r.readGuarded right) then .jump target else .next r)
  | emit signal => .ok (.emit signal)
  | emitSignOf register => do .ok (.emit (.ofSign (← r.readGuarded register)))
  | emitIfGreater left right => do .ok (.emit (.ofSign ((← r.readGuarded left) - (← r.readGuarded right))))

/-- **A guarded instruction does not fail** on a file with registers. -/
theorem Instruction.stepGuarded_eq (w : Window) {r : Registers} (h : 0 < r.size) (i : Instruction) :
    i.stepGuarded w r = .ok (i.step w r) := by
  cases i with
  | data use source register =>
    rw [stepGuarded, w.cellGuarded_eq, Guarded.ok_bind, step]
    cases w.cell? source with
    | none => rfl
    | some x =>
      dsimp only
      rw [r.readGuarded_eq h, Guarded.ok_bind, r.writeGuarded_eq h]
      rfl
  | scan use column length register =>
    rw [stepGuarded, w.scanGuarded_eq, Guarded.ok_bind, step]
    cases w.scan? use column length with
    | none => rfl
    | some x =>
      dsimp only
      rw [r.writeGuarded_eq h]
      rfl
  | constant use value register =>
    rw [stepGuarded, r.readGuarded_eq h, Guarded.ok_bind, r.writeGuarded_eq h]
    rfl
  | pair use source target =>
    rw [stepGuarded, r.readGuarded_eq h, r.readGuarded_eq h, Guarded.ok_bind, Guarded.ok_bind, step]
    cases use.apply? (r.read target) (r.read source) with
    | none => rfl
    | some x =>
      dsimp only
      rw [r.writeGuarded_eq h]
      rfl
  | alter use register =>
    rw [stepGuarded, r.readGuarded_eq h, Guarded.ok_bind, r.writeGuarded_eq h]
    rfl
  | jump target => rfl
  | jumpIf test register target =>
    rw [stepGuarded, r.readGuarded_eq h]
    rfl
  | jumpIfGreater left right target =>
    rw [stepGuarded, r.readGuarded_eq h, r.readGuarded_eq h]
    rfl
  | emit signal => rfl
  | emitSignOf register =>
    rw [stepGuarded, r.readGuarded_eq h]
    rfl
  | emitIfGreater left right =>
    rw [stepGuarded, r.readGuarded_eq h, r.readGuarded_eq h]
    rfl

/-! ## Programs -/

namespace Program

/-- a program has registers, and memory can hold them -/
structure Equipped (p : Program) : Prop where
  registers_pos : 0 < p.registers
  runnable : p.isRunnable = true

/-- a run whose jumps are taken modulo the program's length -/
def runFromGuarded (code : Array Instruction) (w : Window) : Nat → Nat → Registers → Nat → Guarded Execution
  | left, dispatched, r, position =>
    match code[position]? with
    | none => .ok ⟨.out, dispatched, .ranOffEnd⟩
    | some i =>
      match left with
      | 0 => .ok ⟨.out, dispatched, .budgetExhausted⟩
      | left + 1 => do
        match ← i.stepGuarded w r with
        | .next r => runFromGuarded code w left (dispatched + 1) r (position + 1)
        | .jump target =>
          let position ← Guarded.rem target code.size
          runFromGuarded code w left (dispatched + 1) r position
        | .emit signal => .ok ⟨signal, dispatched + 1, .emitted⟩
        | .missing => .ok ⟨.out, dispatched + 1, .missingData⟩

/-- a program whose registers memory must hold first -/
def executeGuarded (p : Program) (factor : Nat) (w : Window) : Guarded Execution :=
  if p.isRunnable then runFromGuarded p.instructions.toArray w (p.budget factor) 0 (.blank p.registers) 0
  else .error .memory

/-- **A guarded run does not fail** on a file with registers, from any position. -/
theorem runFromGuarded_eq (code : Array Instruction) (w : Window) (left dispatched : Nat) {r : Registers}
    (position : Nat) (h : 0 < r.size) :
    runFromGuarded code w left dispatched r position = .ok (runFrom code w left dispatched r position) := by
  induction left generalizing dispatched r position with
  | zero =>
    unfold runFromGuarded runFrom
    cases code[position]? with
    | none => rfl
    | some i => rfl
  | succ left ih =>
    unfold runFromGuarded runFrom
    cases hi : code[position]? with
    | none => rfl
    | some i =>
      dsimp only
      rw [i.stepGuarded_eq w h, Guarded.ok_bind]
      cases hstep : i.step w r with
      | next r' =>
        have hsize : 0 < r'.size := by
          rw [Instruction.size_of_step hstep]
          exact h
        exact ih (dispatched + 1) (position + 1) hsize
      | jump target =>
        have hcode : 0 < code.size := (Nat.zero_le position).trans_lt (Array.getElem?_eq_some_iff.1 hi).1
        dsimp only
        rw [Guarded.rem_eq hcode, Guarded.ok_bind]
        exact ih (dispatched + 1) (target % code.size) h
      | emit signal => rfl
      | missing => rfl

/-- **A program with registers that memory holds runs without failing.** -/
theorem Equipped.executeGuarded_eq {p : Program} (h : p.Equipped) (factor : Nat) (w : Window) :
    p.executeGuarded factor w = .ok (p.execute factor w) := by
  rw [executeGuarded, if_pos h.runnable]
  exact runFromGuarded_eq _ w _ 0 0 h.registers_pos

/-- the one failure of a program with registers is that memory cannot hold them -/
theorem executeGuarded_eq_error_iff {p : Program} (hpos : 0 < p.registers) {factor : Nat} {w : Window}
    {failure : Failure} : p.executeGuarded factor w = .error failure ↔ failure = .memory ∧ p.isRunnable = false := by
  cases hrun : p.isRunnable with
  | true =>
    rw [Equipped.executeGuarded_eq ⟨hpos, hrun⟩]
    simp
  | false =>
    rw [executeGuarded, hrun, if_neg Bool.false_ne_true]
    simp [eq_comm]

/-- **A run breaks down where the machine fails**, or where it looks for data from a row after which none can be
counted. -/
theorem breaksDown_iff {p : Program} (hpos : 0 < p.registers) (factor : Nat) (w : Window) :
    p.breaksDown factor w = true ↔
      (∃ failure, p.executeGuarded factor w = .error failure) ∨ w.hasNext = false ∧ p.looksForData factor w = true := by
  simp only [executeGuarded_eq_error_iff hpos, breaksDown, exists_eq_left, Bool.or_eq_true, Bool.and_eq_true,
    Bool.not_eq_eq_eq_not, Bool.not_true]

end Program

end TradingRobots
