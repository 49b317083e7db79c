/-
Running a program on a window.

The machine is a register file and a position in the program. Columns and offsets are clamped to the window. A run ends
when a signal is emitted, when the position leaves the program, when the window lacks the history an instruction needs, or
when the budget of dispatched instructions is used up; only the first gives a direction.
-/
import TradingRobots.Number.Logarithm
import TradingRobots.Program
import TradingRobots.Registers
import TradingRobots.Window

namespace TradingRobots

namespace Window

/-- a column that the window has, for any operand -/
def clampColumn? (w : Window) (column : Nat) : Option Nat :=
  if w.columnCount = 0 then none else some (min column (w.columnCount - 1))

def clampOffset (w : Window) (offset : Nat) : Nat :=
  min offset (w.maximumOffset - 1)

def clampLength (w : Window) (length : Nat) : Nat :=
  max 1 (min length (max w.maximumOffset 1))

/-- the window with its columns, but without a cell -/
def emptied (w : Window) : Window :=
  { w with columns := w.columns.map fun _ => #[] }

/-- the cell that a data operand means -/
def cell? (w : Window) (ref : DataRef) : Option Float := do
  let column ← w.clampColumn? ref.column
  w.read? column (w.clampOffset ref.offset)

/-- folds the cells of a column from an offset on, latest first; nothing if one is missing -/
def foldFrom? (w : Window) (column : Nat) (f : Float → Float → Float) : Nat → Nat → Float → Option Float
  | 0, _, acc => some acc
  | n + 1, offset, acc => do
    let x ← w.read? column offset
    w.foldFrom? column f n (offset + 1) (f acc x)

/-- folds the latest cells of the column that an operand means -/
def fold? (w : Window) (column length : Nat) (f : Float → Float → Float) (start : Float) : Option Float := do
  let column ← w.clampColumn? column
  w.foldFrom? column f (w.clampLength length) 0 start

/-- the average, highest or lowest of the latest cells of a column -/
def scan? (w : Window) (use : ColumnScan) (column length : Nat) : Option Float :=
  match use with
  | .average => (w.fold? column length (· + ·) 0.0).map (· / Binary64.ofCount (w.clampLength length))
  | .highest => w.fold? column length Binary64.larger (-Binary64.infinity)
  | .lowest => w.fold? column length Binary64.smaller Binary64.infinity

end Window

/-- what one instruction does -/
inductive Step where
  | next (registers : Registers)
  | jump (target : Nat)
  | emit (signal : Signal)
  | missing
deriving DecidableEq, Repr

/-- the number that a cell leaves in a register -/
def DataUse.apply (use : DataUse) (held cell : Float) : Float :=
  match use with
  | .move => cell
  | .add => held + cell
  | .subtract => held - cell

/-- the number that a constant leaves in a register -/
def ConstantUse.apply (use : ConstantUse) (held value : Float) : Float :=
  match use with
  | .move => value
  | .add => held + value
  | .multiply => held * value

/-- the number that a source leaves in a target; nothing is written on a division by zero -/
def PairUse.apply? (use : PairUse) (held source : Float) : Option Float :=
  match use with
  | .move => some source
  | .add => some (held + source)
  | .subtract => some (held - source)
  | .multiply => some (held * source)
  | .divide => if source == 0.0 then none else some (held / source)
  | .minimum => some (Binary64.smaller held source)
  | .maximum => some (Binary64.larger held source)

def Alteration.apply (use : Alteration) (held : Float) : Float :=
  match use with
  | .negate => -held
  | .absolute => held.abs
  | .squareRoot => held.abs.sqrt
  | .logarithm => Logarithm.natural held.abs
  | .clear => 0.0

def JumpTest.holds (test : JumpTest) (x : Float) : Bool :=
  match test with
  | .zero => x == 0.0
  | .positive => x > 0.0

/-- one instruction on the registers and the window -/
def Instruction.step (w : Window) (r : Registers) : Instruction → Step
  | data use source register =>
    match w.cell? source with
    | some x => .next (r.write register (use.apply (r.read register) x))
    | none => .missing
  | scan use column length register =>
    match w.scan? use column length with
    | some x => .next (r.write register x)
    | none => .missing
  | constant use value register => .next (r.write register (use.apply (r.read register) value))
  | pair use source target =>
    match use.apply? (r.read target) (r.read source) with
    | some x => .next (r.write target x)
    | none => .next r
  | alter use register => .next (r.write register (use.apply (r.read register)))
  | jump target => .jump target
  | jumpIf test register target => if test.holds (r.read register) then .jump target else .next r
  | jumpIfGreater left right target => if r.read left > r.read right then .jump target else .next r
  | emit signal => .emit signal
  | emitSignOf register => .emit (.ofSign (r.read register))
  | emitIfGreater left right => .emit (.ofSign (r.read left - r.read right))

/-- why a run ended -/
inductive Termination where
  | emitted
  | ranOffEnd
  | missingData
  | budgetExhausted
deriving DecidableEq, Repr

def Termination.name : Termination → String
  | emitted => "Emitted"
  | ranOffEnd => "RanOffEnd"
  | missingData => "MissingData"
  | budgetExhausted => "BudgetExhausted"

/-- the result of a run -/
structure Execution where
  signal : Signal
  dispatched : Nat
  termination : Termination
deriving DecidableEq, Repr

namespace Program

/-- the dispatches a program may use: so many per instruction, up to the word size -/
def budget (p : Program) (factor : Nat) : Nat :=
  min (p.length * factor) (Binary64.wordLimit - 1)

/-- runs from a position with some budget left. The position is looked at before the budget. -/
def runFrom (code : Array Instruction) (w : Window) : Nat → Nat → Registers → Nat → Execution
  | left, dispatched, r, position =>
    match code[position]? with
    | none => ⟨.out, dispatched, .ranOffEnd⟩
    | some i =>
      match left with
      | 0 => ⟨.out, dispatched, .budgetExhausted⟩
      | left + 1 =>
        match i.step w r with
        | .next r => runFrom code w left (dispatched + 1) r (position + 1)
        | .jump target => runFrom code w left (dispatched + 1) r (target % code.size)
        | .emit signal => ⟨signal, dispatched + 1, .emitted⟩
        | .missing => ⟨.out, dispatched + 1, .missingData⟩

/-- runs a program on a window, from blank registers at the first instruction -/
def execute (p : Program) (factor : Nat) (w : Window) : Execution :=
  runFrom p.instructions.toArray w (p.budget factor) 0 (.blank p.registers) 0

/-- a run ends at the first instruction that looks for data in a window that holds none -/
def looksForData (p : Program) (factor : Nat) (w : Window) : Bool :=
  0 < w.columnCount && (p.execute factor w.emptied).termination = .missingData

/-- a run breaks down where memory cannot hold the registers, or where data is looked for from a row after which none can
be counted -/
def breaksDown (p : Program) (factor : Nat) (w : Window) : Bool :=
  !p.isRunnable || (!w.hasNext && p.looksForData factor w)

/-- the registers after each instruction, taken in order of the list; the list ends where data is missing or the order
is left -/
def registersAfterEach (w : Window) : Registers → List Instruction → List (Option Registers)
  | _, [] => []
  | r, i :: rest =>
    match i.step w r with
    | .next r => some r :: registersAfterEach w r rest
    | .missing => [none]
    | _ => []

/-- the register contents through a program without jumps and signals -/
def trace (p : Program) (w : Window) : List (Option Registers) :=
  registersAfterEach w (.blank p.registers) p.instructions

end Program

end TradingRobots
