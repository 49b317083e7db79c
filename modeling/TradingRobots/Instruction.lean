/-
The instructions of robot programs: reads of market data, scans over the latest rows of a column, arithmetic on
registers, jumps, and the emission of a signal.

Every instruction has a name and a list of named operands; its line in a listing is made from these two alone.
`isWithin` says that the operands keep the bounds of registers, columns and offsets; a jump target is free, it is taken
modulo the program's length.
-/
import TradingRobots.Number.Text
import TradingRobots.Signal

namespace TradingRobots

/-- a cell of the window: the column, and how many rows back -/
structure DataRef where
  column : Nat
  offset : Nat
deriving DecidableEq, Repr

/-- what is done with a cell and a register -/
inductive DataUse where
  | move
  | add
  | subtract
deriving DecidableEq, Repr

/-- what is made of the latest cells of a column -/
inductive ColumnScan where
  | average
  | highest
  | lowest
deriving DecidableEq, Repr

/-- what is done with a constant and a register -/
inductive ConstantUse where
  | move
  | add
  | multiply
deriving DecidableEq, Repr

/-- what is done with a source register and a target register -/
inductive PairUse where
  | move
  | add
  | subtract
  | multiply
  | divide
  | minimum
  | maximum
deriving DecidableEq, Repr

/-- what is done with one register -/
inductive Alteration where
  | negate
  | absolute
  | squareRoot
  | logarithm
  | clear
deriving DecidableEq, Repr

/-- when a jump on one register is taken -/
inductive JumpTest where
  | zero
  | positive
deriving DecidableEq, Repr

inductive Instruction where
  | data (use : DataUse) (source : DataRef) (register : Nat)
  | scan (use : ColumnScan) (column length register : Nat)
  | constant (use : ConstantUse) (value : Float) (register : Nat)
  | pair (use : PairUse) (source target : Nat)
  | alter (use : Alteration) (register : Nat)
  | jump (target : Nat)
  | jumpIf (test : JumpTest) (register target : Nat)
  | jumpIfGreater (left right target : Nat)
  | emit (signal : Signal)
  | emitSignOf (register : Nat)
  | emitIfGreater (left right : Nat)
deriving DecidableEq, Repr

namespace DataUse

def all : List DataUse := [move, add, subtract]

def name : DataUse → String
  | move => "MoveDataToRegister"
  | add => "AddDataToRegister"
  | subtract => "SubtractDataFromRegister"

end DataUse

namespace ColumnScan

def all : List ColumnScan := [average, highest, lowest]

def name : ColumnScan → String
  | average => "AverageOfColumn"
  | highest => "HighestOfColumn"
  | lowest => "LowestOfColumn"

end ColumnScan

namespace ConstantUse

def all : List ConstantUse := [move, add, multiply]

def name : ConstantUse → String
  | move => "MoveConstant"
  | add => "AddConstant"
  | multiply => "MultiplyByConstant"

end ConstantUse

namespace PairUse

def all : List PairUse := [move, add, subtract, multiply, divide, minimum, maximum]

def name : PairUse → String
  | move => "MoveRegister"
  | add => "AddRegisters"
  | subtract => "SubtractRegisters"
  | multiply => "MultiplyRegisters"
  | divide => "DivideRegisters"
  | minimum => "Minimum"
  | maximum => "Maximum"

end PairUse

namespace Alteration

def all : List Alteration := [negate, absolute, squareRoot, logarithm, clear]

def name : Alteration → String
  | negate => "Negate"
  | absolute => "Absolute"
  | squareRoot => "SquareRoot"
  | logarithm => "NaturalLogarithm"
  | clear => "ZeroOut"

end Alteration

namespace JumpTest

def all : List JumpTest := [zero, positive]

def name : JumpTest → String
  | zero => "JumpIfZero"
  | positive => "JumpIfPositive"

end JumpTest

/-- the value of an operand -/
inductive Operand where
  | index (n : Nat)
  | amount (x : Float)
  | cell (ref : DataRef)

namespace Instruction

def name : Instruction → String
  | data use .. => use.name
  | scan use .. => use.name
  | constant use .. => use.name
  | pair use .. => use.name
  | alter use _ => use.name
  | jump _ => "JumpTo"
  | jumpIf test .. => test.name
  | jumpIfGreater .. => "JumpIfGreater"
  | emit signal => "Emit" ++ signal.name
  | emitSignOf _ => "EmitSignOf"
  | emitIfGreater .. => "EmitIfGreater"

/-- the operands with their names, in the order they are written -/
def operands : Instruction → List (String × Operand)
  | data _ source register => [("data", .cell source), ("register", .index register)]
  | scan _ column length register =>
    [("column", .index column), ("length", .index length), ("register", .index register)]
  | constant _ value register => [("value", .amount value), ("register", .index register)]
  | pair _ source target => [("from", .index source), ("to", .index target)]
  | alter _ register => [("register", .index register)]
  | jump target => [("target", .index target)]
  | jumpIf _ register target => [("register", .index register), ("target", .index target)]
  | jumpIfGreater left right target => [("left", .index left), ("right", .index right), ("target", .index target)]
  | emit _ => []
  | emitSignOf register => [("register", .index register)]
  | emitIfGreater left right => [("left", .index left), ("right", .index right)]

/-- an operand in a listing; a cell is written as its column and its offset -/
def operandText : String × Operand → String
  | (name, .index n) => " " ++ name ++ "=" ++ toString n
  | (name, .amount x) => " " ++ name ++ "=" ++ Number.listed.text x
  | (_, .cell ref) => " column=" ++ toString ref.column ++ " offset=" ++ toString ref.offset

/-- the line of a listing -/
def text (i : Instruction) : String :=
  i.name ++ String.join (i.operands.map operandText)

/-- the operands keep the bounds, and constants are finite -/
def isWithin (registers columns maximumOffset : Nat) : Instruction → Bool
  | data _ source register => source.column < columns && source.offset < maximumOffset && register < registers
  | scan _ column length register =>
    column < columns && 1 ≤ length && length ≤ maximumOffset && register < registers
  | constant _ value register => value.isFinite && register < registers
  | pair _ source target => source < registers && target < registers
  | alter _ register => register < registers
  | jump _ => true
  | jumpIf _ register _ => register < registers
  | jumpIfGreater left right _ => left < registers && right < registers
  | emit _ => true
  | emitSignOf register => register < registers
  | emitIfGreater left right => left < registers && right < registers

end Instruction

end TradingRobots
