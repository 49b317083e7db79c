/-
The forms of instructions: for every name the operands it takes and the instruction they make. A reader looks up the
form of a name, reads the operands it lists, and builds.

`build?_operands`: building from an instruction's own operands gives the instruction back.
-/
import TradingRobots.Instruction

namespace TradingRobots

/-- the kind of value that an operand has -/
inductive OperandKind where
  | index
  | amount
  | cell
deriving DecidableEq, Repr

/-- a name, the named operands it takes, and what they make -/
structure InstructionForm where
  name : String
  operands : List (String × OperandKind)
  build? : List Operand → Option Instruction

namespace InstructionForm

def data (use : DataUse) : InstructionForm where
  name := use.name
  operands := [("data", .cell), ("register", .index)]
  build?
    | [.cell source, .index register] => some (.data use source register)
    | _ => none

def scan (use : ColumnScan) : InstructionForm where
  name := use.name
  operands := [("column", .index), ("length", .index), ("register", .index)]
  build?
    | [.index column, .index length, .index register] => some (.scan use column length register)
    | _ => none

def constant (use : ConstantUse) : InstructionForm where
  name := use.name
  operands := [("value", .amount), ("register", .index)]
  build?
    | [.amount value, .index register] => some (.constant use value register)
    | _ => none

def pair (use : PairUse) : InstructionForm where
  name := use.name
  operands := [("from", .index), ("to", .index)]
  build?
    | [.index source, .index target] => some (.pair use source target)
    | _ => none

def alter (use : Alteration) : InstructionForm where
  name := use.name
  operands := [("register", .index)]
  build?
    | [.index register] => some (.alter use register)
    | _ => none

def jump : InstructionForm where
  name := "JumpTo"
  operands := [("target", .index)]
  build?
    | [.index target] => some (.jump target)
    | _ => none

def jumpIf (test : JumpTest) : InstructionForm where
  name := test.name
  operands := [("register", .index), ("target", .index)]
  build?
    | [.index register, .index target] => some (.jumpIf test register target)
    | _ => none

def jumpIfGreater : InstructionForm where
  name := "JumpIfGreater"
  operands := [("left", .index), ("right", .index), ("target", .index)]
  build?
    | [.index left, .index right, .index target] => some (.jumpIfGreater left right target)
    | _ => none

def emit (signal : Signal) : InstructionForm where
  name := "Emit" ++ signal.name
  operands := []
  build?
    | [] => some (.emit signal)
    | _ => none

def emitSignOf : InstructionForm where
  name := "EmitSignOf"
  operands := [("register", .index)]
  build?
    | [.index register] => some (.emitSignOf register)
    | _ => none

def emitIfGreater : InstructionForm where
  name := "EmitIfGreater"
  operands := [("left", .index), ("right", .index)]
  build?
    | [.index left, .index right] => some (.emitIfGreater left right)
    | _ => none

/-- every form -/
def all : List InstructionForm :=
  DataUse.all.map data ++ ColumnScan.all.map scan ++ ConstantUse.all.map constant ++ PairUse.all.map pair ++
    Alteration.all.map alter ++ JumpTest.all.map jumpIf ++ Signal.all.map emit ++
    [jump, jumpIfGreater, emitSignOf, emitIfGreater]

/-- the form of a name, written exactly so -/
def ofName? (name : String) : Option InstructionForm :=
  all.find? fun form => form.name = name

/-- the form of an instruction -/
def of : Instruction → InstructionForm
  | .data use .. => data use
  | .scan use .. => scan use
  | .constant use .. => constant use
  | .pair use .. => pair use
  | .alter use _ => alter use
  | .jump _ => jump
  | .jumpIf test .. => jumpIf test
  | .jumpIfGreater .. => jumpIfGreater
  | .emit signal => emit signal
  | .emitSignOf _ => emitSignOf
  | .emitIfGreater .. => emitIfGreater

theorem name_of (i : Instruction) : (of i).name = i.name := by
  cases i <;> rfl

theorem build?_operands (i : Instruction) : (of i).build? (i.operands.map Prod.snd) = some i := by
  cases i <;> rfl

end InstructionForm

end TradingRobots
