/-
Population files: a population as JSON, and back.

Writing lists every field of the population, its robots and their programs. Reading takes the same fields by name, in any
order and each once, and passes over fields it does not know; it refuses a value of another kind, a count that is no
machine word, a number that is not finite, and a name of a signal or instruction that does not exist.
-/
import TradingRobots.Instruction.Form
import TradingRobots.Json.Reading
import TradingRobots.Population

namespace TradingRobots

open Json

/-! ## Writing -/

namespace Instruction

def cellJson (ref : DataRef) : Json :=
  .object [("column", .count ref.column), ("offset", .count ref.offset)]

def operandJson : Operand → Json
  | .index n => .count n
  | .amount x => .real x
  | .cell ref => cellJson ref

/-- the name alone, or the name with the operands under it -/
def toJson (i : Instruction) : Json :=
  match i.operands with
  | [] => .string i.name
  | operands => .object [(i.name, .object (operands.map fun o => (o.1, operandJson o.2)))]

end Instruction

def Program.toJson (p : Program) : Json :=
  .object [("instructions", .array (p.instructions.map Instruction.toJson)), ("register_count", .count p.registers)]

def signalsJson (t : NameTable Signal) : Json :=
  .object (t.entries.map fun e => (e.1, .string e.2.name))

/-- the names of a robot's fields, in the order they are written -/
def Robot.fieldNames : List String :=
  ["name", "program", "pending", "current", "total_outcomes", "total_predictions", "correct_predictions", "bias",
    "is_predicting", "prediction_calls", "total_children", "outcomes_at_last_child", "inherited_weight"]

def Robot.toJson (r : Robot) : Json :=
  .object (Robot.fieldNames.zip
    [.count r.name.number, r.program.toJson, signalsJson r.pending, signalsJson r.current, .count r.outcomes,
      .count r.predictions, .count r.correct, .whole r.bias, .bool r.isPredicting, .count r.calls, .count r.children,
      .count r.outcomesAtLastChild, .real r.inheritedWeight])

def Population.fieldNames : List String :=
  ["desired_size", "next_name", "robots"]

def Population.toJson (p : Population) : Json :=
  .object (Population.fieldNames.zip
    [.count p.desiredSize, .count p.nextName, .array (p.robots.map Robot.toJson)])

/-- the text of a population file -/
def Population.fileText (p : Population) : String :=
  p.toJson.pretty

/-! ## Reading -/

/-- a name alone, or a name over a value -/
def tagged? : Json → Option (String × Option Json)
  | .string name => some (name, none)
  | .object [(name, v)] => some (name, some v)
  | _ => none

/-- what a bare name may stand over: nothing, or null -/
def isBare : Option Json → Bool
  | none => true
  | some .null => true
  | some _ => false

def Signal.ofJson? (v : Json) : Option Signal := do
  let (name, content) ← tagged? v
  if isBare content then Signal.ofName? name else none

namespace Instruction

def cellOfJson? (v : Json) : Option DataRef := do
  match ← v.record? ["column", "offset"] with
  | [column, offset] => some ⟨← column.toCount?, ← offset.toCount?⟩
  | _ => none

def operandOfJson? (kind : OperandKind) (v : Json) : Option Operand :=
  match kind with
  | .index => v.toCount?.map .index
  | .amount => v.toReal?.map .amount
  | .cell => (cellOfJson? v).map .cell

/-- operands of the kinds listed, one for one -/
def operandsOfJson? : List OperandKind → List Json → Option (List Operand)
  | [], [] => some []
  | kind :: kinds, v :: values => do
    let operand ← operandOfJson? kind v
    let rest ← operandsOfJson? kinds values
    some (operand :: rest)
  | _, _ => none

def ofJson? (v : Json) : Option Instruction := do
  let (name, content) ← tagged? v
  let form ← InstructionForm.ofName? name
  if form.operands.isEmpty then
    if isBare content then form.build? [] else none
  else do
    let values ← (← content).record? (form.operands.map Prod.fst)
    form.build? (← operandsOfJson? (form.operands.map Prod.snd) values)

end Instruction

def Program.ofJson? (v : Json) : Option Program := do
  match ← v.record? ["instructions", "register_count"] with
  | [instructions, registers] =>
    some ⟨← (← instructions.toArray?).mapM Instruction.ofJson?, ← registers.toCount?⟩
  | _ => none

/-- signals under names of datasets; of a name that repeats the last one counts -/
def signalsOfJson? (v : Json) : Option (NameTable Signal) := do
  let entries ← (← v.toObject?).mapM fun f => do
    some (f.1, ← Signal.ofJson? f.2)
  some (.ofList entries)

def Robot.ofJson? (v : Json) : Option Robot := do
  match ← v.record? Robot.fieldNames with
  | [name, program, pending, current, outcomes, predictions, correct, bias, isPredicting, calls, children,
      outcomesAtLastChild, inheritedWeight] =>
    some {
      name := ⟨← name.toCount?⟩
      program := ← Program.ofJson? program
      pending := ← signalsOfJson? pending
      current := ← signalsOfJson? current
      outcomes := ← outcomes.toCount?
      predictions := ← predictions.toCount?
      correct := ← correct.toCount?
      bias := ← bias.toWhole?
      isPredicting := ← isPredicting.toBool?
      calls := ← calls.toCount?
      children := ← children.toCount?
      outcomesAtLastChild := ← outcomesAtLastChild.toCount?
      inheritedWeight := ← inheritedWeight.toReal? }
  | _ => none

def Population.ofJson? (v : Json) : Option Population := do
  match ← v.record? Population.fieldNames with
  | [desiredSize, nextName, robots] =>
    some ⟨← desiredSize.toCount?, ← nextName.toCount?, ← (← robots.toArray?).mapM Robot.ofJson?⟩
  | _ => none

/-- why a population file is not taken -/
inductive FileDefect where
  /-- there is no such file -/
  | missing (path : String)
  | unwritable (path : String)
  | malformed
  | population (defect : PopulationDefect)
deriving DecidableEq, Repr

def FileDefect.message : FileDefect → String
  | missing path => "Failed to read " ++ path
  | unwritable path => "Failed to write " ++ path
  | malformed => "Not a population"
  | population defect => defect.message

/-- the population of a file's text, if it is one and passes the check -/
def Population.ofFileText (bounds : ProgramBounds) (text : String) : Except FileDefect Population :=
  match (Json.parse? text).bind Population.ofJson? with
  | none => .error .malformed
  | some p =>
    match p.check bounds with
    | .error defect => .error (.population defect)
    | .ok () => .ok p

end TradingRobots
