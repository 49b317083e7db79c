/-
Programs, and the bounds that a population's programs keep: a length between two limits, a register count of at least
one and not too many, and operands in range.

`ProgramBounds.check` gives the first bound that a program breaks; `ProgramBounds.randomProgram?` draws a program of a
random length. It has nothing to draw from when the limits cross, and draws no program that memory could not hold.
-/
import TradingRobots.Sampling

namespace TradingRobots

/-- instructions and the number of registers they run on -/
structure Program where
  instructions : List Instruction
  registers : Nat
deriving DecidableEq, Repr

namespace Program

def length (p : Program) : Nat :=
  p.instructions.length

/-- the register count, then one line per instruction -/
def listing (p : Program) : List String :=
  ("registers " ++ toString p.registers) :: p.instructions.map Instruction.text

/-- the bytes that memory can give at once -/
def memory : Nat := 2 ^ 63 - 1

/-- the instructions of the longest program that memory can hold, at 32 bytes each -/
def longest : Nat := memory / 32

/-- the most registers that memory can hold, at eight bytes each -/
def mostRegisters : Nat := memory / 8

/-- memory can hold the registers -/
def isRunnable (p : Program) : Bool :=
  p.registers ≤ mostRegisters

/-- lines with their ends -/
def listingText (p : Program) : String :=
  String.join (p.listing.map (· ++ "\n"))

end Program

/-- a bound that a program breaks -/
inductive ProgramDefect where
  | length (found least most : Nat)
  | registers (found most : Nat)
  | operand (position : Nat) (instruction : Instruction)
deriving DecidableEq, Repr

def ProgramDefect.message : ProgramDefect → String
  | length found least most =>
    "Program length " ++ toString found ++ " outside [" ++ toString least ++ ", " ++ toString most ++ "]"
  | registers found most => "Program register count " ++ toString found ++ " outside [1, " ++ toString most ++ "]"
  | operand position instruction =>
    "Instruction " ++ toString position ++ " (" ++ instruction.text ++ ") references data or registers out of range"

/-- the bounds of the programs of a population on market data of so many columns -/
structure ProgramBounds where
  minimumLength : Nat
  maximumLength : Nat
  maximumRegisters : Nat
  maximumOffset : Nat
  columns : Nat
deriving DecidableEq, Repr

namespace ProgramBounds

/-- the operands of an instruction keep the bounds on so many registers -/
def allows (b : ProgramBounds) (registers : Nat) (i : Instruction) : Bool :=
  i.isWithin registers b.columns b.maximumOffset

/-- the first instruction out of range, with its position -/
def firstOutside (b : ProgramBounds) (registers : Nat) : Nat → List Instruction → Option (Nat × Instruction)
  | _, [] => none
  | position, i :: rest =>
    if b.allows registers i then b.firstOutside registers (position + 1) rest else some (position, i)

/-- the first bound that a program breaks -/
def check (b : ProgramBounds) (p : Program) : Except ProgramDefect Unit :=
  if p.length < b.minimumLength ∨ b.maximumLength < p.length then
    .error (.length p.length b.minimumLength b.maximumLength)
  else if p.registers = 0 ∨ b.maximumRegisters < p.registers then
    .error (.registers p.registers b.maximumRegisters)
  else
    match b.firstOutside p.registers 0 p.instructions with
    | some (position, i) => .error (.operand position i)
    | none => .ok ()

/-- what a random instruction for so many registers may hold -/
def sampling (b : ProgramBounds) (registers : Nat) : Sampling :=
  ⟨registers, b.columns, b.maximumOffset, b.maximumLength⟩

open TradingRobots.Random

def randomInstruction (b : ProgramBounds) (registers : Nat) (s : Stream) : Instruction × Stream :=
  (b.sampling registers).draw s

def randomInstructions (b : ProgramBounds) (registers : Nat) : Nat → Stream → List Instruction × Stream
  | 0, s => ([], s)
  | n + 1, s =>
    let (i, s) := b.randomInstruction registers s
    let (rest, s) := b.randomInstructions registers n s
    (i :: rest, s)

/-- a program of random length, register count and instructions -/
def randomProgram? (b : ProgramBounds) (s : Stream) : Option (Program × Stream) := do
  let (length, s) ← s.between? b.minimumLength b.maximumLength
  let (registers, s) ← s.between? 1 b.maximumRegisters
  if Program.longest < length then none
  else
    let (instructions, s) := b.randomInstructions registers length s
    some (⟨instructions, registers⟩, s)

end ProgramBounds

end TradingRobots
