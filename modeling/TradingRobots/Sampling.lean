/-
Random instructions. The kind is drawn first, one of thirty with equal chance, then the operands in the order they are
written; a bound of zero counts as one, so an operand can always be drawn.
-/
import TradingRobots.Instruction
import TradingRobots.Random.Draw

namespace TradingRobots

/-- the bounds that the operands of a random instruction keep -/
structure Sampling where
  registers : Nat
  columns : Nat
  maximumOffset : Nat
  maximumJump : Nat
deriving DecidableEq, Repr

namespace Sampling

open TradingRobots.Random

/-- a register -/
def register (b : Sampling) (s : Stream) : Nat × Stream :=
  s.below (max b.registers 1)

def column (b : Sampling) (s : Stream) : Nat × Stream :=
  s.below (max b.columns 1)

def offset (b : Sampling) (s : Stream) : Nat × Stream :=
  s.below (max b.maximumOffset 1)

/-- a number of rows to scan, at least one -/
def length (b : Sampling) (s : Stream) : Nat × Stream :=
  let (k, s) := s.below (max b.maximumOffset 1)
  (k + 1, s)

def target (b : Sampling) (s : Stream) : Nat × Stream :=
  s.below (max b.maximumJump 1)

def drawData (b : Sampling) (use : DataUse) (s : Stream) : Instruction × Stream :=
  let (column, s) := b.column s
  let (offset, s) := b.offset s
  let (register, s) := b.register s
  (.data use ⟨column, offset⟩ register, s)

def drawScan (b : Sampling) (use : ColumnScan) (s : Stream) : Instruction × Stream :=
  let (column, s) := b.column s
  let (length, s) := b.length s
  let (register, s) := b.register s
  (.scan use column length register, s)

def drawConstant (b : Sampling) (use : ConstantUse) (s : Stream) : Instruction × Stream :=
  let (value, s) := s.constant
  let (register, s) := b.register s
  (.constant use value register, s)

def drawPair (b : Sampling) (use : PairUse) (s : Stream) : Instruction × Stream :=
  let (source, s) := b.register s
  let (target, s) := b.register s
  (.pair use source target, s)

def drawAlter (b : Sampling) (use : Alteration) (s : Stream) : Instruction × Stream :=
  let (register, s) := b.register s
  (.alter use register, s)

def drawJump (b : Sampling) (s : Stream) : Instruction × Stream :=
  let (target, s) := b.target s
  (.jump target, s)

def drawJumpIf (b : Sampling) (test : JumpTest) (s : Stream) : Instruction × Stream :=
  let (register, s) := b.register s
  let (target, s) := b.target s
  (.jumpIf test register target, s)

def drawJumpIfGreater (b : Sampling) (s : Stream) : Instruction × Stream :=
  let (left, s) := b.register s
  let (right, s) := b.register s
  let (target, s) := b.target s
  (.jumpIfGreater left right target, s)

def drawEmitSignOf (b : Sampling) (s : Stream) : Instruction × Stream :=
  let (register, s) := b.register s
  (.emitSignOf register, s)

def drawEmitIfGreater (b : Sampling) (s : Stream) : Instruction × Stream :=
  let (left, s) := b.register s
  let (right, s) := b.register s
  (.emitIfGreater left right, s)

/-- the thirty kinds, in the order of the number drawn for them -/
def kinds (b : Sampling) : List (Stream → Instruction × Stream) :=
  DataUse.all.map b.drawData ++ ColumnScan.all.map b.drawScan ++
  [b.drawConstant .move] ++
  [.move, .add, .subtract, .multiply, .divide].map b.drawPair ++
  [.add, .multiply].map b.drawConstant ++
  [.negate, .absolute, .squareRoot, .logarithm].map b.drawAlter ++
  [.minimum, .maximum].map b.drawPair ++
  [b.drawAlter .clear, b.drawJump, b.drawJumpIf .zero, b.drawJumpIf .positive, b.drawJumpIfGreater] ++
  [.long, .short, .out].map (fun signal s => (.emit signal, s)) ++
  [b.drawEmitSignOf, b.drawEmitIfGreater]

/-- how many kinds there are -/
def kindCount : Nat := 30

theorem length_kinds (b : Sampling) : b.kinds.length = kindCount := rfl

/-- a random instruction -/
def draw (b : Sampling) (s : Stream) : Instruction × Stream :=
  let (kind, s) := s.below kindCount
  match b.kinds[kind]? with
  | some operands => operands s
  | none => b.drawEmitIfGreater s

end Sampling

end TradingRobots
