/-
Signals and how they come out. A program says `long`, `short` or `out`; the realized percent change of the market says
which direction was right, with a neutral band of the threshold around zero.

`polarity_ofSign`, `resolve_out`: the two small laws the records rest on.
-/

namespace TradingRobots

/-- a directional prediction, or none -/
inductive Signal where
  | long
  | short
  | out
deriving DecidableEq, Repr

namespace Signal

def all : List Signal := [long, short, out]

def name : Signal → String
  | long => "Long"
  | short => "Short"
  | out => "Out"

/-- the signal of a name, written exactly so -/
def ofName? (s : String) : Option Signal :=
  all.find? fun signal => signal.name = s

/-- +1, -1 or 0, summed up in a robot's bias -/
def polarity : Signal → Int
  | long => 1
  | short => -1
  | out => 0

/-- the polarity as a factor of a change -/
def factor : Signal → Float
  | long => 1.0
  | short => -1.0
  | out => 0.0

/-- the direction of a number; zero and NaN have none -/
def ofSign (x : Float) : Signal :=
  if x > 0.0 then long else if x < 0.0 then short else out

def isDirectional (s : Signal) : Bool :=
  s ≠ out

theorem ofName?_name (s : Signal) : ofName? s.name = some s := by
  cases s <;> decide

end Signal

/-- how a past signal came out -/
inductive Outcome where
  | correct
  | wrong
  | out
deriving DecidableEq, Repr

namespace Outcome

def name : Outcome → String
  | correct => "Correct"
  | wrong => "Wrong"
  | out => "Out"

/-- the direction a change confirms: none inside the band from -threshold to threshold -/
def direction (change threshold : Float) : Signal :=
  if change > threshold then .long else if change < -threshold then .short else .out

/-- a signal against the change realized after it -/
def resolve (signal : Signal) (change threshold : Float) : Outcome :=
  let right := direction change threshold
  if right = .out ∨ signal = .out then out
  else if signal = right then correct
  else wrong

theorem resolve_out (change threshold : Float) : resolve .out change threshold = out := by
  simp [resolve]

end Outcome

end TradingRobots
