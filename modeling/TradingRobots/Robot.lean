/-
Robots: a program and the record of its predictions.

For every dataset a robot keeps the signal it said last (pending) and the one it said before that (current). The current
signal is scored against the change of the next row, once; saying a new signal moves the pending one to current. The
counters keep correct ≤ predictions ≤ outcomes.
-/
import TradingRobots.NameTable
import TradingRobots.Program
import TradingRobots.Weight

namespace TradingRobots

/-- a robot's name: a number handed out by its population's counter -/
structure RobotName where
  number : Nat
deriving DecidableEq, Repr

namespace RobotName

def text (n : RobotName) : String :=
  toString n.number

end RobotName

structure Robot where
  name : RobotName
  program : Program
  /-- the latest signal per dataset -/
  pending : NameTable Signal
  /-- the signal per dataset that the next change scores -/
  current : NameTable Signal
  outcomes : Nat
  predictions : Nat
  correct : Nat
  bias : Int
  /-- has ever said a direction -/
  isPredicting : Bool
  calls : Nat
  children : Nat
  outcomesAtLastChild : Nat
  inheritedWeight : Float
deriving DecidableEq

namespace Robot

/-- a newborn; an inherited weight that is negative or NaN counts as none -/
def new (name : RobotName) (program : Program) (inheritedWeight : Float) : Robot where
  name := name
  program := program
  pending := .empty
  current := .empty
  outcomes := 0
  predictions := 0
  correct := 0
  bias := 0
  isPredicting := false
  calls := 0
  children := 0
  outcomesAtLastChild := 0
  inheritedWeight := Binary64.nonNegative inheritedWeight

def wrong (r : Robot) : Nat :=
  r.predictions - r.correct

def outcomesSinceLastChild (r : Robot) : Nat :=
  r.outcomes - r.outcomesAtLastChild

/-- records a new signal for a dataset: the pending one becomes current -/
def predict (r : Robot) (dataset : String) (signal : Signal) : Robot :=
  { r with
    pending := r.pending.insert dataset signal
    current :=
      match r.pending.find? dataset with
      | some previous => r.current.insert dataset previous
      | none => r.current.erase dataset
    calls := r.calls + 1
    bias := r.bias + signal.polarity
    isPredicting := r.isPredicting || signal.isDirectional }

/-- scores the current signal of a dataset, if there is one, against the realized change -/
def resolve (r : Robot) (dataset : String) (change threshold : Float) : Option Outcome × Robot :=
  match r.current.find? dataset with
  | none => (none, r)
  | some signal =>
    let outcome := Outcome.resolve signal change threshold
    (some outcome,
      { r with
        current := r.current.erase dataset
        outcomes := r.outcomes + 1
        predictions := if outcome = .out then r.predictions else r.predictions + 1
        correct := if outcome = .correct then r.correct + 1 else r.correct })

/-- records the birth of a child -/
def bear (r : Robot) : Robot :=
  { r with children := r.children + 1, outcomesAtLastChild := r.outcomes }

def earned (r : Robot) (rule : WeightRule) : Float :=
  rule.earned r.correct r.predictions

/-- inherited plus earned weight; a sum that is not finite counts as none -/
def weight (r : Robot) (rule : WeightRule) : Float :=
  finiteOrZero (r.inheritedWeight + r.earned rule)

/-- was asked to predict, and only ever said no direction -/
def neverPredicted (r : Robot) : Bool :=
  0 < r.calls && !r.isPredicting

def boolText (b : Bool) : String :=
  if b then "true" else "false"

/-- the figures of a robot's report, in order -/
def figures (r : Robot) (rule : WeightRule) : List (String × String) :=
  [("name", r.name.text), ("length", toString r.program.length), ("total_outcomes", toString r.outcomes),
    ("total_predictions", toString r.predictions), ("correct_predictions", toString r.correct),
    ("bias", toString r.bias), ("is_predicting", boolText r.isPredicting), ("total_children", toString r.children),
    ("outcomes_at_last_child", toString r.outcomesAtLastChild),
    ("inherited_weight", Number.fixed 4 r.inheritedWeight), ("earned_weight", Number.fixed 4 (r.earned rule)),
    ("weight", Number.fixed 4 (r.weight rule))]

/-- the report of a robot: its figures, one to a line, then its program -/
def report (r : Robot) (rule : WeightRule) : String :=
  String.join ((r.figures rule).map fun f => f.1 ++ " " ++ f.2 ++ "\n") ++ r.program.listingText

/-- one line about a robot -/
def text (r : Robot) : String :=
  "Robot " ++ r.name.text ++ " outcomes=" ++ toString r.outcomes ++ " predictions=" ++ toString r.correct ++ "/" ++
    toString r.predictions ++ " length=" ++ toString r.program.length ++ " children=" ++ toString r.children

end Robot

namespace InheritanceRule

/-- what a child of this parent inherits -/
def inherit (rule : InheritanceRule) (weights : WeightRule) (parent : Robot) : Float :=
  rule.fromParent (parent.earned weights) (parent.weight weights)

/-- what both children of a pair inherit: the mean of the two -/
def inheritFromPair (rule : InheritanceRule) (weights : WeightRule) (first second : Robot) : Float :=
  (rule.inherit weights first + rule.inherit weights second) / 2.0

end InheritanceRule

end TradingRobots
