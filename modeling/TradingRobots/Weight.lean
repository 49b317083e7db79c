/-
Weights. A robot earns weight by its record: how many of its predictions were right, under one of three rules, raised to
an exponent. A child inherits a fraction of its parents' weight, under one of three rules.

Earned and inherited weights are never NaN, infinite or negative by these clamps alone, whatever the exponent and the
fraction: a weight too large for a double counts as none.
-/
import TradingRobots.Number.Logarithm
import TradingRobots.Number.Power

namespace TradingRobots

/-- what of a record counts -/
inductive WeightMode where
  | winCount
  | winRate
  | proportional
deriving DecidableEq, Repr

namespace WeightMode

def all : List WeightMode := [winCount, winRate, proportional]

def name : WeightMode → String
  | winCount => "WinCount"
  | winRate => "WinRate"
  | proportional => "Proportional"

def ofName? (s : String) : Option WeightMode :=
  all.find? fun mode => mode.name = s

/-- the base of the weight: wins less losses, the edge over a coin flip, or the share of wins -/
def base (mode : WeightMode) (correct total : Float) : Float :=
  match mode with
  | winCount => Binary64.nonNegative (correct - (total - correct))
  | winRate => Binary64.nonNegative (2.0 * correct / total - 1.0)
  | proportional => correct / total

end WeightMode

/-- a number that is finite, or nothing -/
def finiteOrZero (x : Float) : Float :=
  if x.isFinite then x else 0.0

/-- how a record earns weight -/
structure WeightRule where
  mode : WeightMode
  exponent : Float
deriving DecidableEq, Repr

namespace WeightRule

/-- the weight earned by so many right predictions of a total; none without predictions -/
def earned (rule : WeightRule) (correct total : Nat) : Float :=
  if total = 0 then 0.0
  else
    let base := rule.mode.base (Binary64.ofCount (min correct total)) (Binary64.ofCount total)
    finiteOrZero (Power.real base rule.exponent)

end WeightRule

/-- which weight of a parent a child inherits from -/
inductive InheritedWeightMode where
  | parents
  | ancestors
  | ancestorsLog
deriving DecidableEq, Repr

namespace InheritedWeightMode

def all : List InheritedWeightMode := [parents, ancestors, ancestorsLog]

def name : InheritedWeightMode → String
  | parents => "Parents"
  | ancestors => "Ancestors"
  | ancestorsLog => "AncestorsLog"

def ofName? (s : String) : Option InheritedWeightMode :=
  all.find? fun mode => mode.name = s

/-- the weight inherited from, given what the parent earned and what it weighs -/
def source (mode : InheritedWeightMode) (earned weight : Float) : Float :=
  match mode with
  | parents => earned
  | ancestors => weight
  | ancestorsLog => Logarithm.ofOneMore weight

end InheritedWeightMode

/-- how a child inherits weight -/
structure InheritanceRule where
  mode : InheritedWeightMode
  fraction : Float
deriving DecidableEq, Repr

namespace InheritanceRule

/-- the weight inherited from one parent -/
def fromParent (rule : InheritanceRule) (earned weight : Float) : Float :=
  if rule.fraction == 0.0 then 0.0
  else
    let inherited := rule.fraction * rule.mode.source earned weight
    if inherited.isFinite then Binary64.nonNegative inherited else 0.0

end InheritanceRule

end TradingRobots
