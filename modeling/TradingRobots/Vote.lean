/-
A weighted vote on one dataset. A side wins when it weighs more than the other, and at least the threshold times as
much; with equal weights, or none, the vote is out. A weight that is negative or not finite counts as zero, but its vote
is counted.
-/
import TradingRobots.Number.Binary64
import TradingRobots.Signal

namespace TradingRobots

/-- weights and numbers of the votes -/
structure Tally where
  longWeight : Float
  shortWeight : Float
  longCount : Nat
  shortCount : Nat
  outCount : Nat
deriving DecidableEq, Repr

namespace Tally

def empty : Tally := ⟨0.0, 0.0, 0, 0, 0⟩

/-- what a weight counts for in a vote -/
def usable (weight : Float) : Float :=
  if weight.isFinite then Binary64.nonNegative weight else 0.0

def add (t : Tally) (signal : Signal) (weight : Float) : Tally :=
  match signal with
  | .long => { t with longWeight := t.longWeight + usable weight, longCount := t.longCount + 1 }
  | .short => { t with shortWeight := t.shortWeight + usable weight, shortCount := t.shortCount + 1 }
  | .out => { t with outCount := t.outCount + 1 }

def ofVotes (votes : List (Signal × Float)) : Tally :=
  votes.foldl (fun t v => t.add v.1 v.2) empty

/-- the winning side under a threshold -/
def decide (t : Tally) (threshold : Float) : Signal :=
  if t.longWeight > t.shortWeight ∧ t.longWeight ≥ t.shortWeight * threshold then .long
  else if t.shortWeight > t.longWeight ∧ t.shortWeight ≥ t.longWeight * threshold then .short
  else .out

end Tally

end TradingRobots
