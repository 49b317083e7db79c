/-
The ledger of a dataset's votes: the vote held at a row is scored against the change of the next row that has one, and
written down with its profit. `Profit.figures` sums up the directional votes of a list of records.

Sums run from left to right and start from the negative zero, which leaves every number it is added to as it is.
-/
import TradingRobots.Number.Binary64
import TradingRobots.Signal

namespace TradingRobots

/-- a vote and the change it was held through -/
structure VoteRecord where
  bar : Nat
  signal : Signal
  change : Float
  outcome : Outcome
deriving DecidableEq, Repr

/-- percent gained by holding the signal through the change -/
def VoteRecord.profit (r : VoteRecord) : Float :=
  r.signal.factor * r.change

/-- the sum of a list, from the left -/
def sumOf (xs : List Float) : Float :=
  xs.foldl (· + ·) (-0.0)

/-- the votes of one dataset: the one held, and those scored -/
structure Ledger where
  held : Option Signal
  records : List VoteRecord
  correct : Nat
  wrong : Nat
  out : Nat
deriving DecidableEq, Repr

namespace Profit

/-- figures with a value for the votes at hand, in the order of their names -/
def figures (records : List VoteRecord) : List (String × Float) :=
  let trades := records.filter fun r => r.signal.isDirectional
  if trades.isEmpty then []
  else
    let profits := trades.map VoteRecord.profit
    let gains := profits.filter fun p => p > 0.0
    let losses := (profits.filter fun p => p ≤ 0.0).map Float.abs
    let gained := sumOf gains
    let lost := sumOf losses
    let count (xs : List Float) : Float := Binary64.ofCount xs.length
    (if losses.isEmpty then [] else [("avg_loss", lost / count losses)]) ++
    (if gains.isEmpty then [] else [("avg_win", gained / count gains)]) ++
    (if lost > 0.0 then [("profit_factor", gained / lost)] else []) ++
    [("total_profit_pct", sumOf profits), ("trades", count profits),
      ("win_rate", count gains / count profits * 100.0)]

end Profit

namespace Ledger

def empty : Ledger := ⟨none, [], 0, 0, 0⟩

instance : Inhabited Ledger := ⟨empty⟩

/-- percent gained by all scored votes -/
def totalProfit (l : Ledger) : Float :=
  sumOf (l.records.map VoteRecord.profit)

/-- scores the held vote, if there is one, against the change realized at a bar -/
def resolve (l : Ledger) (bar : Nat) (change threshold : Float) : Option Outcome × Ledger :=
  match l.held with
  | none => (none, l)
  | some signal =>
    let outcome := Outcome.resolve signal change threshold
    (some outcome,
      { held := none
        records := l.records ++ [⟨bar, signal, change, outcome⟩]
        correct := if outcome = .correct then l.correct + 1 else l.correct
        wrong := if outcome = .wrong then l.wrong + 1 else l.wrong
        out := if outcome = .out then l.out + 1 else l.out })

/-- holds a vote until the next change, in place of the one held before -/
def hold (l : Ledger) (signal : Signal) : Ledger :=
  { l with held := some signal }

def figures (l : Ledger) : List (String × Float) :=
  Profit.figures l.records

end Ledger

end TradingRobots
