/-
The selection wheel: an entry is picked with a chance proportional to its weight. Entries that are negative, zero or NaN
own no part of the wheel. A wheel without any weight, or with too much to sum, picks evenly.
-/
import TradingRobots.Ledger
import TradingRobots.Random.Draw

namespace TradingRobots.Wheel

open TradingRobots.Random

/-- walks around the wheel until the spin is used up; skips entries that own nothing -/
def stop? : Float → Nat → List Float → Option Nat
  | _, _, [] => none
  | spin, position, weight :: rest =>
    let share := Binary64.nonNegative weight
    if share == 0.0 then stop? spin (position + 1) rest
    else
      let left := spin - share
      if left ≤ 0.0 then some position else stop? left (position + 1) rest

/-- the last entry that owns a part of the wheel -/
def last? (weights : List Float) : Option Nat :=
  let positions := (List.range weights.length).zip weights
  ((positions.filter fun e => e.2 > 0.0).getLast?).map Prod.fst

/-- picks an entry; nothing from an empty wheel -/
def select (weights : List Float) (s : Stream) : Option Nat × Stream :=
  if weights.isEmpty then (none, s)
  else
    let total := sumOf (weights.map Binary64.nonNegative)
    if total ≤ 0.0 ∨ ¬total.isFinite then
      let (k, s) := s.below weights.length
      (some k, s)
    else
      let (u, s) := s.unit
      match stop? (u * total) 0 weights with
      | some k => (some k, s)
      | none => (last? weights, s)

end TradingRobots.Wheel
