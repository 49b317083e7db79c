/-
The whole part of a square root, by Newton's steps from above: each step takes the mean of x and n / x, and the first
step that does not go down has reached the root.
-/
import TradingRobots.Number.Rounding

namespace TradingRobots.Root

/-- Newton's steps while they go down -/
def descend (n : Nat) : Nat → Nat → Nat
  | 0, x => x
  | fuel + 1, x =>
    let y := (x + n / x) / 2
    if y < x then descend n fuel y else x

/-- the largest number whose square is at most n -/
def floor (n : Nat) : Nat :=
  descend n (n.log2 + 2) (2 ^ (n.log2 / 2 + 1))

example : [0, 1, 2, 3, 4, 8, 9, 99, 100, 10 ^ 20 - 1, 10 ^ 20].map floor =
    [0, 1, 1, 1, 2, 2, 3, 9, 10, 10 ^ 10 - 1, 10 ^ 10] := by decide

end TradingRobots.Root
