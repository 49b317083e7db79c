/-
Rounding a quotient of natural numbers to a whole number: to the nearest one, with the caller's rule for a quotient
that lies exactly half way.

`nearest_mul`: a whole quotient is left alone, under either rule.
-/

-- what runs and what is proved about it spell powers alike, with the core library's instance
attribute [instance (20000)] instPowNat
attribute [default_instance 20000] instPowNat

namespace TradingRobots.Rounding

/-- where a value exactly half way between two whole numbers goes -/
inductive Tie where
  | toEven
  | up
deriving DecidableEq, Repr

/-- n / d rounded to the nearest whole number -/
def nearest (tie : Tie) (n d : Nat) : Nat :=
  let q := n / d
  let twice := 2 * (n % d)
  if twice < d then q
  else if d < twice then q + 1
  else
    match tie with
    | .toEven => q + q % 2
    | .up => q + 1

theorem nearest_mul (tie : Tie) (q d : Nat) (h : 0 < d) : nearest tie (q * d) d = q := by
  simp [nearest, h]

end TradingRobots.Rounding
