/-
Decimal numbers digits · 10^exponent, the decimal that a text shows for a double, and the double that a decimal means.

`Decimal.shortest` is the number with the fewest digits that reads back to the same double, and of those the nearest
one. A double stands for the reals that round to it: from half a place below to half a place above, the ends included
when its mantissa is even, with half that gap below a power of two. For one digit, two digits and so on the two grid
points around the double are tried; the first grid with a point in the interval wins. Seventeen digits always suffice.
-/
import TradingRobots.Number.Binary64

namespace TradingRobots

/-- digits · 10^exponent -/
structure Decimal where
  digits : Nat
  exponent : Int
deriving DecidableEq, Repr

namespace Decimal

/-- 10^k as a quotient of natural numbers -/
def powerOfTen (k : Int) : Nat × Nat :=
  if 0 ≤ k then (10 ^ k.toNat, 1) else (1, 10 ^ (-k).toNat)

/-- 10^k ≤ n / d -/
def reaches (n d : Nat) (k : Int) : Bool :=
  let (a, b) := powerOfTen k
  a * d ≤ n * b

/-- the exponent k with 10^k ≤ n / d < 10^(k+1), for n and d above 0 -/
def leadingExponent (n d : Nat) : Int :=
  let guess := ((n.log2 : Int) - (d.log2 : Int)) * 30103 / 100000
  let tries := [guess + 2, guess + 1, guess, guess - 1]
  (tries.find? (reaches n d)).getD (guess - 2)

/-- n / d in units of 10^k -/
def inUnits (n d : Nat) (k : Int) : Nat × Nat :=
  let (a, b) := powerOfTen k
  (n * b, d * a)

/-- drops trailing zero digits, at most as many as the fuel says -/
def trim : Nat → Decimal → Decimal
  | 0, v => v
  | fuel + 1, v =>
    if v.digits % 10 = 0 ∧ v.digits ≠ 0 then trim fuel ⟨v.digits / 10, v.exponent + 1⟩ else v

/-- the reals that round to a double, in quarters of its last place: m ± 2, less below a power of two -/
structure Interval where
  low : Nat
  high : Nat
  closed : Bool

def Interval.around (v : Dyadic) : Interval :=
  let gap := if v.mantissa = 2 ^ 52 ∧ -1074 < v.exponent then 1 else 2
  ⟨4 * v.mantissa - gap, 4 * v.mantissa + 2, v.mantissa % 2 = 0⟩

/-- the point g / t lies in the interval, whose quarters are worth s -/
def Interval.holds (i : Interval) (g t s : Nat) : Bool :=
  if i.closed then i.low * s ≤ g * t ∧ g * t ≤ i.high * s else i.low * s < g * t ∧ g * t < i.high * s

/-- the point of the grid of 10^k that stands for the double: the nearer of its two neighbours in the interval -/
def onGrid? (tie : Rounding.Tie) (v : Dyadic) (k : Int) : Option Decimal :=
  let (n, d) := Dyadic.ratio ⟨false, 1, v.exponent - 2⟩
  let (s, t) := inUnits n d k
  let size := 4 * v.mantissa * s
  let i := Interval.around v
  let below := size / t
  let nearest := Rounding.nearest tie size t
  if i.holds nearest t s then some ⟨nearest, k⟩
  else if i.holds below t s then some ⟨below, k⟩
  else if i.holds (below + 1) t s then some ⟨below + 1, k⟩
  else none

/-- the fewest digits that read back to the magnitude of a finite double other than zero, nearest first -/
def shortest (tie : Rounding.Tie) (v : Dyadic) : Decimal :=
  let (n, d) := v.ratio
  let top := leadingExponent n d
  let found := (List.range 17).findSome? fun figures => onGrid? tie v (top - (figures : Nat))
  trim 17 (found.getD ⟨0, 0⟩)

/-- the magnitude with a fixed number of figures, the exact value rounded half to even -/
def withFigures (figures : Nat) (v : Dyadic) : Decimal :=
  let (n, d) := v.ratio
  let unit := leadingExponent n d - figures + 1
  let (a, b) := inUnits n d unit
  let digits := Rounding.nearest .toEven a b
  if digits < 10 ^ figures then ⟨digits, unit⟩ else ⟨digits / 10, unit + 1⟩

/-- the magnitude in units of the last of a fixed number of places, the exact value rounded half to even -/
def withPlaces (places : Nat) (v : Dyadic) : Nat :=
  let (n, d) := v.ratio
  Rounding.nearest .toEven (n * 10 ^ places) d

/-- the double nearest to a decimal; exponents far outside the range of doubles are decided without powers -/
def toFloat (v : Decimal) : Float :=
  if v.digits = 0 then 0.0
  else if 400 < v.exponent then Binary64.infinity
  else if v.exponent < -(400 + (v.digits.log2 : Int)) then 0.0
  else
    let (a, b) := powerOfTen v.exponent
    Binary64.ofRatio (v.digits * a) b

end Decimal

end TradingRobots
