/-
Doubles read and written exactly. A finite double is a sign and a magnitude m · 2^q; `Binary64.decode` reads the two
numbers off its bits, and `Binary64.ofRatio` gives the double nearest to a quotient of natural numbers, half to even,
with infinity past the largest one.

The conversions to counts (`nearestCount`, `ceilingCount`) work on m and q, so they are exact; they clamp at both ends
of the 64-bit counts, and NaN counts as none.
-/
import TradingRobots.Number.Rounding

namespace TradingRobots

/-- a finite double, read exactly: ± mantissa · 2^exponent -/
structure Dyadic where
  negative : Bool
  mantissa : Nat
  exponent : Int
deriving DecidableEq, Repr

namespace Dyadic

/-- the magnitude as a quotient of natural numbers -/
def ratio (v : Dyadic) : Nat × Nat :=
  if 0 ≤ v.exponent then (v.mantissa * 2 ^ v.exponent.toNat, 1) else (v.mantissa, 2 ^ (-v.exponent).toNat)

end Dyadic

namespace Binary64

/-- one more than the largest count a machine word holds -/
def wordLimit : Nat := 2 ^ 64

/-- sign, mantissa and exponent of a double; the fields of NaN and the infinities are read as if they were finite -/
def decode (x : Float) : Dyadic :=
  let bits := x.toBits.toNat
  let fraction : Nat := bits % 2 ^ 52
  let biased : Nat := bits / 2 ^ 52 % 2 ^ 11
  { negative := bits / 2 ^ 63 = 1
    mantissa := if biased = 0 then fraction else fraction + 2 ^ 52
    exponent := if biased = 0 then -1074 else (biased : Int) - 1075 }

/-- the quotient n / d in units of 2^q -/
def inUnits (q : Int) (n d : Nat) : Nat × Nat :=
  if 0 ≤ q then (n, d * 2 ^ q.toNat) else (n * 2 ^ (-q).toNat, d)

/-- the bits of the infinity above all finite doubles -/
def infinityBits : Nat := 0x7FF0000000000000

/-- the exponent of the last place of a double of the size of n / d, never below that of the least double -/
def lastPlace (n d : Nat) : Int :=
  let guess : Int := (n.log2 : Int) - (d.log2 : Int) - 53
  let (a, b) := inUnits guess n d
  max (if a / b < 2 ^ 53 then guess else guess + 1) (-1074)

/-- the double nearest to n / d -/
def ofRatio (n d : Nat) : Float :=
  if n = 0 then 0.0
  else
    let q := lastPlace n d
    let (a, b) := inUnits q n d
    let bits := (q + 1074).toNat * 2 ^ 52 + Rounding.nearest .toEven a b
    Float.ofBits (UInt64.ofNat (min bits infinityBits))

def infinity : Float := Float.ofBits 0x7FF0000000000000

def notANumber : Float := Float.ofBits 0x7FF8000000000000

/-- the double with the magnitude of the other and the given sign -/
def withSign (negative : Bool) (x : Float) : Float :=
  if negative then -x else x

/-- the larger of a number and zero; NaN and both zeros give the positive zero -/
def nonNegative (x : Float) : Float :=
  if x > 0.0 then x else 0.0

/-- the larger of two numbers, where NaN loses to any number -/
def larger (x y : Float) : Float :=
  if x.isNaN then y else if y > x then y else x

/-- the smaller of two numbers, where NaN loses to any number -/
def smaller (x y : Float) : Float :=
  if x.isNaN then y else if y < x then y else x

/-- a number turned into a count by a rule for fractions: NaN and all below zero give 0, and the word size bounds it -/
def toCount (round : Nat → Nat → Nat) (x : Float) : Nat :=
  if x.isNaN then 0
  else if x < 0.0 then 0
  else if x.isInf then wordLimit - 1
  else
    let (n, d) := (decode x).ratio
    min (round n d) (wordLimit - 1)

/-- the nearest count, a half going up -/
def nearestCount (x : Float) : Nat :=
  toCount (Rounding.nearest .up) x

/-- the least count that is not below the number -/
def ceilingCount (x : Float) : Nat :=
  toCount (fun n d => (n + d - 1) / d) x

/-- the whole number left when the fraction is cut off, for a number that has one in the signed 64-bit range -/
def truncated? (x : Float) : Option Int :=
  if x.isNaN || x.isInf then none
  else
    let v := decode x
    let (n, d) := v.ratio
    let size : Int := (n / d : Nat)
    let whole := if v.negative then -size else size
    if -(2 ^ 63) ≤ whole ∧ whole < 2 ^ 63 then some whole else none

/-- the nearest whole number, a half going away from zero, clamped to the signed 64-bit range; NaN gives 0 -/
def nearestWhole (x : Float) : Int :=
  if x.isNaN then 0
  else if x.isInf then (if x < 0.0 then -(2 ^ 63) else 2 ^ 63 - 1)
  else
    let v := decode x
    let (n, d) := v.ratio
    let size : Int := (Rounding.nearest .up n d : Nat)
    max (-(2 ^ 63)) (min (if v.negative then -size else size) (2 ^ 63 - 1))

/-- a count as a double -/
def ofCount (n : Nat) : Float :=
  ofRatio n 1

/-- a whole number as a double -/
def ofWhole (i : Int) : Float :=
  withSign (decide (i < 0)) (ofRatio i.natAbs 1)

end Binary64

end TradingRobots
