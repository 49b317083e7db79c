/-
Natural logarithms of positive doubles, rounded to a double.

A positive quotient is a power of two times a quotient between one half and two, and ln z = 2 artanh ((z - 1) / (z + 1)).
The series is summed in whole numbers of a fine unit, so the error stays far below half a place of a double.
-/
import TradingRobots.Number.Binary64

namespace TradingRobots.Logarithm

/-- bits of the unit that the series is summed in -/
def unitBits : Nat := 256

/-- the terms t^(2i+1) / (2i+1) for a number of i, the running power given in units -/
def artanhTerms (square : Int) : Nat → Nat → Int → Int
  | 0, _, _ => 0
  | fuel + 1, i, power =>
    power / (2 * i + 1 : Nat) + artanhTerms square fuel (i + 1) (power * square / (2 ^ unitBits : Nat))

/-- artanh (p / q) in units, for a quotient of at most one third -/
def artanh (p : Int) (q : Nat) : Int :=
  let t := p * (2 ^ unitBits : Nat) / q
  artanhTerms (t * t / (2 ^ unitBits : Nat)) (unitBits / 3 + 2) 0 t

/-- ln 2 in units -/
def two : Int :=
  2 * artanh 1 3

/-- ln (n / d) in units, for n and d above 0 -/
def quotient (n d : Nat) : Int :=
  let e : Int := (n.log2 : Int) - (d.log2 : Int)
  let (a, b) := Binary64.inUnits e n d
  e * two + 2 * artanh ((a : Int) - b) (a + b)

def toFloat (units : Int) : Float :=
  Binary64.withSign (decide (units < 0)) (Binary64.ofRatio units.natAbs (2 ^ unitBits))

/-- ln x for x not negative -/
def natural (x : Float) : Float :=
  if x.isNaN then x
  else if x == 0.0 then -Binary64.infinity
  else if x.isInf then x
  else
    let (n, d) := (Binary64.decode x).ratio
    toFloat (quotient n d)

/-- below this the logarithm of one more than a number rounds to the number itself -/
def tiny : Float := Binary64.ofRatio 1 (2 ^ 54)

/-- ln (1 + x) for x not negative, precise also where 1 + x would round -/
def ofOneMore (x : Float) : Float :=
  if x.isNaN || x.isInf then x
  else if x < tiny then x
  else
    let (n, d) := (Binary64.decode x).ratio
    toFloat (quotient (d + n) d)

end TradingRobots.Logarithm
