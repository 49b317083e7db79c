/-
The real power x^y of a double that is not negative, rounded to a double.

The exponent is a dyadic number n / 2^k, so x^y is the n-th power of the k-fold square root of x. Both are computed on
magnitudes cut down to a fixed number of bits, chosen from y alone. Every step (root, product, cut) only loses and keeps
order, so the power is monotone in x, and a power that fits into the bits comes out exact; the bits are enough to leave
the error far below half a place of a double.
-/
import TradingRobots.Number.Binary64
import TradingRobots.Number.Root

namespace TradingRobots.Power

/-- a number that is not negative: mantissa · 2^exponent -/
structure Magnitude where
  mantissa : Nat
  exponent : Int
deriving DecidableEq, Repr

namespace Magnitude

def one : Magnitude := ⟨1, 0⟩

/-- keeps the leading bits -/
def cut (bits : Nat) (v : Magnitude) : Magnitude :=
  let extra := v.mantissa.log2 + 1 - bits
  ⟨v.mantissa >>> extra, v.exponent + extra⟩

def times (bits : Nat) (v w : Magnitude) : Magnitude :=
  cut bits ⟨v.mantissa * w.mantissa, v.exponent + w.exponent⟩

/-- the square root, from a mantissa widened to twice the bits and an even exponent -/
def root (bits : Nat) (v : Magnitude) : Magnitude :=
  let wide := 2 * bits - v.mantissa.log2
  let shift := if (v.exponent - wide) % 2 = 0 then wide else wide + 1
  cut bits ⟨Root.floor (v.mantissa <<< shift), (v.exponent - shift) / 2⟩

/-- the n-th power by repeated squaring, over the binary digits of n -/
def power (bits : Nat) (v : Magnitude) : Nat → Nat → Magnitude
  | 0, _ => one
  | fuel + 1, n =>
    if n = 0 then one
    else
      let half := power bits v fuel (n / 2)
      let square := times bits half half
      if n % 2 = 0 then square else times bits square v

/-- the nearest double; sizes far outside the range of doubles are decided without powers -/
def toFloat (v : Magnitude) : Float :=
  if v.mantissa = 0 then 0.0
  else if 1100 < v.exponent then Binary64.infinity
  else if v.exponent < -(1100 + (v.mantissa.log2 : Int)) then 0.0
  else
    let (n, d) := Dyadic.ratio ⟨false, v.mantissa, v.exponent⟩
    Binary64.ofRatio n d

/-- the double nearest to one over the number -/
def inverse (v : Magnitude) : Float :=
  if v.mantissa = 0 then Binary64.infinity
  else if 1100 < v.exponent then 0.0
  else if v.exponent < -(1100 + (v.mantissa.log2 : Int)) then Binary64.infinity
  else
    let (n, d) := Dyadic.ratio ⟨false, v.mantissa, v.exponent⟩
    Binary64.ofRatio d n

end Magnitude

/-- n / 2^k in lowest terms -/
def lowest : Nat → Nat → Nat × Nat
  | n, 0 => (n, 0)
  | n, k + 1 => if n % 2 = 0 then lowest (n / 2) k else (n, k + 1)

/-- the magnitude of an exponent as n / 2^k in lowest terms -/
def dyadicExponent (y : Float) : Nat × Nat :=
  let v := Binary64.decode y
  if 0 ≤ v.exponent then (v.mantissa * 2 ^ v.exponent.toNat, 0) else lowest v.mantissa (-v.exponent).toNat

/-- the bits kept for an n-th power -/
def workingBits (n : Nat) : Nat :=
  n.log2 + 128

/-- x^(n / 2^k), cut down -/
def ofDyadic (x : Magnitude) (n k : Nat) : Magnitude :=
  let bits := workingBits n
  let base := k.repeat (Magnitude.root bits) x
  Magnitude.power bits base (n.log2 + 1) n

/-- x^y for x not negative: 1 for an exponent of zero or a base of one, and the limits at zero and the infinities -/
def real (x y : Float) : Float :=
  if y == 0.0 then 1.0
  else if x == 1.0 then 1.0
  else if x.isNaN || y.isNaN then Binary64.notANumber
  else
    let upward := y > 0.0
    if y.isInf || x.isInf || x == 0.0 then
      if decide (x > 1.0) == decide upward then Binary64.infinity else 0.0
    else
      let v := Binary64.decode x
      let (n, k) := dyadicExponent y
      let p := ofDyadic ⟨v.mantissa, v.exponent⟩ n k
      if upward then p.toFloat else p.inverse

end TradingRobots.Power
