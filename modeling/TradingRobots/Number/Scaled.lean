/-
Decimal numerals kept in one machine word. Digits go into a significand as long as the word holds them; a whole digit
after that only counts as a place, and a digit of the fraction is dropped. The double is made by one product or quotient
with a power of ten, and a numeral below the range of these powers by several quotients, so it can differ from the
nearest double by a few last places.
-/
import TradingRobots.Number.Reading

namespace TradingRobots

/-- significand · 10^exponent -/
structure Scaled where
  significand : Nat
  exponent : Int
deriving DecidableEq, Repr

namespace Scaled

/-- the significand with one more digit, if a machine word holds it -/
def push? (n digit : Nat) : Option Nat :=
  if n * 10 + digit < Binary64.wordLimit then some (n * 10 + digit) else none

/-- takes the digits before the point -/
def ofWhole : Nat → List Nat → Scaled
  | n, [] => ⟨n, 0⟩
  | n, d :: rest =>
    match push? n d with
    | some m => ofWhole m rest
    | none => ⟨n, rest.length + 1⟩

/-- takes the digits after the point -/
def addPart : Scaled → List Nat → Scaled
  | v, [] => v
  | v, d :: rest =>
    match push? v.significand d with
    | some m => addPart ⟨m, v.exponent - 1⟩ rest
    | none => v

/-- digits, and perhaps a point with more digits and an exponent -/
def ofChars? (s : List Char) : Option Scaled := do
  let whole := s.takeWhile Reading.isDigit
  let (part, rest) := match s.dropWhile Reading.isDigit with
    | '.' :: tail => (tail.takeWhile Reading.isDigit, tail.dropWhile Reading.isDigit)
    | tail => ([], tail)
  if whole.isEmpty then none
  else do
    let v := (ofWhole 0 (whole.map Reading.digitValue)).addPart (part.map Reading.digitValue)
    some { v with exponent := v.exponent + (← Reading.exponent? rest) }

/-- the largest exponent of a power of ten that is a double -/
def topPower : Nat := 308

/-- the double nearest to a power of ten -/
def power (k : Nat) : Float :=
  Decimal.toFloat ⟨1, k⟩

/-- multiplies by a power of ten; nothing when that is too large for a double -/
def raise? (x : Float) (k : Nat) : Option Float :=
  if k ≤ topPower then
    let y := x * power k
    if y.isInf then none else some y
  else if x == 0.0 then some x
  else none

/-- divides by a power of ten, by the largest one as often as it goes -/
def lowered (x : Float) (k : Nat) : Float :=
  if k ≤ topPower then x / power k
  else if x == 0.0 then x
  else lowered (x / power topPower) (k - topPower)
termination_by k
decreasing_by simp only [topPower] at *; omega

def toFloat? (v : Scaled) : Option Float :=
  if 0 ≤ v.exponent then raise? (Binary64.ofCount v.significand) v.exponent.toNat
  else some (lowered (Binary64.ofCount v.significand) (-v.exponent).toNat)

end Scaled

end TradingRobots
