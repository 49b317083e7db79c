/-
How numbers are written. A `Layout` holds the decisions of one format of shortest digits: which way an exact tie goes,
whether a whole number keeps a point, which sizes are written without an exponent and what NaN and the infinities are
called. Beside it stand the two formats of exact rounding: a fixed number of places, and a fixed number of figures.
-/
import TradingRobots.Number.Decimal

namespace TradingRobots.Number

/-- a text of so many zeros -/
def zeros (n : Nat) : String :=
  String.ofList (List.replicate n '0')

/-- the decisions of a format that writes the fewest digits that read back -/
structure Layout where
  tie : Rounding.Tie
  /-- a whole number is written with a point and a zero -/
  pointed : Bool
  /-- least and greatest exponent of the leading digit that is written without an exponent; none: always -/
  positional : Option (Int × Int)
  nan : String
  infinity : String
  minusInfinity : String

/-- digits and exponent without an exponent mark -/
def plain (pointed : Bool) (v : Decimal) : String :=
  let digits := toString v.digits
  let tail := if pointed then ".0" else ""
  if 0 ≤ v.exponent then digits ++ zeros v.exponent.toNat ++ tail
  else
    let places := (-v.exponent).toNat
    if digits.length ≤ places then "0." ++ zeros (places - digits.length) ++ digits
    else
      let whole := digits.length - places
      String.ofList (digits.toList.take whole) ++ "." ++ String.ofList (digits.toList.drop whole)

/-- one digit, a point before the others if there are any -/
def pointAfterFirst (digits : Nat) : String :=
  match (toString digits).toList with
  | [] => ""
  | [c] => c.toString
  | c :: rest => c.toString ++ "." ++ String.ofList rest

/-- the exponent of the leading digit -/
def leading (v : Decimal) : Int :=
  v.exponent + (toString v.digits).length - 1

def Layout.magnitude (l : Layout) (v : Decimal) : String :=
  let e := leading v
  match l.positional with
  | none => plain l.pointed v
  | some (least, greatest) =>
    if least ≤ e ∧ e ≤ greatest then plain l.pointed v
    else pointAfterFirst v.digits ++ "e" ++ (if e < 0 then "-" else "+") ++ toString e.natAbs

def signed (negative : Bool) (s : String) : String :=
  if negative then "-" ++ s else s

/-- a double in the format of the layout -/
def Layout.text (l : Layout) (x : Float) : String :=
  if x.isNaN then l.nan
  else if x.isInf then (if x < 0.0 then l.minusInfinity else l.infinity)
  else
    let v := Binary64.decode x
    signed v.negative (l.magnitude (if v.mantissa = 0 then ⟨0, 0⟩ else Decimal.shortest l.tie v))

/-- listings and reports: no exponent, whole numbers bare -/
def listed : Layout where
  tie := .up
  pointed := false
  positional := none
  nan := "NaN"
  infinity := "inf"
  minusInfinity := "-inf"

/-- population files and settings listings: a point or an exponent always, null for what is no number -/
def stored : Layout where
  tie := .toEven
  pointed := true
  positional := some (-5, 15)
  nan := "null"
  infinity := "null"
  minusInfinity := "null"

/-- settings files: no exponent, a point always -/
def saved : Layout where
  tie := .up
  pointed := true
  positional := none
  nan := "nan"
  infinity := "inf"
  minusInfinity := "-inf"

/-- a double with a fixed number of places, the exact value rounded half to even; the sign of zero is kept -/
def fixed (places : Nat) (x : Float) : String :=
  if x.isNaN then "NaN"
  else
    let v := Binary64.decode x
    if x.isInf then signed v.negative "inf"
    else
      let units := Decimal.withPlaces places v
      let whole := toString (units / 10 ^ places)
      let part := toString (units % 10 ^ places)
      let tail := if places = 0 then "" else "." ++ zeros (places - part.length) ++ part
      signed v.negative (whole ++ tail)

/-- a double as one digit, a point, more figures and an exponent, the exact value rounded half to even -/
def scientific (figures : Nat) (x : Float) : String :=
  if x.isNaN then "NaN"
  else
    let v := Binary64.decode x
    if x.isInf then signed v.negative "inf"
    else if v.mantissa = 0 then signed v.negative ("0." ++ zeros (figures - 1) ++ "e0")
    else
      let d := Decimal.withFigures figures v
      signed v.negative (pointAfterFirst d.digits ++ "e" ++ toString (leading d))

end TradingRobots.Number
