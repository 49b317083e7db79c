/-
Numbers read from text: counts, whole numbers and decimals. A decimal numeral is a sign, digits, a point, more digits
and an exponent, with at least one digit around the point; it means the double nearest to it.
-/
import TradingRobots.Number.Decimal

namespace TradingRobots.Reading

def isDigit (c : Char) : Bool :=
  decide ('0' ≤ c ∧ c ≤ '9')

def digitValue (c : Char) : Nat :=
  c.toNat - '0'.toNat

/-- the value of a hexadecimal digit -/
def hexValue? (c : Char) : Option Nat :=
  if '0' ≤ c ∧ c ≤ '9' then some (c.toNat - '0'.toNat)
  else if 'a' ≤ c ∧ c ≤ 'f' then some (c.toNat - 'a'.toNat + 10)
  else if 'A' ≤ c ∧ c ≤ 'F' then some (c.toNat - 'A'.toNat + 10)
  else none

/-- the number that a row of digits means in a base -/
def ofDigits (base : Nat) (digits : List Nat) : Nat :=
  digits.foldl (fun n d => n * base + d) 0

/-- a row of decimal digits, at least one -/
def digits? (s : List Char) : Option Nat :=
  if !s.isEmpty && s.all isDigit then some (ofDigits 10 (s.map digitValue)) else none

/-- an optional sign and the rest; true is a minus -/
def splitSign : List Char → Bool × List Char
  | '-' :: rest => (true, rest)
  | '+' :: rest => (false, rest)
  | s => (false, s)

/-- a count that fits a machine word, with an optional plus -/
def count? (s : String) : Option Nat := do
  let body := match s.toList with
    | '+' :: rest => rest
    | cs => cs
  let n ← digits? body
  if n < Binary64.wordLimit then some n else none

/-- a whole number of the signed machine word, with an optional sign -/
def whole? (s : String) : Option Int := do
  let (negative, body) := splitSign s.toList
  let n ← digits? body
  let i : Int := if negative then -(n : Int) else n
  if -(2 ^ 63) ≤ i ∧ i < 2 ^ 63 then some i else none

/-- an exponent mark and the number after it, or nothing at the end of the text -/
def exponent? : List Char → Option Int
  | [] => some 0
  | c :: rest =>
    if c = 'e' ∨ c = 'E' then do
      let (negative, body) := splitSign rest
      let n ← digits? body
      some (if negative then -(n : Int) else n)
    else none

/-- a numeral without its sign -/
def unsigned? (s : List Char) : Option Decimal := do
  let whole := s.takeWhile isDigit
  let (part, rest) := match s.dropWhile isDigit with
    | '.' :: tail => (tail.takeWhile isDigit, tail.dropWhile isDigit)
    | tail => ([], tail)
  if whole.isEmpty && part.isEmpty then none
  else do
    let e ← exponent? rest
    some ⟨ofDigits 10 ((whole ++ part).map digitValue), e - part.length⟩

def lower (s : List Char) : String :=
  String.ofList (s.map Char.toLower)

/-- a double: a decimal numeral, or a name of infinity or NaN in any case, with an optional sign -/
def float? (s : String) : Option Float :=
  let (negative, body) := splitSign s.toList
  let name := lower body
  let magnitude :=
    if name = "inf" || name = "infinity" then some Binary64.infinity
    else if name = "nan" then some Binary64.notANumber
    else (unsigned? body).map Decimal.toFloat
  magnitude.map (Binary64.withSign negative)

end TradingRobots.Reading
