/-
Scalars of TOML that stand without quotation marks: truth values, whole numbers in four bases, decimals, infinity and
NaN, dates and times. Single underscores may stand between digits; a whole number fits the signed machine word, and a
decimal is not too large for a double.
-/
import TradingRobots.Number.Reading
import TradingRobots.Toml.Value

namespace TradingRobots.Toml

/-- a row of digits without the underscores between them -/
def ungrouped? (isDigit : Char → Bool) : List Char → Option (List Char)
  | [] => none
  | [c] => if isDigit c then some [c] else none
  | c :: '_' :: rest => if isDigit c then (ungrouped? isDigit rest).map (c :: ·) else none
  | c :: rest => if isDigit c then (ungrouped? isDigit rest).map (c :: ·) else none

/-- a whole number of the signed machine word -/
def inWord? (i : Int) : Option Int :=
  if -(2 ^ 63) ≤ i ∧ i < 2 ^ 63 then some i else none

/-- decimal digits of a whole number: no zero stands before others -/
def wholeDigits? (s : List Char) : Option (List Char) := do
  let digits ← ungrouped? Reading.isDigit s
  if digits.head? = some '0' ∧ digits.length ≠ 1 then none else some digits

def decimalWhole? (s : List Char) : Option Int := do
  let (negative, body) := Reading.splitSign s
  let digits ← wholeDigits? body
  let n := Reading.ofDigits 10 (digits.map Reading.digitValue)
  inWord? (if negative then -(n : Int) else n)

/-- digits of a base below or at sixteen -/
def basedWhole? (base : Nat) (s : List Char) : Option Int := do
  let isDigit (c : Char) : Bool := (Reading.hexValue? c).any (· < base)
  let digits ← ungrouped? isDigit s
  inWord? (Reading.ofDigits base (← digits.mapM Reading.hexValue?))

def whole? : List Char → Option Int
  | '0' :: 'x' :: s => basedWhole? 16 s
  | '0' :: 'o' :: s => basedWhole? 8 s
  | '0' :: 'b' :: s => basedWhole? 2 s
  | s => decimalWhole? s

/-- an exponent, mark included -/
def exponentForm? : List Char → Option (List Char)
  | c :: s =>
    if c = 'e' ∨ c = 'E' then do
      let (negative, body) := Reading.splitSign s
      let digits ← ungrouped? Reading.isDigit body
      some ('e' :: (if negative then ['-'] else []) ++ digits)
    else none
  | [] => some []

/-- the decimal numeral without underscores: digits, then a point and digits or an exponent or both -/
def decimalForm? (s : List Char) : Option (List Char) := do
  let inPart (c : Char) : Bool := Reading.isDigit c || c = '_'
  let whole ← wholeDigits? (s.takeWhile inPart)
  match s.dropWhile inPart with
  | '.' :: s => do
    let part ← ungrouped? Reading.isDigit (s.takeWhile inPart)
    let exponent ← exponentForm? (s.dropWhile inPart)
    some (whole ++ '.' :: part ++ exponent)
  | s => do
    let exponent ← exponentForm? s
    if exponent.isEmpty then none else some (whole ++ exponent)

def real? (s : List Char) : Option Float := do
  let (negative, body) := Reading.splitSign s
  if body = ['i', 'n', 'f'] then some (Binary64.withSign negative Binary64.infinity)
  else if body = ['n', 'a', 'n'] then some (Binary64.withSign negative Binary64.notANumber)
  else do
    let x ← Reading.float? (String.ofList (← decimalForm? body))
    if x.isFinite then some (Binary64.withSign negative x) else none

/-! ## Dates and times -/

/-- a number of exactly so many digits, and what follows -/
def figures? (count : Nat) (s : List Char) : Option (Nat × List Char) := do
  let digits := s.take count
  if digits.length = count then some (← Reading.digits? digits, s.drop count) else none

def expect? (c : Char) : List Char → Option (List Char)
  | d :: s => if c = d then some s else none
  | [] => none

def isLeap (year : Nat) : Bool :=
  year % 4 = 0 && (year % 100 ≠ 0 || year % 400 = 0)

def daysOf (year month : Nat) : Nat :=
  if month = 2 then (if isLeap year then 29 else 28)
  else if month = 4 ∨ month = 6 ∨ month = 9 ∨ month = 11 then 30
  else 31

/-- a date, and what follows -/
def date? (s : List Char) : Option (List Char) := do
  let (year, s) ← figures? 4 s
  let (month, s) ← figures? 2 (← expect? '-' s)
  let (day, s) ← figures? 2 (← expect? '-' s)
  if 1 ≤ month ∧ month ≤ 12 ∧ 1 ≤ day ∧ day ≤ daysOf year month then some s else none

/-- a second with an optional fraction, and what follows -/
def second? (s : List Char) : Option (List Char) := do
  let (second, s) ← figures? 2 s
  if 60 < second then none
  else
    match s with
    | '.' :: s => if (s.takeWhile Reading.isDigit).isEmpty then none else some (s.dropWhile Reading.isDigit)
    | s => some s

/-- a time of day, and what follows; the second may be left out -/
def timeOfDay? (s : List Char) : Option (List Char) := do
  let (hour, s) ← figures? 2 s
  let (minute, s) ← figures? 2 (← expect? ':' s)
  if 23 < hour ∨ 59 < minute then none
  else
    match s with
    | ':' :: s => second? s
    | s => some s

/-- the distance from universal time, which may be left out -/
def isOffset : List Char → Bool
  | [] => true
  | ['Z'] => true
  | ['z'] => true
  | c :: s =>
    (c = '+' || c = '-') &&
      match figures? 2 s with
      | some (hours, ':' :: s) =>
        match figures? 2 s with
        | some (minutes, []) => hours ≤ 23 && minutes ≤ 59
        | _ => false
      | _ => false

/-- a date, a time of day, or both with an optional offset -/
def isMoment (s : List Char) : Bool :=
  match date? s with
  | some [] => true
  | some (c :: rest) =>
    (c = 'T' || c = 't' || c = ' ') &&
      match timeOfDay? rest with
      | some rest => isOffset rest
      | none => false
  | none => timeOfDay? s = some []

/-- the scalar that a row of characters is -/
def Scalar.ofChars? (s : List Char) : Option Scalar :=
  if s = ['t', 'r', 'u', 'e'] then some (.flag true)
  else if s = ['f', 'a', 'l', 's', 'e'] then some (.flag false)
  else
    match whole? s with
    | some i => some (.whole i)
    | none =>
      match real? s with
      | some x => some (.real x)
      | none => if isMoment s then some (.text (String.ofList s)) else none

/-- characters that a scalar without quotation marks is made of -/
def isScalarChar (c : Char) : Bool :=
  c.isAlphanum || c = '+' || c = '-' || c = '_' || c = '.' || c = ':'

/-- the row of characters at the front; a blank between a date and a time belongs to it -/
def scalarRow (s : List Char) : List Char × List Char :=
  let row := s.takeWhile isScalarChar
  match s.dropWhile isScalarChar with
  | ' ' :: d :: rest =>
    if date? row = some [] ∧ Reading.isDigit d then
      let after := d :: rest
      (row ++ ' ' :: after.takeWhile isScalarChar, after.dropWhile isScalarChar)
    else (row, ' ' :: d :: rest)
  | rest => (row, rest)

/-- a scalar without quotation marks at the front of a text -/
def scalar? (s : List Char) : Option (Scalar × List Char) := do
  let (row, rest) := scalarRow s
  some (← Scalar.ofChars? row, rest)

end TradingRobots.Toml
