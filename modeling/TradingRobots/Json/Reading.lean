/-
Reading JSON text. The reader takes one value with blanks around it and nothing after; everything else is refused. What
holds half of a pair of codes is read too, but only so that it can be passed over: it means nothing.
-/
import TradingRobots.Json.Value
import TradingRobots.Number.Scaled

namespace TradingRobots.Json

/-- what is left of a text after something was read -/
abbrev Rest := List Char

def isBlank (c : Char) : Bool :=
  c = ' ' || c = '\n' || c = '\r' || c = '\t'

def skipBlanks (s : Rest) : Rest :=
  s.dropWhile isBlank

/-- takes a text off the front -/
def expect? : List Char → Rest → Option Rest
  | [], s => some s
  | c :: more, d :: s => if c = d then expect? more s else none
  | _ :: _, [] => none

/-- four hexadecimal digits -/
def hexFour? : Rest → Option (Nat × Rest)
  | a :: b :: c :: d :: s => do
    let digits ← [a, b, c, d].mapM Reading.hexValue?
    some (Reading.ofDigits 16 digits, s)
  | _ => none

/-- the second half of a pair -/
def lowHalf? (s : Rest) : Option (Nat × Rest) := do
  let (low, s) ← hexFour? (← expect? ['\\', 'u'] s)
  if 0xDC00 ≤ low ∧ low < 0xE000 then some (low, s) else none

/-- the character of an escape with a code, or of two that form a pair; half a pair is no character -/
def coded? (s : Rest) : Option (Option Char × Rest) := do
  let (high, s) ← hexFour? s
  if 0xD800 ≤ high ∧ high < 0xDC00 then
    match lowHalf? s with
    | some (low, s) => some (some (Char.ofNat (0x10000 + (high - 0xD800) * 0x400 + (low - 0xDC00))), s)
    | none => some (none, s)
  else if 0xDC00 ≤ high ∧ high < 0xE000 then some (none, s)
  else some (some (Char.ofNat high), s)

/-- the character after a backslash -/
def escaped? : Rest → Option (Option Char × Rest)
  | 'u' :: s => coded? s
  | 'n' :: s => some (some '\n', s)
  | 'r' :: s => some (some '\r', s)
  | 't' :: s => some (some '\t', s)
  | 'b' :: s => some (some (Char.ofNat 8), s)
  | 'f' :: s => some (some (Char.ofNat 12), s)
  | c :: s => if c = '"' ∨ c = '\\' ∨ c = '/' then some (some c, s) else none
  | [] => none

/-- what stands between the marks of a string, escapes as they are written, and what follows; the characters read so far
come with the latest first -/
def stringBody? : List Char → Rest → Option (List Char × Rest)
  | _, [] => none
  | done, '"' :: s => some (done.reverse, s)
  | done, '\\' :: c :: s => stringBody? (c :: '\\' :: done) s
  | done, c :: s => if c.toNat < 32 then none else stringBody? (c :: done) s

/-- the characters that the body of a string spells, after those read so far with the latest first; half of a pair is
none -/
def spelled? : Nat → List (Option Char) → List Char → Option (List (Option Char))
  | _, done, [] => some done.reverse
  | 0, _, _ => none
  | fuel + 1, done, '\\' :: s => do
    let (c, s) ← escaped? s
    spelled? fuel (c :: done) s
  | fuel + 1, done, c :: s => spelled? fuel (some c :: done) s

/-- a string, and the text it spells, if it holds no half of a pair -/
def string? : Rest → Option (Option String × Rest)
  | '"' :: s => do
    let (body, s) ← stringBody? [] s
    let characters ← spelled? body.length [] body
    some ((characters.mapM id).map String.ofList, s)
  | _ => none

/-- the value of a string that spells a text or does not -/
def ofText : Option String → Json
  | some text => .string text
  | none => .meaningless

/-- the object of some fields, each of which has a name or does not -/
def ofFields (fields : List (Option String × Json)) : Json :=
  match fields.mapM fun f => f.1.map fun name => (name, f.2) with
  | some fields => .object fields
  | none => .meaningless

/-- digits, at least one -/
def digitsPart? (s : Rest) : Option (List Char × Rest) :=
  let digits := s.takeWhile Reading.isDigit
  if digits.isEmpty then none else some (digits, s.dropWhile Reading.isDigit)

/-- a point and digits, if there is a point -/
def pointPart? : Rest → Option (List Char × Rest)
  | '.' :: s => do
    let (digits, s) ← digitsPart? s
    some ('.' :: digits, s)
  | s => some ([], s)

/-- an exponent, if there is a mark for one -/
def exponentPart? : Rest → Option (List Char × Rest)
  | c :: s =>
    if c = 'e' ∨ c = 'E' then do
      let (sign, s) := match s with
        | '+' :: s => (['+'], s)
        | '-' :: s => (['-'], s)
        | s => ([], s)
      let (digits, s) ← digitsPart? s
      some (c :: sign ++ digits, s)
    else some ([], c :: s)
  | [] => some ([], [])

/-- a number, as it is written; no zero stands before other digits -/
def number? (s : Rest) : Option (String × Rest) := do
  let (sign, s) := match s with
    | '-' :: s => (['-'], s)
    | s => ([], s)
  let (whole, s) ← digitsPart? s
  if whole.head? = some '0' ∧ whole.length ≠ 1 then none
  else do
    let (point, s) ← pointPart? s
    let (exponent, s) ← exponentPart? s
    some (String.ofList (sign ++ whole ++ point ++ exponent), s)

mutual

/-- one value at the front of a text without leading blanks -/
def value? : Nat → Rest → Option (Json × Rest)
  | 0, _ => none
  | fuel + 1, s =>
    match s with
    | [] => none
    | '"' :: _ => (string? s).map fun r => (ofText r.1, r.2)
    | '[' :: s =>
      match skipBlanks s with
      | ']' :: s => some (.array [], s)
      | s => (items? fuel s).map fun r => (.array r.1, r.2)
    | '\x7b' :: s =>
      match skipBlanks s with
      | '\x7d' :: s => some (.object [], s)
      | s => (fields? fuel s).map fun r => (ofFields r.1, r.2)
    | 't' :: s => (expect? ['r', 'u', 'e'] s).map fun s => (.bool true, s)
    | 'f' :: s => (expect? ['a', 'l', 's', 'e'] s).map fun s => (.bool false, s)
    | 'n' :: s => (expect? ['u', 'l', 'l'] s).map fun s => (.null, s)
    | _ => (number? s).map fun r => (.number r.1, r.2)

/-- items up to the closing bracket -/
def items? : Nat → Rest → Option (List Json × Rest)
  | 0, _ => none
  | fuel + 1, s => do
    let (v, s) ← value? fuel s
    match skipBlanks s with
    | ']' :: s => some ([v], s)
    | ',' :: s => do
      let (rest, s) ← items? fuel (skipBlanks s)
      some (v :: rest, s)
    | _ => none

/-- fields up to the closing brace -/
def fields? : Nat → Rest → Option (List (Option String × Json) × Rest)
  | 0, _ => none
  | fuel + 1, s => do
    let (name, s) ← string? s
    let s ← expect? [':'] (skipBlanks s)
    let (v, s) ← value? fuel (skipBlanks s)
    match skipBlanks s with
    | '\x7d' :: s => some ([(name, v)], s)
    | ',' :: s => do
      let (rest, s) ← fields? fuel (skipBlanks s)
      some ((name, v) :: rest, s)
    | _ => none

end

/-- the value that a text is -/
def parse? (text : String) : Option Json := do
  let s := text.toList
  let (v, s) ← value? (2 * s.length + 2) (skipBlanks s)
  if (skipBlanks s).isEmpty then some v else none

/-! ## What a value may be taken for -/

/-- a count that fits a machine word; the text must be a plain row of digits -/
def toCount? : Json → Option Nat
  | number text => do
    let n ← Reading.digits? text.toList
    if n < Binary64.wordLimit then some n else none
  | _ => none

/-- a whole number of the signed machine word; a negative zero is no whole number -/
def toWhole? : Json → Option Int
  | number text => if text = "-0" then none else Reading.whole? text
  | _ => none

/-- a finite double: the numeral is kept in one machine word and scaled -/
def toReal? : Json → Option Float
  | number text => do
    let (negative, body) := match text.toList with
      | '-' :: rest => (true, rest)
      | cs => (false, cs)
    let x ← (← Scaled.ofChars? body).toFloat?
    some (Binary64.withSign negative x)
  | _ => none

def toBool? : Json → Option Bool
  | bool b => some b
  | _ => none

/-- the values of named fields: of an object in any order, each once and fields of other names skipped; or of an array
in this order, with nothing more -/
def record? (names : List String) : Json → Option (List Json)
  | object fields =>
    names.mapM fun name =>
      match fields.filter fun f => f.1 = name with
      | [f] => some f.2
      | _ => none
  | array items => if items.length = names.length then some items else none
  | _ => none

def toArray? : Json → Option (List Json)
  | array items => some items
  | _ => none

def toObject? : Json → Option (List (String × Json))
  | object fields => some fields
  | _ => none

end TradingRobots.Json
