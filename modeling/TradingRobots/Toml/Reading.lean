/-
Reading TOML documents. Lines end at a line feed, alone or after a carriage return; blanks, comments and empty lines
stand anywhere between statements, between the items of a list and inside an inline table. Everything that the format
does not allow is refused: control characters, names given twice, numbers out of range, and nesting beyond a limit.
-/
import TradingRobots.Toml.Scalars
import TradingRobots.Toml.Tables

namespace TradingRobots.Toml

/-- what is left of a text after something was read -/
abbrev Rest := List Char

/-- how deep lists and inline tables may lie in each other, and how many names a path may have -/
def nestingLimit : Nat := 80

/-! ## Blanks, comments and ends of lines -/

def isBlank (c : Char) : Bool :=
  c = ' ' || c = '\t'

/-- a character that stands neither in a comment nor in a string -/
def isControl (c : Char) : Bool :=
  (c.toNat < 32 && c ≠ '\t') || c.toNat = 127

def skipBlanks (s : Rest) : Rest :=
  s.dropWhile isBlank

/-- blanks, and a comment up to its end -/
def skipComment (s : Rest) : Rest :=
  match skipBlanks s with
  | '#' :: s => s.dropWhile fun c => !isControl c
  | s => s

def newline? : Rest → Option Rest
  | '\n' :: s => some s
  | '\r' :: '\n' :: s => some s
  | _ => none

/-- blanks, comments and ends of lines -/
def skipLines : Nat → Rest → Rest
  | 0, s => s
  | fuel + 1, s =>
    match newline? (skipComment s) with
    | some s => skipLines fuel s
    | none => skipComment s

/-- the end of a line, or of the text, after blanks and a comment -/
def lineEnd? (s : Rest) : Option Rest :=
  match skipComment s with
  | [] => some []
  | s => newline? s

/-! ## Strings -/

/-- the character of a code given by so many hexadecimal digits -/
def coded? (count : Nat) (s : Rest) : Option (Char × Rest) := do
  let digits := s.take count
  if digits.length ≠ count then none
  else
    let n := Reading.ofDigits 16 (← digits.mapM Reading.hexValue?)
    if n < 0xD800 ∨ (0xE000 ≤ n ∧ n < 0x110000) then some (Char.ofNat n, s.drop count) else none

/-- the character after a backslash -/
def escaped? : Rest → Option (Char × Rest)
  | 'b' :: s => some (Char.ofNat 8, s)
  | 't' :: s => some ('\t', s)
  | 'n' :: s => some ('\n', s)
  | 'f' :: s => some (Char.ofNat 12, s)
  | 'r' :: s => some ('\r', s)
  | 'e' :: s => some (Char.ofNat 27, s)
  | '"' :: s => some ('"', s)
  | '\\' :: s => some ('\\', s)
  | 'x' :: s => coded? 2 s
  | 'u' :: s => coded? 4 s
  | 'U' :: s => coded? 8 s
  | _ => none

/-- the rest of a string on one line after its opening mark, with the characters read so far, latest first -/
def stringBody? : Nat → List Char → Rest → Option (String × Rest)
  | 0, _, _ => none
  | fuel + 1, done, s =>
    match s with
    | [] => none
    | '"' :: s => some (String.ofList done.reverse, s)
    | '\\' :: s => do
      let (c, s) ← escaped? s
      stringBody? fuel (c :: done) s
    | c :: s => if isControl c then none else stringBody? fuel (c :: done) s

/-- the rest of a string on one line that knows no escapes -/
def literalBody? (s : Rest) : Option (String × Rest) :=
  let plain (c : Char) : Bool := c ≠ '\'' && !isControl c
  match s.dropWhile plain with
  | '\'' :: rest => some (String.ofList (s.takeWhile plain), rest)
  | _ => none

/-- blanks and ends of lines -/
def skipSpace : Nat → Rest → Rest
  | 0, s => s
  | fuel + 1, s =>
    match newline? (skipBlanks s) with
    | some s => skipSpace fuel s
    | none => skipBlanks s

/-- the rest of a string over lines; it ends at the last three marks in a row, of which there are at most five -/
def blockBody? (mark : Char) (escapes : Bool) : Nat → List Char → Rest → Option (String × Rest)
  | 0, _, _ => none
  | fuel + 1, done, s =>
    match s with
    | [] => none
    | c :: rest =>
      if c = mark then
        let marks := ((s.take 5).takeWhile (· = mark)).length
        if 3 ≤ marks then
          some (String.ofList ((List.replicate (marks - 3) mark ++ done).reverse), s.drop marks)
        else blockBody? mark escapes fuel (mark :: done) rest
      else if c = '\\' ∧ escapes then
        match newline? (skipBlanks rest) with
        | some after => blockBody? mark escapes fuel done (skipSpace after.length after)
        | none => do
          let (e, rest) ← escaped? rest
          blockBody? mark escapes fuel (e :: done) rest
      else
        match newline? s with
        | some after => blockBody? mark escapes fuel ('\n' :: done) after
        | none => if isControl c then none else blockBody? mark escapes fuel (c :: done) rest

/-- the rest of a string over lines; an end of line right after the opening marks is not part of it -/
def block? (mark : Char) (escapes : Bool) (s : Rest) : Option (String × Rest) :=
  blockBody? mark escapes (s.length + 1) [] ((newline? s).getD s)

/-- a string of any kind -/
def string? : Rest → Option (String × Rest)
  | '"' :: '"' :: '"' :: s => block? '"' true s
  | '"' :: s => stringBody? (s.length + 1) [] s
  | '\'' :: '\'' :: '\'' :: s => block? '\'' false s
  | '\'' :: s => literalBody? s
  | _ => none

/-! ## Names -/

def isBare (c : Char) : Bool :=
  c.isAlphanum || c = '_' || c = '-'

/-- a name: bare, or a string on one line -/
def name? : Rest → Option (String × Rest)
  | '"' :: s => stringBody? (s.length + 1) [] s
  | '\'' :: s => literalBody? s
  | s =>
    let bare := s.takeWhile isBare
    if bare.isEmpty then none else some (String.ofList bare, s.dropWhile isBare)

/-- so many names at most, with points between them; blanks may stand around the points and after the last name -/
def names? : Nat → Rest → Option (List String × Rest)
  | 0, _ => none
  | most + 1, s => do
    let (name, s) ← name? s
    match skipBlanks s with
    | '.' :: s => do
      let (more, s) ← names? most (skipBlanks s)
      some (name :: more, s)
    | s => some ([name], s)

def path? (s : Rest) : Option (List String × Rest) :=
  names? nestingLimit s

/-! ## Values -/

mutual

/-- one value at the front of a text, with a number of levels left below it -/
def value? : Nat → Nat → Rest → Option (Value × Rest)
  | 0, _, _ => none
  | fuel + 1, levels, s =>
    match s, levels with
    | '"' :: _, _ => (string? s).map fun r => (.scalar (.text r.1), r.2)
    | '\'' :: _, _ => (string? s).map fun r => (.scalar (.text r.1), r.2)
    | '[' :: s, levels + 1 => (items? fuel levels s).map fun r => (.list r.1, r.2)
    | '\x7b' :: s, levels + 1 => do
      let (fields, s) ← fields? fuel levels s
      some (← inlineTable? fields, s)
    | s, _ => (scalar? s).map fun r => (.scalar r.1, r.2)

/-- items up to the closing bracket; a comma may stand after the last -/
def items? : Nat → Nat → Rest → Option (List Value × Rest)
  | 0, _, _ => none
  | fuel + 1, levels, s =>
    match skipLines s.length s with
    | ']' :: s => some ([], s)
    | s => do
      let (v, s) ← value? fuel levels s
      match skipLines s.length s with
      | ']' :: s => some ([v], s)
      | ',' :: s => do
        let (rest, s) ← items? fuel levels s
        some (v :: rest, s)
      | _ => none

/-- names and values up to the closing brace; a comma may stand after the last -/
def fields? : Nat → Nat → Rest → Option (List (List String × Value) × Rest)
  | 0, _, _ => none
  | fuel + 1, levels, s =>
    match skipLines s.length s with
    | '\x7d' :: s => some ([], s)
    | s => do
      let (path, s) ← path? s
      let s ← expect? '=' (skipLines s.length s)
      let (v, s) ← value? fuel levels (skipLines s.length s)
      match skipLines s.length s with
      | '\x7d' :: s => some ([(path, v)], s)
      | ',' :: s => do
        let (rest, s) ← fields? fuel levels s
        some ((path, v) :: rest, s)
      | _ => none

end

/-! ## Statements -/

/-- one statement at the front of a text without leading blanks -/
def statement? (s : Rest) : Option (Statement × Rest) :=
  match s with
  | '[' :: '[' :: s => do
    let (path, s) ← path? (skipBlanks s)
    match s with
    | ']' :: ']' :: s => some (.itemHeader path, s)
    | _ => none
  | '[' :: s => do
    let (path, s) ← path? (skipBlanks s)
    match s with
    | ']' :: s => some (.header path, s)
    | _ => none
  | s => do
    let (path, s) ← path? s
    let s ← expect? '=' s
    let (v, s) ← value? (2 * s.length + 2) nestingLimit (skipBlanks s)
    some (.entry path v, s)

/-- all statements of a text -/
def statements? : Nat → Rest → Option (List Statement)
  | 0, _ => none
  | fuel + 1, s =>
    match skipLines s.length s with
    | [] => some []
    | s => do
      let (statement, s) ← statement? s
      let rest ← statements? fuel (← lineEnd? s)
      some (statement :: rest)

/-- passes over a mark of byte order -/
def skipMark (s : Rest) : Rest :=
  if s.head? = some (Char.ofNat 0xFEFF) then s.drop 1 else s

/-- the entries of a document; the mark of byte order may stand before it, at most twice -/
def parse? (text : String) : Option (List (String × Value)) := do
  let s := skipMark (skipMark text.toList)
  ofStatements? (← statements? (s.length + 1) s)

end TradingRobots.Toml
