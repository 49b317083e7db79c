/-
Kinds of cells. The kind of a cell is read off its text; the kind of a column is the one that all its cells have, where
decimals take whole numbers in. Cells without text have no kind.

Digits of any script look like numbers here, and a long s looks like an s; whether such a cell can be read is another
matter.
-/
import TradingRobots.Number.Reading
import TradingRobots.PriceFile.Cells
import TradingRobots.Text.Numerals

namespace TradingRobots

inductive CellKind where
  | whole
  | real
  | truth
  | text
deriving DecidableEq, Repr

namespace CellKind

def name : CellKind → String
  | whole => "Int64"
  | real => "Float64"
  | truth => "Boolean"
  | text => "String"

def isNumeric : CellKind → Bool
  | whole => true
  | real => true
  | _ => false

/-! ## The kind of a text -/

/-- digits, at least one -/
def isDigits (s : List Char) : Bool :=
  !s.isEmpty && s.all Text.isNumeral

/-- digits, with a minus or without a sign -/
def isWholeText : List Char → Bool
  | '-' :: s => isDigits s
  | s => isDigits s

/-- an exponent with digits, or nothing -/
def isExponentText : List Char → Bool
  | [] => true
  | c :: s => (c = 'e' || c = 'E') && isDigits (Reading.splitSign s).2

/-- digits around a point, digits before an exponent, or a name of what is no number or infinite -/
def isRealText (s : List Char) : Bool :=
  let body := (Reading.splitSign s).2
  let whole := body.takeWhile Text.isNumeral
  body = ['i', 'n', 'f'] || body = ['N', 'a', 'N'] ||
    match body.dropWhile Text.isNumeral with
    | '.' :: part =>
      if part.isEmpty then !whole.isEmpty
      else !(part.takeWhile Text.isNumeral).isEmpty && isExponentText (part.dropWhile Text.isNumeral)
    | rest => !whole.isEmpty && !rest.isEmpty && isExponentText rest

/-- a letter in lower case; a long s is an s -/
def plainLetter (c : Char) : Char :=
  if c = 'ſ' then 's' else c.toLower

def isTruthText (s : List Char) : Bool :=
  let word := String.ofList (s.map plainLetter)
  word = "true" || word = "false"

/-- the kind that a text looks like -/
def ofText (s : List Char) : CellKind :=
  if isTruthText s then truth
  else if isRealText s then real
  else if isWholeText s then whole
  else text

/-- the kind of a cell that is not empty -/
def ofCell (cell : PriceFile.Cell) : Option CellKind :=
  if cell.isEmpty then none else some (ofText cell.inside)

/-- the kind of a column with cells of some kinds -/
def common (kinds : List CellKind) : CellKind :=
  match kinds with
  | [] => text
  | kind :: rest =>
    if rest.all (· = kind) then kind
    else if kinds.all isNumeric then real
    else text

end CellKind

end TradingRobots
