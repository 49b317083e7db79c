/-
Values of cells, and how a cell of a kind is read. A number may have blanks before it; a quoted text must have its closing
mark. An empty cell has no value, whatever its kind.

A cell that is nothing but one mark has no inside. Where a text should stand it lacks its closing mark like others; where
a number or a truth value should stand, reading breaks off.
-/
import TradingRobots.Number.Reading
import TradingRobots.PriceFile.CellKind

namespace TradingRobots

open PriceFile (Cell)

inductive CellValue where
  | empty
  | whole (i : Int)
  | real (x : Float)
  | truth (b : Bool)
  | text (s : String)
deriving DecidableEq, Repr

/-- why a text gives no rows -/
inductive TextDefect where
  | unreadable
  /-- a mark alone in a cell, where a number or a truth value should stand -/
  | loneMark
deriving DecidableEq, Repr

def TextDefect.message : TextDefect → String
  | unreadable => "Failed to read CSV"
  | loneMark => "A quotation mark stands alone"

namespace CellValue

def whole? : CellValue → Option Int
  | whole i => some i
  | _ => none

def real? : CellValue → Option Float
  | real x => some x
  | _ => none

def truth? : CellValue → Option Bool
  | truth b => some b
  | _ => none

def text? : CellValue → Option String
  | text s => some s
  | _ => none

/-! ## Reading -/

/-- a number after blanks; a cell with nothing but blanks is empty -/
def readNumber? {α : Type} (read : String → Option α) (value : α → CellValue) (cell : Cell) : Option CellValue :=
  let text := cell.inside.dropWhile fun c => c = ' ' || c = '\t'
  if text.isEmpty then some empty else (read (String.ofList text)).map value

def readTruth? (cell : Cell) : Option CellValue :=
  let word := Reading.lower cell.inside
  if word = "true" then some (truth true)
  else if word = "false" then some (truth false)
  else if word = "" then some empty
  else none

/-- two marks in a row stand for one -/
def undoubled : List Char → List Char
  | '"' :: '"' :: rest => '"' :: undoubled rest
  | c :: rest => c :: undoubled rest
  | [] => []

def readText? (cell : Cell) : Option CellValue :=
  if cell.isQuoted then
    if cell.isClosed then some (text (String.ofList (undoubled cell.inside))) else none
  else some (text (String.ofList cell))

/-- the value of a cell that is not empty, in a column of a kind -/
def read? : CellKind → Cell → Option CellValue
  | .whole, cell => readNumber? Reading.whole? whole cell
  | .real, cell => readNumber? Reading.float? real cell
  | .truth, cell => readTruth? cell
  | .text, cell => readText? cell

/-- the value of a cell in a column of a kind; a carriage return at the end of the cell is left out -/
def read (kind : CellKind) (cell : Cell) : Except TextDefect CellValue :=
  let cell := if cell.getLast? = some '\r' then cell.dropLast else cell
  if cell.isEmpty then .ok empty
  else if cell = ['"'] ∧ kind ≠ .text then .error .loneMark
  else
    match read? kind cell with
    | none => .error .unreadable
    | some v => .ok v

/-- the values of a row in columns of some kinds; cells that are not there are empty -/
def readRow : List CellKind → List Cell → Except TextDefect (List CellValue)
  | kind :: kinds, cell :: cells => do
    let v ← read kind cell
    let others ← readRow kinds cells
    .ok (v :: others)
  | kinds, _ => .ok (kinds.map fun _ => empty)

end CellValue

end TradingRobots
