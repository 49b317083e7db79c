/-
The cells of a price file. A line ends at a line feed outside of quotation marks, where every mark opens or closes,
wherever it stands. A record is a row of cells with commas between them: a cell that begins with a mark ends at the first
comma or line feed outside of marks, any other cell at the first comma or line feed. So a record can end in the middle of
a line, when a mark stands inside a cell.

A cell keeps its marks. What stands between them is its inside.
-/

namespace TradingRobots.PriceFile

/-- the characters of a cell, with its quotation marks -/
abbrev Cell := List Char

/-! ## Lines -/

/-- the text read so far: lines and the characters of the line being read, the latest first -/
structure LineScan where
  quoting : Bool
  line : List Char
  lines : List (List Char)

namespace LineScan

def start : LineScan := ⟨false, [], []⟩

def step (s : LineScan) (c : Char) : LineScan :=
  if c = '"' then { s with quoting := !s.quoting, line := c :: s.line }
  else if c = '\n' ∧ !s.quoting then ⟨false, [], s.line.reverse :: s.lines⟩
  else { s with line := c :: s.line }

end LineScan

/-- the lines of a text without their line feeds, and what follows the last line feed -/
def linesOf (text : List Char) : List (List Char) × List Char :=
  let s := text.foldl LineScan.step .start
  (s.lines.reverse, s.line.reverse)

/-- leaves out a carriage return that something stands before -/
def withoutReturn (line : List Char) : List Char :=
  if 1 < line.length ∧ line.getLast? = some '\r' then line.dropLast else line

/-! ## Cells -/

namespace Cell

def isQuoted (cell : Cell) : Bool :=
  cell.head? = some '"'

/-- the text between the marks of a quoted cell; its last character is taken for the closing mark, and only the last
byte of it is left out, so that something unreadable remains of a longer one -/
def inside (cell : Cell) : List Char :=
  if cell.isQuoted && 1 < cell.length then
    let text := cell.tail.dropLast
    if (cell.getLast?.any fun c => c.utf8Size = 1) then text else text ++ [Char.ofNat 0xFFFD]
  else cell

/-- the closing mark of a quoted cell is there -/
def isClosed (cell : Cell) : Bool :=
  1 < cell.length && cell.getLast? = some '"'

end Cell

/-- a comma or a line feed -/
def endsCell (c : Char) : Bool :=
  c = ',' || c = '\n'

/-- the rest of a cell with marks, which begins inside or outside of them; the characters read so far come with the latest
first -/
def quotedCell : Bool → List Char → List Char → Cell × List Char
  | _, done, [] => (done.reverse, [])
  | quoting, done, c :: rest =>
    let quoting := if c = '"' then !quoting else quoting
    if !quoting && endsCell c then (done.reverse, c :: rest) else quotedCell quoting (c :: done) rest

/-- the cell at the front of a text, and what is left from its end on -/
def cellAt (text : List Char) : Cell × List Char :=
  if text.head? = some '"' then quotedCell false [] text
  else (text.takeWhile fun c => !endsCell c, text.dropWhile fun c => !endsCell c)

/-- the first cells of a line, so many at most -/
def cellsOf : Nat → List Char → List Cell
  | 0, _ => []
  | most + 1, text =>
    match cellAt text with
    | (cell, ',' :: rest) => cell :: cellsOf most rest
    | (cell, _) => [cell]

/-! ## Records -/

/-- the cells of a record, so many at most, and the text after it. Nothing can be read after a record with too many cells;
only at the end of the text a comma may follow the last -/
def record : Nat → List Char → List Cell × Option (List Char)
  | 0, text => ([], if text.isEmpty then some [] else none)
  | columns + 1, text =>
    match cellAt text with
    | (cell, '\n' :: rest) => ([cell], some rest)
    | (cell, ',' :: rest) =>
      let (cells, rest) := record columns rest
      (cell :: cells, rest)
    | (cell, _) => ([cell], some [])

/-- the records of a text after those read so far, the latest of them first, and whether they are all of it -/
def recordsFrom (columns : Nat) : Nat → List (List Cell) → List Char → List (List Cell) × Bool
  | _, done, [] => (done.reverse, true)
  | 0, done, _ => (done.reverse, false)
  | fuel + 1, done, text =>
    match record columns text with
    | (cells, some rest) => recordsFrom columns fuel (cells :: done) rest
    | (cells, none) => ((cells :: done).reverse, false)

/-- the records of a text up to the first with too many cells, and whether they are all of it -/
def records (columns : Nat) (text : List Char) : List (List Cell) × Bool :=
  recordsFrom columns text.length [] text

end TradingRobots.PriceFile
