/-
Frames: named columns of equal length, each of one kind, whose cells may be empty. A frame is made of the lines of a
price file: the first line names the columns, and the first lines after it show their kinds. Every line is a row, an
empty one too; cells that are not there are empty.

The first column of a frame that passes the check holds the time points of a dataset, the others its data.
-/
import TradingRobots.Dataset
import TradingRobots.PriceFile.Column
import TradingRobots.PriceFile.Packed
import TradingRobots.PriceFile.Portion
import TradingRobots.Text.Quoted

namespace TradingRobots

/-- named columns of equal length -/
structure Frame where
  columns : List (String × Column)
  rows : Nat
  even : ∀ c ∈ columns, c.2.length = rows

/-- why a frame holds no prices -/
inductive FrameDefect where
  | narrow (columns : Nat)
  | notNumeric (column : String) (kind : CellKind)
  | short (rows least : Nat)
  | empties (path : String) (columns : List (String × Nat))
deriving DecidableEq, Repr

namespace FrameDefect

/-- a column and how many of its cells are empty -/
def emptiesText (e : String × Nat) : String :=
  "(" ++ Text.quoted e.1 ++ ", " ++ toString e.2 ++ ")"

def message : FrameDefect → String
  | narrow columns => "Expected a time column and at least one data column, found " ++ toString columns ++ " columns"
  | notNumeric column kind => "Column '" ++ column ++ "' must be numeric, found " ++ kind.name
  | short rows least => "Insufficient data: " ++ toString rows ++ " rows, minimum " ++ toString least ++ " required"
  | empties path columns =>
    "Null values in " ++ path ++ ": [" ++ ", ".intercalate (columns.map emptiesText) ++ "]"

end FrameDefect

namespace Frame

/-! ## Names and kinds of columns -/

/-- names of columns, a repeated one told apart by how often it came before; the first list holds those passed -/
def distinct : List String → List String → List String
  | _, [] => []
  | passed, name :: rest =>
    let before := passed.count name
    let shown := if before = 0 then name else name ++ "_duplicated_" ++ toString (before - 1)
    shown :: distinct (name :: passed) rest

/-- the names that a first line gives -/
def namesOf (line : List Char) : List String :=
  let line := PriceFile.withoutReturn line
  distinct [] ((PriceFile.cellsOf (line.length + 1) line).map fun cell => String.ofList cell.inside)

/-- how many lines show the kinds of columns -/
def sampleSize : Nat := 100

/-- the kinds of columns that some lines show -/
def kindsOf (columns : Nat) (lines : List (List Char)) : List CellKind :=
  let rows := (lines.take sampleSize).map fun line => PriceFile.cellsOf columns (PriceFile.withoutReturn line)
  (List.range columns).map fun i => .common (rows.filterMap fun row => (row[i]?).bind CellKind.ofCell)

/-- puts a column at the end, or in place of one of its name -/
def addColumn (columns : List (String × CellKind)) (column : String × CellKind) : List (String × CellKind) :=
  if columns.any fun c => c.1 = column.1 then columns.map fun c => if c.1 = column.1 then column else c
  else columns ++ [column]

/-- the names and kinds of the columns that lines give; where a name is given twice in spite of all the last kind counts -/
def heading (first : List Char) (lines : List (List Char)) : List (String × CellKind) :=
  let names := namesOf first
  (names.zip (kindsOf names.length lines)).foldl addColumn []

/-! ## Rows -/

/-- the frame of rows under a heading; values that are not there are empty -/
def ofRows (heading : List (String × CellKind)) (rows : List (List CellValue)) : Frame where
  columns := heading.zipIdx.map fun c => (c.1.1, .ofValues c.1.2 (rows.map fun row => row.getD c.2 .empty))
  rows := rows.length
  even := by
    intro c h
    obtain ⟨_, -, rfl⟩ := List.mem_map.1 h
    simp

/-- passes over a mark of byte order -/
def withoutMark (text : List Char) : List Char :=
  if text.head? = some (Char.ofNat 0xFEFF) then text.tail else text

/-- the frame of a text. Ends of lines before the first line are passed over; where there is one column only they are
rows, and the first of them takes the place of the heading. A first line that does not end is a heading without rows -/
def ofText (text : String) : Except TextDefect Frame :=
  let text := text.toList
  if PriceFile.looksPacked text then .error .unreadable
  else
    let text := withoutMark text
    let (lines, last) := PriceFile.linesOf (text.dropWhile fun c => c = '\n' || c = '\r')
    match if last.isEmpty then lines else lines ++ [last] with
    | [] => .error .unreadable
    | first :: more => do
      let heading := heading first more
      let (lines, last) := if heading.length = 1 then PriceFile.linesOf text else (lines, last)
      let portions := if lines.isEmpty then [] else PriceFile.Portion.ofLines lines.tail last
      .ok (ofRows heading (← PriceFile.Portion.allRows (heading.map Prod.snd) portions))

/-! ## Prices -/

/-- columns with empty cells, and how many -/
def withEmpties (f : Frame) : List (String × Nat) :=
  (f.columns.map fun c => (c.1, c.2.empties)).filter fun e => 0 < e.2

/-- the first reason why a frame holds no prices -/
def check (f : Frame) (path : String) (leastRows : Nat) : Except FrameDefect Unit :=
  if f.columns.length < 2 then .error (.narrow f.columns.length)
  else
    match f.columns.find? fun c => !c.2.kind.isNumeric with
    | some (name, column) => .error (.notNumeric name column.kind)
    | none =>
      if f.rows < leastRows then .error (.short f.rows leastRows)
      else if f.withEmpties.isEmpty then .ok ()
      else .error (.empties path f.withEmpties)

/-- the dataset of a frame: time points in the first column, data in the others -/
def dataset (f : Frame) (name : String) : Except DatasetDefect Dataset :=
  match f.columns with
  | [] => .error (.noColumns name)
  | time :: data => Dataset.new name time.2.times (data.map fun c => c.2.values.toArray)

end Frame

end TradingRobots
