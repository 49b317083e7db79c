/-
TOML values: scalars, lists and tables. A date or a time is kept as its text.

A document is a list of statements, one to a line: headers, which say what table the entries after them belong to, and
entries. Scalars and statements are written by `Scalar.text` and `Statement.text`.
-/
import TradingRobots.Number.Text

namespace TradingRobots.Toml

inductive Scalar where
  | flag (b : Bool)
  | whole (i : Int)
  | real (x : Float)
  | text (s : String)
deriving DecidableEq, Repr

/-- a value; the entries of a table are in the order they were first named -/
inductive Value where
  | scalar (s : Scalar)
  | list (items : List Value)
  | table (entries : List (String × Value))
  /-- a place in a list that was passed over when a later one was given; no document holds one -/
  | gap

/-- one line of a document; names of tables within tables form a path -/
inductive Statement where
  | header (path : List String)
  /-- begins a new table at the end of a list of tables -/
  | itemHeader (path : List String)
  | entry (path : List String) (value : Value)

/-- a character between quotation marks -/
def escape (c : Char) : String :=
  if c = '"' then "\\\"" else if c = '\\' then "\\\\" else c.toString

def Scalar.written : Scalar → String
  | flag b => if b then "true" else "false"
  | whole i => toString i
  | real x => Number.saved.text x
  | text s => "\"" ++ String.join (s.toList.map escape) ++ "\""

/-- the line of an entry -/
def entryLine (name : String) (value : Scalar) : String :=
  name ++ " = " ++ value.written ++ "\n"

/-- a section: its header and its entries -/
def sectionText (name : String) (entries : List (String × Scalar)) : String :=
  "[" ++ name ++ "]\n" ++ String.join (entries.map fun e => entryLine e.1 e.2)

end TradingRobots.Toml
