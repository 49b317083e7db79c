/-
From the statements of a TOML document to its table.

While a document is read, a table remembers how it came to be, because that decides what may still be added: a table
that a header only passed through may get a header of its own later, one that dotted names made may not, and values are
closed. A name is given once.
-/
import TradingRobots.Toml.Value

namespace TradingRobots.Toml

/-- how a table came to be -/
inductive Origin where
  /-- a longer header passed through it -/
  | implied
  /-- by a header of its own -/
  | headed
  /-- by dotted names of an entry -/
  | dotted
deriving DecidableEq, Repr

/-- what a name stands for in a document half read -/
inductive Node where
  | value (v : Value)
  | table (origin : Origin) (entries : List (String × Node))
  /-- a list of tables, the latest first -/
  | tables (items : List Node)

abbrev Entries := List (String × Node)

namespace Entries

/-- puts a node in place of the one of that name -/
def set (name : String) (node : Node) (entries : Entries) : Entries :=
  entries.map fun e => if e.1 = name then (name, node) else e

/-- puts a value under dotted names; none of them may be taken, and no table on the way may have a header -/
def insert? : List String → Value → Entries → Option Entries
  | [], _, _ => none
  | [name], v, entries =>
    match entries.lookup name with
    | none => some (entries ++ [(name, .value v)])
    | some _ => none
  | name :: more, v, entries =>
    match entries.lookup name with
    | none => do some (entries ++ [(name, .table .dotted (← insert? more v []))])
    | some (.table origin inner) =>
      if origin = .headed then none
      else do some (set name (.table origin (← insert? more v inner)) entries)
    | some _ => none

/-- changes the table at a path, the latest one where the path meets a list of tables; tables missing on the way come
to be -/
def within? (change : Entries → Option Entries) : List String → Entries → Option Entries
  | [], entries => change entries
  | name :: more, entries =>
    match entries.lookup name with
    | none => do some (entries ++ [(name, .table .implied (← within? change more []))])
    | some (.table origin inner) => do some (set name (.table origin (← within? change more inner)) entries)
    | some (.tables (.table origin inner :: others)) => do
      some (set name (.tables (.table origin (← within? change more inner) :: others)) entries)
    | some _ => none

/-- gives a name its header -/
def openTable? (name : String) (entries : Entries) : Option Entries :=
  match entries.lookup name with
  | none => some (entries ++ [(name, .table .headed [])])
  | some (.table .implied inner) => some (set name (.table .headed inner) entries)
  | some _ => none

/-- begins a new table in the list of a name -/
def openItem? (name : String) (entries : Entries) : Option Entries :=
  match entries.lookup name with
  | none => some (entries ++ [(name, .tables [.table .headed []])])
  | some (.tables items) => some (set name (.tables (.table .headed [] :: items)) entries)
  | some _ => none

end Entries

mutual

def Node.close : Node → Value
  | .value v => v
  | .table _ entries => .table (closeEntries entries)
  | .tables items => .list (closeItems items).reverse

def closeEntries : Entries → List (String × Value)
  | [] => []
  | (name, node) :: rest => (name, node.close) :: closeEntries rest

def closeItems : List Node → List Value
  | [] => []
  | node :: rest => node.close :: closeItems rest

end

/-- a table given between braces, of names and values -/
def inlineTable? (fields : List (List String × Value)) : Option Value := do
  let entries ← fields.foldlM (fun entries f => Entries.insert? f.1 f.2 entries) ([] : Entries)
  some (.table (closeEntries entries))

/-- a document half read: the path of the latest header, and all tables so far -/
structure Draft where
  path : List String
  entries : Entries

namespace Draft

def add? (d : Draft) : Statement → Option Draft
  | .header path => do
    let name ← path.getLast?
    some ⟨path, ← Entries.within? (Entries.openTable? name) path.dropLast d.entries⟩
  | .itemHeader path => do
    let name ← path.getLast?
    some ⟨path, ← Entries.within? (Entries.openItem? name) path.dropLast d.entries⟩
  | .entry path v => do
    some { d with entries := ← Entries.within? (Entries.insert? path v) d.path d.entries }

end Draft

/-- the entries that the statements of a document make, if they agree -/
def ofStatements? (statements : List Statement) : Option (List (String × Value)) := do
  let d ← statements.foldlM Draft.add? ⟨[], []⟩
  some (closeEntries d.entries)

end TradingRobots.Toml
