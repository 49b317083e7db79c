/-
Market data. A `Feed` is what a run needs to know: the datasets, the number of bars and columns, and for each dataset and
bar a window on its history, if the dataset has a row there. `Market` holds datasets on a common timeline and answers as
a feed.
-/
import TradingRobots.NameTable
import TradingRobots.Settings
import TradingRobots.Timeline
import TradingRobots.Window

namespace TradingRobots

/-- what a run needs of market data -/
structure Feed where
  /-- the datasets, in the order they are processed -/
  names : List String
  barCount : Nat
  columnCount : Nat
  window? : String → Nat → Option Window
  /-- first and last bar between two optional times -/
  range? : Option Int → Option Int → Option (Nat × Nat)

/-- the range of a feed that knows no times: all its bars -/
def Feed.allBars (barCount : Nat) (_start _stop : Option Int) : Option (Nat × Nat) :=
  if barCount = 0 then none else some (0, barCount - 1)

/-- a dataset and the row it has at every bar -/
structure IndexedDataset where
  dataset : Dataset
  rows : Array (Option Nat)

/-- datasets on a common timeline -/
structure Market where
  sets : NameTable IndexedDataset
  timeline : Timeline
  ignoredColumns : Nat
  maximumOffset : Nat
  columnCount : Nat

/-- why datasets make no market -/
inductive MarketDefect where
  | noDatasets
  | allIgnored (name : String) (columns ignored : Nat)
  | duplicate (name : String)
deriving DecidableEq, Repr

def MarketDefect.message : MarketDefect → String
  | noDatasets => "No datasets loaded"
  | allIgnored name columns ignored =>
    "Dataset " ++ name ++ " has " ++ toString columns ++ " columns, all ignored (ignore_columns = " ++
      toString ignored ++ ")"
  | duplicate name => "Duplicate dataset name: " ++ name

namespace Market

/-- the smallest number of columns left of any dataset after the ignored ones -/
def usableColumns (ignored : Nat) : List Dataset → Except MarketDefect (Option Nat)
  | [] => .ok none
  | d :: rest =>
    let usable := d.columns.length - ignored
    if usable = 0 then .error (.allIgnored d.name d.columns.length ignored)
    else do
      let others ← usableColumns ignored rest
      .ok (some (others.elim usable (min usable)))

/-- puts datasets with their rows into a table, each name once -/
def collect : List (Dataset × Array (Option Nat)) → NameTable IndexedDataset →
    Except MarketDefect (NameTable IndexedDataset)
  | [], table => .ok table
  | (d, rows) :: rest, table =>
    if table.contains d.name then .error (.duplicate d.name)
    else collect rest (table.insert d.name ⟨d, rows⟩)

/-- the market of some datasets -/
def new (datasets : List Dataset) (settings : PopulationSettings) : Except MarketDefect Market := do
  match ← usableColumns settings.ignoredColumns datasets with
  | none => .error .noDatasets
  | some columnCount =>
    let index := TimelineIndex.ofDatasets datasets
    let sets ← collect (datasets.zip index.rows) .empty
    .ok ⟨sets, index.timeline, settings.ignoredColumns, settings.maximumOffset, columnCount⟩

def dataset? (m : Market) (name : String) : Option Dataset :=
  (m.sets.find? name).map IndexedDataset.dataset

/-- the dataset of a name and its row at a bar -/
def row? (m : Market) (name : String) (bar : Nat) : Option (Dataset × Nat) := do
  let set ← m.sets.find? name
  let row ← (set.rows[bar]?).join
  some (set.dataset, row)

/-- the columns that programs may see -/
def visibleColumns (m : Market) (d : Dataset) : Array (Array Float) :=
  ((d.columns.drop m.ignoredColumns).take m.columnCount).toArray

/-- the history of a dataset as seen from a bar -/
def window? (m : Market) (name : String) (bar : Nat) : Option Window := do
  let (d, row) ← m.row? name bar
  some ⟨m.visibleColumns d, row, m.maximumOffset, d.change? row⟩

/-- percent change of a dataset at a bar -/
def change? (m : Market) (name : String) (bar : Nat) : Option Float := do
  let (d, row) ← m.row? name bar
  d.change? row

def feed (m : Market) : Feed where
  names := m.sets.names
  barCount := m.timeline.size
  columnCount := m.columnCount
  window? := m.window?
  range? := m.timeline.range?

end Market

end TradingRobots
