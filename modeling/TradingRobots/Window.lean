/-
The history of one dataset as seen from one of its rows. Offset 0 is the row itself, offset 1 the row before it, and so
on, up to the maximum offset and never before the first row.

`read?_eq_none`: an offset that is not available reads nothing.
-/
import TradingRobots.Number.Rounding

namespace TradingRobots

/-- columns of a dataset, oldest row first, seen from one row -/
structure Window where
  columns : Array (Array Float)
  row : Nat
  maximumOffset : Nat
  /-- percent change realized at the row, where it is known -/
  change : Option Float

namespace Window

def columnCount (w : Window) : Nat :=
  w.columns.size

/-- how many offsets reach data -/
def available (w : Window) : Nat :=
  min (w.row + 1) w.maximumOffset

/-- the next row can still be counted in a machine word -/
def hasNext (w : Window) : Bool :=
  w.row + 1 < 2 ^ 64

/-- the cell of a column so many rows back -/
def read? (w : Window) (column offset : Nat) : Option Float :=
  if offset < w.available then
    match w.columns[column]? with
    | some cells => cells[w.row - offset]?
    | none => none
  else none

theorem read?_eq_none (w : Window) (column offset : Nat) (h : w.available ≤ offset) :
    w.read? column offset = none := by
  simp [read?, Nat.not_lt.2 h]

end Window

end TradingRobots
