/-
Columns of one kind, whose cells may be empty.

`length_ofValues`: a column has as many cells as it was made from.
-/
import TradingRobots.PriceFile.CellValue

namespace TradingRobots

/-- the cells of a column, from the first row on; whole numbers and decimals are of any width -/
inductive Column where
  | wholes (cells : List (Option Int))
  | reals (cells : List (Option Float))
  | truths (cells : List (Option Bool))
  | texts (cells : List (Option String))
deriving DecidableEq, Repr

namespace Column

def length : Column → Nat
  | wholes cells => cells.length
  | reals cells => cells.length
  | truths cells => cells.length
  | texts cells => cells.length

def kind : Column → CellKind
  | wholes _ => .whole
  | reals _ => .real
  | truths _ => .truth
  | texts _ => .text

/-- how many cells are empty -/
def empties : Column → Nat
  | wholes cells => cells.count none
  | reals cells => cells.countP Option.isNone
  | truths cells => cells.count none
  | texts cells => cells.count none

/-- a whole number as a time point, where the signed 64-bit range has it -/
def timePoint? (i : Int) : Option Int :=
  if -(2 ^ 63) ≤ i ∧ i < 2 ^ 63 then some i else none

/-- the cells as time points: decimals are cut off to whole numbers, and what has no time point is left out -/
def times : Column → List Int
  | wholes cells => cells.filterMap fun cell => cell.bind timePoint?
  | reals cells => cells.filterMap fun cell => cell.bind Binary64.truncated?
  | _ => []

/-- the cells as data; what has no number is left out -/
def values : Column → List Float
  | wholes cells => cells.filterMap fun cell => cell.map Binary64.ofWhole
  | reals cells => cells.filterMap id
  | _ => []

/-! ## Making -/

/-- the column of a kind with some values; what is of another kind is empty -/
def ofValues : CellKind → List CellValue → Column
  | .whole, values => wholes (values.map CellValue.whole?)
  | .real, values => reals (values.map CellValue.real?)
  | .truth, values => truths (values.map CellValue.truth?)
  | .text, values => texts (values.map CellValue.text?)

@[simp]
theorem length_ofValues (kind : CellKind) (values : List CellValue) : (ofValues kind values).length = values.length := by
  cases kind <;> simp [ofValues, length]

@[simp]
theorem kind_ofValues (kind : CellKind) (values : List CellValue) : (ofValues kind values).kind = kind := by
  cases kind <;> rfl

end Column

end TradingRobots
