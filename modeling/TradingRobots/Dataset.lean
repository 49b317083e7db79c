/-
Datasets: the time points of one market and its columns of numbers, row by row. The type holds what every dataset keeps:
at least one column, columns as long as the time points, and time points that ascend strictly.

`Dataset.new` builds one from loose parts or gives the first thing wrong with them.
-/
import TradingRobots.Number.Binary64

namespace TradingRobots

structure Dataset where
  name : String
  times : List Int
  columns : List (Array Float)
  some_column : columns ≠ []
  even : ∀ c ∈ columns, c.size = times.length
  ascending : times.Pairwise (· < ·)

/-- what is wrong with the parts of a dataset -/
inductive DatasetDefect where
  | noColumns (name : String)
  | uneven (name : String) (column rows expected : Nat)
  | disorder (name : String) (row : Nat)
deriving DecidableEq, Repr

def DatasetDefect.message : DatasetDefect → String
  | noColumns name => "Dataset " ++ name ++ " has no data columns"
  | uneven name column rows expected =>
    "Dataset " ++ name ++ ": column " ++ toString column ++ " has " ++ toString rows ++ " rows, expected " ++
      toString expected
  | disorder name row =>
    "Dataset " ++ name ++ ": time points must be strictly ascending (row " ++ toString row ++ ")"

namespace Dataset

/-- the first row whose time is not after the one before, counted from the row of the list's head -/
def disorder? : Nat → List Int → Option Nat
  | row, a :: b :: rest => if a < b then disorder? (row + 1) (b :: rest) else some (row + 1)
  | _, _ => none

theorem ascending_of_disorder? {row : Nat} {times : List Int} (h : disorder? row times = none) :
    times.Pairwise (· < ·) := by
  induction times generalizing row with
  | nil => exact .nil
  | cons a rest ih =>
    cases rest with
    | nil => simp
    | cons b rest =>
      simp only [disorder?] at h
      split at h
      next lt =>
        have tail := ih h
        refine List.pairwise_cons.2 ⟨fun x hx => ?_, tail⟩
        rcases List.mem_cons.1 hx with hx | hx
        · rw [hx]; exact lt
        · exact Int.lt_trans lt ((List.pairwise_cons.1 tail).1 x hx)
      next => simp at h

/-- the first column that does not have so many rows, with its position and its rows -/
def unevenFrom? (rows : Nat) : Nat → List (Array Float) → Option (Nat × Nat)
  | _, [] => none
  | position, c :: rest => if c.size = rows then unevenFrom? rows (position + 1) rest else some (position, c.size)

theorem even_of_unevenFrom? {rows position : Nat} {columns : List (Array Float)}
    (h : unevenFrom? rows position columns = none) : ∀ c ∈ columns, c.size = rows := by
  induction columns generalizing position with
  | nil => simp
  | cons c rest ih =>
    simp only [unevenFrom?] at h
    split at h
    next eq =>
      intro d hd
      rcases List.mem_cons.1 hd with hd | hd
      · rw [hd]; exact eq
      · exact ih h d hd
    next => simp at h

/-- a dataset of the parts, or the first thing wrong with them -/
def new (name : String) (times : List Int) (columns : List (Array Float)) : Except DatasetDefect Dataset :=
  if hs : columns = [] then .error (.noColumns name)
  else
    match he : unevenFrom? times.length 0 columns with
    | some (column, rows) => .error (.uneven name column rows times.length)
    | none =>
      match ha : disorder? 0 times with
      | some row => .error (.disorder name row)
      | none => .ok ⟨name, times, columns, hs, even_of_unevenFrom? he, ascending_of_disorder? ha⟩

def rowCount (d : Dataset) : Nat :=
  d.times.length

/-- the first column -/
def series (d : Dataset) : Array Float :=
  d.columns.head d.some_column

/-- percent change of the first column against the row before, where that makes a finite number -/
def change? (d : Dataset) (row : Nat) : Option Float := do
  if row = 0 then none
  else
    let previous ← d.series[row - 1]?
    let current ← d.series[row]?
    if previous == 0.0 then none
    else
      let change := (current - previous) / previous * 100.0
      if change.isFinite then some change else none

end Dataset

end TradingRobots
