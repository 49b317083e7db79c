/-
The timeline of several datasets: all their time points, ascending, each once. A bar is a position on it.

The searches halve the range that is left; `boundary` finds where a condition that holds up to some point stops to hold,
and exact search, nearest bar and range of bars are made from it.
-/
import TradingRobots.Dataset

namespace TradingRobots

/-- time points in strictly ascending order -/
structure Timeline where
  points : Array Int
  ascending : points.toList.Pairwise (· < ·)

namespace Timeline

/-- drops repetitions of a sorted list -/
def dropRepeats : List Int → List Int
  | a :: b :: rest => if a = b then dropRepeats (b :: rest) else a :: dropRepeats (b :: rest)
  | s => s

theorem mem_dropRepeats {x : Int} {s : List Int} (h : x ∈ dropRepeats s) : x ∈ s := by
  fun_induction dropRepeats s with
  | case1 b rest ih => exact List.mem_cons_of_mem _ (ih h)
  | case2 a b rest ne ih =>
    rcases List.mem_cons.1 h with h | h
    · simp [h]
    · exact List.mem_cons_of_mem _ (ih h)
  | case3 => exact h

theorem ascending_dropRepeats {s : List Int} (h : s.Pairwise (· ≤ ·)) : (dropRepeats s).Pairwise (· < ·) := by
  fun_induction dropRepeats s with
  | case1 b rest ih => exact ih (List.pairwise_cons.1 h).2
  | case2 a b rest ne ih =>
    obtain ⟨below, tail⟩ := List.pairwise_cons.1 h
    refine List.pairwise_cons.2 ⟨fun x hx => ?_, ih tail⟩
    have hb := below b (by simp)
    rcases List.mem_cons.1 (mem_dropRepeats hx) with hx | hx
    · omega
    · have := (List.pairwise_cons.1 tail).1 x hx
      omega
  | case3 s other =>
    match s, other with
    | [], _ => simp
    | [a], _ => simp
    | a :: b :: rest, other => exact absurd rfl (other a b rest)

/-- the time points of a list, in any order and repeated -/
def ofTimes (times : List Int) : Timeline where
  points := (dropRepeats (times.mergeSort (· ≤ ·))).toArray
  ascending := by
    have sorted : (times.mergeSort (· ≤ ·)).Pairwise fun a b => decide (a ≤ b) = true :=
      List.pairwise_mergeSort (fun a b c => by simpa using Int.le_trans)
        (fun a b => by simpa using Int.le_total a b) times
    exact ascending_dropRepeats (sorted.imp fun h => by simpa using h)

def size (t : Timeline) : Nat :=
  t.points.size

def get? (t : Timeline) (bar : Nat) : Option Int :=
  t.points[bar]?

def first? (t : Timeline) : Option Int :=
  t.get? 0

def last? (t : Timeline) : Option Int :=
  t.points.back?

/-- the first position from low on where the condition fails, up to high; it holds before low and fails from high on -/
def boundary (points : Array Int) (holds : Int → Bool) (low high : Nat) : Nat :=
  if h : low < high then
    let middle := (low + high) / 2
    if holds (points.getD middle 0) then boundary points holds (middle + 1) high
    else boundary points holds low middle
  else low
termination_by high - low

/-- how many points lie before a time -/
def countBefore (t : Timeline) (time : Int) : Nat :=
  boundary t.points (fun p => p < time) 0 t.size

/-- how many points lie at or before a time -/
def countUpTo (t : Timeline) (time : Int) : Nat :=
  boundary t.points (fun p => p ≤ time) 0 t.size

/-- the bar of a time point -/
def bar? (t : Timeline) (time : Int) : Option Nat :=
  let bar := t.countBefore time
  if t.get? bar = some time then some bar else none

/-- the first bar at or after a time, the last one past the end -/
def nearest? (t : Timeline) (time : Int) : Option Nat :=
  if t.size = 0 then none else some (min (t.countBefore time) (t.size - 1))

/-- first and last bar between two times, both included; a bound that is not given does not limit -/
def range? (t : Timeline) (start stop : Option Int) : Option (Nat × Nat) := do
  let first ← t.first?
  let last ← t.last?
  let start := max (start.getD first) first
  let stop := min (stop.getD last) last
  if stop < start then none
  else
    let opening := t.countBefore start
    let upTo := t.countUpTo stop
    if upTo = 0 then none
    else if opening ≤ upTo - 1 then some (opening, upTo - 1)
    else none

/-- for every bar the row of a list of time points that stands at it -/
def rowsOf (t : Timeline) (times : List Int) : Array (Option Nat) :=
  (times.zipIdx).foldl
    (fun rows e =>
      match t.bar? e.1 with
      | some bar => rows.setIfInBounds bar (some e.2)
      | none => rows)
    (Array.replicate t.size none)

/-- the timeline of datasets -/
def ofDatasets (datasets : List Dataset) : Timeline :=
  .ofTimes (datasets.flatMap Dataset.times)

end Timeline

/-- a timeline, and for each dataset the row at every bar -/
structure TimelineIndex where
  timeline : Timeline
  rows : List (Array (Option Nat))

def TimelineIndex.ofDatasets (datasets : List Dataset) : TimelineIndex :=
  let timeline := Timeline.ofDatasets datasets
  ⟨timeline, datasets.map fun d => timeline.rowsOf d.times⟩

end TradingRobots
