/-
The rows of datasets on their common timeline.

A row stands at the bar that has its time. Bars and rows both ascend with time, so the rows of a dataset stand at bars
in the same order, and a row stands at one bar only; since the timeline has every time of every dataset, it stands at
one.

`Stands.lt_iff`: bars are in the order of the rows that stand at them.
`existsUnique_bar`: a row whose time is on the timeline stands at exactly one bar.
`rows_ofDatasets`: an index lists for every dataset, bar by bar, the row that stands there.
-/
import TradingRobots.Proofs.Timeline.Search

namespace TradingRobots

namespace Timeline

/-- a row of a list of times stands at a bar when it has the bar's time -/
def Stands (t : Timeline) (times : List Int) (bar row : Nat) : Prop :=
  ∃ time, t.get? bar = some time ∧ times[row]? = some time

variable {t : Timeline} {times : List Int} {bar bar' row row' : Nat}

/-- **Bars are in the order of the rows that stand at them.** -/
theorem Stands.lt_iff (h : times.Pairwise (· < ·)) (hrow : t.Stands times bar row) (hrow' : t.Stands times bar' row') :
    bar < bar' ↔ row < row' := by
  obtain ⟨time, hbar, htime⟩ := hrow
  obtain ⟨time', hbar', htime'⟩ := hrow'
  have hrows : times.toArray.toList.Pairwise (· < ·) := h
  rw [← List.getElem?_toArray] at htime htime'
  constructor
  · intro hlt
    by_contra hge
    have hback := le_of_getElem?_le hrows htime' htime (Nat.not_lt.1 hge)
    exact absurd (lt_of_getElem?_lt t.ascending hbar hbar' hlt) (Int.not_lt.2 hback)
  · intro hlt
    by_contra hge
    have hback := le_of_getElem?_le t.ascending hbar' hbar (Nat.not_lt.1 hge)
    exact absurd (lt_of_getElem?_lt hrows htime htime' hlt) (Int.not_lt.2 hback)

/-- **A row whose time is on the timeline stands at exactly one bar.** -/
theorem existsUnique_bar {time : Int} (hrow : times[row]? = some time) (hon : time ∈ t.points.toList) :
    ∃! bar, t.Stands times bar row := by
  obtain ⟨bar, hbar⟩ := List.mem_iff_getElem?.1 hon
  rw [Array.getElem?_toList] at hbar
  refine ⟨bar, ⟨time, hbar, hrow⟩, ?_⟩
  rintro bar' ⟨time', hbar', hrow'⟩
  rw [hrow] at hrow'
  cases hrow'
  exact get?_injective hbar' hbar

theorem size_rowsOf (t : Timeline) (times : List Int) : (t.rowsOf times).size = t.size := by
  rw [rowsOf_eq_foldl, size_foldl_enterRow, Array.size_replicate]

/-- the row entered at a bar is the one that stands there -/
theorem getElem?_rowsOf_iff (h : times.Pairwise (· < ·)) :
    (t.rowsOf times)[bar]? = some (some row) ↔ t.Stands times bar row := by
  rw [← Option.join_eq_some_iff]
  exact row_rowsOf_iff (h.imp Int.ne_of_lt)

end Timeline

/-- **An index lists for every dataset, bar by bar, the row that stands there.** -/
theorem TimelineIndex.rows_ofDatasets {datasets : List Dataset} {k : Nat} {d : Dataset} (h : datasets[k]? = some d) :
    (ofDatasets datasets).rows[k]? = some ((Timeline.ofDatasets datasets).rowsOf d.times) := by
  simp [ofDatasets, h]

end TradingRobots
