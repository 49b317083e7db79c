/-
The searches on a timeline against a plain scan of its points.

A scan looks at one point after the other: `idxOf?` for the bar of a time, `findIdx?` for the first point not before it,
and `barsWithin` for all bars between two times. The points ascend, so what lies before a time is counted up to the
first point that does not, and the bars between two times follow each other without a gap.

`countBefore_eq_findIdx`: the points before a time are those before the first one that is not.
`bar?_eq_idxOf?`, `nearest?_eq_findIdx?`: the searches for one bar.
`range?_eq_some_iff`, `barsWithin_eq_nil_iff`: the search for a range.
`searches_scan`: all of them, on the timeline of any times.
-/
import TradingRobots.Proofs.Timeline.Range

namespace TradingRobots.Timeline

variable {t : Timeline} {start stop : Option Int}

/-! ## One bar -/

theorem getElem?_points (t : Timeline) (bar : Nat) : t.points.toList[bar]? = t.get? bar :=
  Array.getElem?_toList

/-- **The points before a time are those before the first one that is not.** -/
theorem countBefore_eq_findIdx (t : Timeline) (time : Int) :
    t.countBefore time = t.points.toList.findIdx (time ≤ ·) := by
  have hb := brackets_countBefore t time
  have hearlier : ∀ bar (hbar : bar < t.points.toList.length), bar < t.countBefore time →
      decide (time ≤ t.points.toList[bar]) = false := by
    intro bar hbar hlt
    have hholds := hb.before bar _ (by rw [← Array.getElem?_toList, List.getElem?_eq_getElem hbar]) hlt
    simp only [decide_eq_true_eq, decide_eq_false_iff_not] at hholds ⊢
    omega
  rcases Nat.lt_or_eq_of_le hb.within with hlt | hall
  · have hat : t.points[t.countBefore time]? = some t.points[t.countBefore time] := Array.getElem?_eq_getElem hlt
    have hfails := hb.after _ _ hat (Nat.le_refl _)
    refine ((List.findIdx_eq (by rwa [Array.length_toList])).2 ⟨?_, fun bar hbar => ?_⟩).symm
    · simp only [decide_eq_false_iff_not, Array.getElem_toList, decide_eq_true_eq] at hfails ⊢
      omega
    · exact hearlier bar _ hbar
  · rw [hall, ← Array.length_toList]
    refine (List.findIdx_eq_length.2 fun x hx => ?_).symm
    obtain ⟨bar, hbar, rfl⟩ := List.mem_iff_getElem.1 hx
    exact hearlier bar hbar (by rw [hall]; exact hbar)

/-- **The bar of a time is the place where a scan finds it.** -/
theorem bar?_eq_idxOf? (t : Timeline) (time : Int) : t.bar? time = t.points.toList.idxOf? time := by
  refine Option.ext fun bar => ?_
  rw [bar?_eq_some_iff, ← getElem?_points, List.idxOf?_eq_some_iff, List.getElem?_eq_some_iff]
  constructor
  · rintro ⟨hbar, rfl⟩
    refine ⟨hbar, rfl, fun earlier hlt => ?_⟩
    exact Int.ne_of_lt (List.pairwise_iff_getElem.1 t.ascending earlier bar (hlt.trans hbar) hbar hlt)
  · rintro ⟨hbar, hat, -⟩
    exact ⟨hbar, hat⟩

/-- **The nearest bar is the first one that a scan finds not before the time**, and the last one if there is none. -/
theorem nearest?_eq_findIdx? (t : Timeline) (time : Int) :
    t.nearest? time =
      if t.points.toList = [] then none
      else some ((t.points.toList.findIdx? (time ≤ ·)).getD (t.points.toList.length - 1)) := by
  have hempty : t.size = 0 ↔ t.points.toList = [] := by
    rw [← List.length_eq_zero_iff, Array.length_toList]
    rfl
  rw [nearest?, countBefore_eq_findIdx]
  by_cases hnone : t.points.toList = []
  · rw [if_pos (hempty.2 hnone), if_pos hnone]
  · rw [if_neg (mt hempty.1 hnone), if_neg hnone]
    have hsize : t.size = t.points.toList.length := Array.length_toList.symm
    cases hfind : t.points.toList.findIdx? (time ≤ ·) with
    | none =>
      have hlength : t.points.toList.findIdx (time ≤ ·) = t.points.toList.length :=
        List.findIdx_eq_length.2 (List.findIdx?_eq_none_iff.1 hfind)
      rw [hlength, hsize, Option.getD_none, Nat.min_eq_right (Nat.sub_le _ _)]
    | some bar =>
      obtain ⟨hbar, hfirst⟩ := List.findIdx?_eq_some_iff_findIdx_eq.1 hfind
      rw [hfirst, hsize, Option.getD_some, Nat.min_eq_left (by omega)]

/-! ## Ranges -/

/-- looks whether a time lies between two others, of which each limits only if it is given -/
def isWithin (start stop : Option Int) (time : Int) : Bool :=
  start.all (· ≤ time) && stop.all (time ≤ ·)

theorem isWithin_iff {time : Int} : isWithin start stop time = true ↔ Within start stop time := by
  unfold isWithin Within
  cases start <;> cases stop <;> simp

/-- all bars whose points lie between two times, from a scan -/
def barsWithin (t : Timeline) (start stop : Option Int) : List Nat :=
  (List.range t.points.toList.length).filter fun bar => t.points.toList[bar]?.any (isWithin start stop)

theorem pairwise_barsWithin (t : Timeline) (start stop : Option Int) : (t.barsWithin start stop).Pairwise (· < ·) :=
  List.pairwise_lt_range.filter _

theorem mem_barsWithin_iff {bar : Nat} :
    bar ∈ t.barsWithin start stop ↔ ∃ time, t.get? bar = some time ∧ Within start stop time := by
  rw [barsWithin, List.mem_filter, List.mem_range, Option.any_eq_true]
  simp only [isWithin_iff, getElem?_points]
  constructor
  · exact fun h => h.2
  · rintro ⟨time, hat, hwithin⟩
    exact ⟨(List.getElem?_eq_some_iff.1 ((getElem?_points t bar).trans hat)).1, time, hat, hwithin⟩

/-- **There is no range exactly when a scan finds no bar.** -/
theorem barsWithin_eq_nil_iff : t.barsWithin start stop = [] ↔ t.range? start stop = none := by
  rw [range?_eq_none_iff, List.eq_nil_iff_forall_not_mem]
  simp only [mem_barsWithin_iff]
  constructor
  · exact fun h bar time hat hwithin => h bar ⟨time, hat, hwithin⟩
  · rintro h bar ⟨time, hat, hwithin⟩
    exact h bar time hat hwithin

theorem barsWithin_of_range {first last : Nat} (h : t.range? start stop = some (first, last)) :
    t.barsWithin start stop = List.range' first (last + 1 - first) := by
  obtain ⟨-, -, -, -, -, -, hle⟩ := range?_eq_some h
  refine (t.pairwise_barsWithin start stop).eq_of_mem_iff List.pairwise_lt_range' fun bar => ?_
  rw [mem_barsWithin_iff, ← mem_range_iff h, List.mem_range'_1]
  omega

/-- **A range goes from the first to the last bar that a scan finds**, and has no other bars. -/
theorem range?_eq_some_iff {first last : Nat} : t.range? start stop = some (first, last) ↔
    first ≤ last ∧ t.barsWithin start stop = List.range' first (last + 1 - first) := by
  constructor
  · intro h
    obtain ⟨-, -, -, -, -, -, hle⟩ := range?_eq_some h
    exact ⟨hle, barsWithin_of_range h⟩
  · rintro ⟨hle, hbars⟩
    cases hrange : t.range? start stop with
    | none =>
      rw [barsWithin_eq_nil_iff.2 hrange, eq_comm, List.range'_eq_nil_iff] at hbars
      omega
    | some bounds =>
      obtain ⟨first', last'⟩ := bounds
      obtain ⟨-, -, -, -, -, -, hle'⟩ := range?_eq_some hrange
      rw [barsWithin_of_range hrange, List.range'_inj] at hbars
      rw [show first' = first by omega, show last' = last by omega]

/-- **The searches on a timeline find what a scan of its points finds**, for any times in any order.

The points are the times, ascending, each once. The bar of a time is the place of the point, and there is none if no
point has the time. The nearest bar is that of the first point at or after the time, or the last bar if all points lie
before it; only an empty timeline has none. The range between two times, of which each limits only if it is given, has
exactly the bars whose points lie between them, one after the other, and is missing exactly when no point does. -/
theorem searches_scan (times : List Int) :
    let t := ofTimes times
    let points := t.points.toList
    (points.Pairwise (· < ·) ∧ ∀ time, time ∈ points ↔ time ∈ times) ∧
    (∀ time, t.bar? time = points.idxOf? time ∧
      t.nearest? time =
        if points = [] then none else some ((points.findIdx? (time ≤ ·)).getD (points.length - 1))) ∧
    ∀ start stop, (t.range? start stop = none ↔ t.barsWithin start stop = []) ∧
      ∀ first last, t.range? start stop = some (first, last) ↔
        first ≤ last ∧ t.barsWithin start stop = List.range' first (last + 1 - first) := by
  intro t points
  refine ⟨⟨t.ascending, fun time => mem_points_ofTimes⟩, fun time => ?_, fun start stop => ?_⟩
  · exact ⟨t.bar?_eq_idxOf? time, t.nearest?_eq_findIdx? time⟩
  · exact ⟨barsWithin_eq_nil_iff.symm, fun first last => range?_eq_some_iff⟩

end TradingRobots.Timeline
