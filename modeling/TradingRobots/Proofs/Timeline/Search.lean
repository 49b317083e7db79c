/-
The searches on a timeline, and the rows that datasets have at its bars.

`Brackets` is the invariant of the search: the condition holds before the range that is left and fails after it. When
nothing is left, the search stands where the condition stops to hold; for the condition to lie before a point of the
timeline, that is the bar of the point.

`bar?_eq_some_iff`: the bar of a time is where the timeline has it.
`row_rowsOf_iff`: the row at a bar is the one with the bar's time.
-/
import TradingRobots.Timeline
import Mathlib.Tactic

namespace TradingRobots.Timeline

/-! ## The search -/

/-- the condition holds before a range and fails after it -/
structure Brackets (points : Array Int) (holds : Int → Bool) (low high : Nat) : Prop where
  order : low ≤ high
  within : high ≤ points.size
  before : ∀ i x, points[i]? = some x → i < low → holds x = true
  after : ∀ i x, points[i]? = some x → high ≤ i → holds x = false

/-- later points are greater -/
theorem lt_of_getElem?_lt {points : Array Int} (h : points.toList.Pairwise (· < ·)) {i j : Nat} {x y : Int}
    (hx : points[i]? = some x) (hy : points[j]? = some y) (hij : i < j) : x < y := by
  rw [← Array.getElem?_toList, List.getElem?_eq_some_iff] at hx hy
  obtain ⟨hi, rfl⟩ := hx
  obtain ⟨hj, rfl⟩ := hy
  exact List.pairwise_iff_getElem.1 h i j hi hj hij

theorem le_of_getElem?_le {points : Array Int} (h : points.toList.Pairwise (· < ·)) {i j : Nat} {x y : Int}
    (hx : points[i]? = some x) (hy : points[j]? = some y) (hij : i ≤ j) : x ≤ y := by
  rcases Nat.lt_or_eq_of_le hij with hlt | rfl
  · exact Int.le_of_lt (lt_of_getElem?_lt h hx hy hlt)
  · rw [hx] at hy
    cases hy
    exact Int.le_refl x

/-- the search ends where the condition stops to hold -/
theorem brackets_boundary {points : Array Int} {holds : Int → Bool} (h : points.toList.Pairwise (· < ·))
    (hdown : ∀ x y, x ≤ y → holds y = true → holds x = true) {low high : Nat} (hb : Brackets points holds low high) :
    Brackets points holds (boundary points holds low high) (boundary points holds low high) := by
  fun_induction boundary points holds low high with
  | case1 low high hlt middle hmiddle ih =>
    have hat : points[middle]? = some (points.getD middle 0) := by
      have := hb.within
      simp [Array.getD_eq_getD_getElem?, show middle < points.size by omega]
    refine ih ⟨by omega, hb.within, fun i x hx hi => ?_, hb.after⟩
    exact hdown x _ (le_of_getElem?_le h hx hat (by omega)) hmiddle
  | case2 low high hlt middle hmiddle ih =>
    have hat : points[middle]? = some (points.getD middle 0) := by
      have := hb.within
      simp [Array.getD_eq_getD_getElem?, show middle < points.size by omega]
    refine ih ⟨by omega, by have := hb.within; omega, hb.before, fun i x hx hi => ?_⟩
    cases hfail : holds x with
    | false => rfl
    | true => exact absurd (hdown _ x (le_of_getElem?_le h hat hx hi) hfail) hmiddle
  | case3 low high hdone =>
    have : high = low := by
      have := hb.order
      omega
    subst this
    exact hb

variable {t : Timeline}

theorem brackets_countBefore (t : Timeline) (time : Int) :
    Brackets t.points (fun p => p < time) (t.countBefore time) (t.countBefore time) :=
  brackets_boundary t.ascending (fun x y hxy hy => by simp only [decide_eq_true_eq] at hy ⊢; omega)
    ⟨Nat.zero_le _, Nat.le_refl _, fun _ _ _ hi => absurd hi (Nat.not_lt_zero _), fun i x hx hi => by
      rw [Array.getElem?_eq_none hi] at hx
      cases hx⟩

/-- as many points lie before a point as its bar says -/
theorem countBefore_of_get? {bar : Nat} {time : Int} (h : t.get? bar = some time) : t.countBefore time = bar := by
  have hb := brackets_countBefore t time
  rcases Nat.lt_trichotomy (t.countBefore time) bar with hlt | heq | hgt
  · have hin : t.countBefore time < t.points.size := by
      have := (Array.getElem?_eq_some_iff.1 h).1
      omega
    have hat : t.points[t.countBefore time]? = some t.points[t.countBefore time] := Array.getElem?_eq_getElem hin
    have hfail := hb.after _ _ hat (Nat.le_refl _)
    have := lt_of_getElem?_lt t.ascending hat h hlt
    simp only [decide_eq_false_iff_not] at hfail
    omega
  · exact heq
  · have := hb.before _ _ h hgt
    simp only [decide_eq_true_eq] at this
    omega

/-- **The bar of a time is where the timeline has it.** -/
theorem bar?_eq_some_iff {bar : Nat} {time : Int} : t.bar? time = some bar ↔ t.get? bar = some time := by
  unfold bar?
  constructor
  · intro h
    dsimp only at h
    split at h
    · rename_i hget
      cases h
      exact hget
    · cases h
  · intro h
    dsimp only
    rw [countBefore_of_get? h, if_pos h]

/-- a bar has one time, and a time one bar -/
theorem get?_injective {bar bar' : Nat} {time : Int} (h : t.get? bar = some time) (h' : t.get? bar' = some time) :
    bar = bar' := by
  rw [← countBefore_of_get? h, countBefore_of_get? h']

/-! ## The rows at the bars -/

/-- enters a row at the bar of its time -/
def enterRow (t : Timeline) (rows : Array (Option Nat)) (e : Int × Nat) : Array (Option Nat) :=
  match t.bar? e.1 with
  | some bar => rows.setIfInBounds bar (some e.2)
  | none => rows

theorem rowsOf_eq_foldl (times : List Int) :
    t.rowsOf times = times.zipIdx.foldl t.enterRow (Array.replicate t.size none) := rfl

theorem size_foldl_enterRow (entries : List (Int × Nat)) (rows : Array (Option Nat)) :
    (entries.foldl t.enterRow rows).size = rows.size := by
  induction entries generalizing rows with
  | nil => rfl
  | cons e rest ih =>
    rw [List.foldl_cons, ih, enterRow]
    split
    · rw [Array.size_setIfInBounds]
    · rfl

/-- what stands at a bar was there before, or was entered; what was entered is never taken back -/
theorem getElem?_foldl_enterRow {entries : List (Int × Nat)} {rows : Array (Option Nat)} {bar : Nat} {v : Option Nat}
    (h : (entries.foldl t.enterRow rows)[bar]? = some v) :
    (rows[bar]? = some v ∧ ∀ e ∈ entries, t.get? bar ≠ some e.1) ∨
      ∃ e ∈ entries, t.get? bar = some e.1 ∧ v = some e.2 := by
  induction entries generalizing rows with
  | nil => exact Or.inl ⟨h, by simp⟩
  | cons e rest ih =>
    rw [List.foldl_cons] at h
    rcases ih h with ⟨hrow, hlater⟩ | ⟨e', he', hat, hv⟩
    · by_cases hbar : t.get? bar = some e.1
      · have hentered : t.enterRow rows e = rows.setIfInBounds bar (some e.2) := by
          rw [enterRow, bar?_eq_some_iff.2 hbar]
        rw [hentered, Array.getElem?_setIfInBounds] at hrow
        simp only [if_true] at hrow
        split at hrow
        · cases hrow
          exact Or.inr ⟨e, List.mem_cons_self, hbar, rfl⟩
        · cases hrow
      · refine Or.inl ⟨?_, List.forall_mem_cons.2 ⟨hbar, hlater⟩⟩
        rw [enterRow] at hrow
        split at hrow
        · rename_i other hother
          have hne : other ≠ bar := by
            rintro rfl
            exact hbar (bar?_eq_some_iff.1 hother)
          rwa [Array.getElem?_setIfInBounds_ne hne] at hrow
        · exact hrow
    · exact Or.inr ⟨e', List.mem_cons_of_mem e he', hat, hv⟩

/-- **The row at a bar is the one with the bar's time.** -/
theorem row_rowsOf_iff {times : List Int} (hd : times.Nodup) {bar row : Nat} :
    ((t.rowsOf times)[bar]?).join = some row ↔ ∃ time, t.get? bar = some time ∧ times[row]? = some time := by
  rw [rowsOf_eq_foldl]
  constructor
  · intro h
    rw [Option.join_eq_some_iff] at h
    rcases getElem?_foldl_enterRow h with ⟨hblank, -⟩ | ⟨e, he, hat, hv⟩
    · rw [Array.getElem?_replicate] at hblank
      split at hblank
      · cases hblank
      · cases hblank
    · cases hv
      exact ⟨e.1, hat, (List.mem_zipIdx_iff_getElem?).1 he⟩
  · rintro ⟨time, hat, hrow⟩
    have hbar : bar < t.size := (Array.getElem?_eq_some_iff.1 hat).1
    have hsize : bar < (times.zipIdx.foldl t.enterRow (Array.replicate t.size none)).size := by
      rwa [size_foldl_enterRow, Array.size_replicate]
    have hin : (time, row) ∈ times.zipIdx := List.mem_zipIdx_iff_getElem?.2 hrow
    rcases getElem?_foldl_enterRow (Array.getElem?_eq_getElem hsize) with ⟨-, hnone⟩ | ⟨e, he, hat', hv⟩
    · exact absurd hat (hnone _ hin)
    · have htime : e.1 = time := by
        rw [hat] at hat'
        exact (Option.some.inj hat').symm
      have hsame : e.2 = row := by
        have hrow' := List.mem_zipIdx_iff_getElem?.1 he
        rw [htime] at hrow'
        exact (List.getElem?_inj (List.getElem?_eq_some_iff.1 hrow').1 hd).1 (hrow'.trans hrow.symm)
      rw [Array.getElem?_eq_getElem hsize, hv, hsame]
      rfl

/-! ## The points of a timeline -/

theorem mem_dropRepeats_iff {x : Int} {s : List Int} : x ∈ dropRepeats s ↔ x ∈ s := by
  refine ⟨mem_dropRepeats, fun h => ?_⟩
  fun_induction dropRepeats s with
  | case1 b rest ih =>
    rcases List.mem_cons.1 h with rfl | h
    · exact ih List.mem_cons_self
    · exact ih h
  | case2 a b rest ne ih =>
    rcases List.mem_cons.1 h with rfl | h
    · exact List.mem_cons_self
    · exact List.mem_cons_of_mem a (ih h)
  | case3 => exact h

/-- the points of a timeline are the times it was made of -/
theorem mem_points_ofTimes {times : List Int} {x : Int} : x ∈ (ofTimes times).points.toList ↔ x ∈ times := by
  show x ∈ dropRepeats (times.mergeSort (· ≤ ·)) ↔ x ∈ times
  rw [mem_dropRepeats_iff, List.mem_mergeSort]

/-- times that ascend strictly are the points already -/
theorem points_ofTimes {times : List Int} (h : times.Pairwise (· < ·)) : (ofTimes times).points.toList = times :=
  (ofTimes times).ascending.eq_of_mem_iff h fun _ => mem_points_ofTimes

theorem mem_points_ofDatasets {datasets : List Dataset} {x : Int} :
    x ∈ (ofDatasets datasets).points.toList ↔ ∃ d ∈ datasets, x ∈ d.times := by
  rw [ofDatasets, mem_points_ofTimes, List.mem_flatMap]

end TradingRobots.Timeline
