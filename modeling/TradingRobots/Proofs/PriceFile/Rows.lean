/-
Rows of a frame and rows of its dataset.

The cells of a column become time points or data one by one, and what a cell does not give is left out. So a list is as
long as its column only if every cell gave something, and then rows of one number belong together. In a frame that passes
the check every data cell gives a number. A time out of range leaves fewer time points than data, and so no dataset.

`getElem?_times`, `getElem?_values`: the rows of a list that is as long as its column.
`Dataset.new_eq_ok_iff`: a dataset is made of its parts, and of nothing else.
`rows_of_dataset`, `dataset_of_misfit`, `dataset_of_timed`: what becomes of a frame that passes the check.
`load_rows`: the rows of a dataset that was loaded are rows of its file.
`dataset_keeps_rows`: rows never slip.
-/
import Mathlib.Logic.Basic
import TradingRobots.PriceFile

namespace TradingRobots

/-! ## What is kept of a list -/

/-- where nothing is left out, positions stay -/
theorem getElem?_filterMap {α β : Type} {f : α → Option β} {xs : List α} (h : (xs.filterMap f).length = xs.length)
    (i : Nat) : (xs.filterMap f)[i]? = xs[i]?.bind f := by
  rw [List.filterMap_length_eq_length] at h
  induction xs generalizing i with
  | nil => rfl
  | cons x rest ih =>
    obtain ⟨y, hy⟩ := Option.isSome_iff_exists.1 (h x List.mem_cons_self)
    rw [List.filterMap_cons_some hy]
    cases i with
    | zero => exact hy.symm
    | succ i => exact ih (fun z hz => h z (List.mem_cons_of_mem x hz)) i

theorem length_filterMap_iff {α β : Type} {f : α → Option β} {xs : List α} :
    (xs.filterMap f).length = xs.length ↔ ∀ i < xs.length, (xs[i]?.bind f).isSome = true := by
  rw [List.filterMap_length_eq_length]
  constructor
  · intro h i hi
    rw [List.getElem?_eq_getElem hi]
    exact h _ (List.getElem_mem hi)
  · intro h x hx
    obtain ⟨i, hi, rfl⟩ := List.mem_iff_getElem.1 hx
    have := h i hi
    rwa [List.getElem?_eq_getElem hi] at this

/-! ## Cells of a column -/

namespace Column

/-- the time point that the cell in a row gives -/
def timeAt? : Column → Nat → Option Int
  | wholes cells, row => cells[row]?.bind fun cell => cell.bind timePoint?
  | reals cells, row => cells[row]?.bind fun cell => cell.bind Binary64.truncated?
  | _, _ => none

/-- the number that the cell in a row gives -/
def valueAt? : Column → Nat → Option Float
  | wholes cells, row => cells[row]?.bind fun cell => cell.map Binary64.ofWhole
  | reals cells, row => cells[row]?.bind id
  | _, _ => none

variable {c : Column}

theorem timePoint?_range {i t : Int} (h : timePoint? i = some t) : -(2 ^ 63) ≤ t ∧ t < 2 ^ 63 := by
  unfold timePoint? at h
  split at h
  next hrange => exact Option.some.inj h ▸ hrange
  next => cases h

theorem truncated?_range {x : Float} {t : Int} (h : Binary64.truncated? x = some t) : -(2 ^ 63) ≤ t ∧ t < 2 ^ 63 := by
  unfold Binary64.truncated? at h
  split at h
  next => cases h
  next =>
    exact timePoint?_range h

/-- a time point is a whole number of the signed 64-bit range -/
theorem timeAt?_range {row : Nat} {t : Int} (h : c.timeAt? row = some t) : -(2 ^ 63) ≤ t ∧ t < 2 ^ 63 := by
  cases c with
  | wholes cells =>
    obtain ⟨cell, -, hcell⟩ := Option.bind_eq_some_iff.1 h
    obtain ⟨i, -, hi⟩ := Option.bind_eq_some_iff.1 hcell
    exact timePoint?_range hi
  | reals cells =>
    obtain ⟨cell, -, hcell⟩ := Option.bind_eq_some_iff.1 h
    obtain ⟨x, -, hx⟩ := Option.bind_eq_some_iff.1 hcell
    exact truncated?_range hx
  | _ => cases h

/-- **No time is left out** of a column of numbers just when every cell gives one. -/
theorem length_times_iff (hnumeric : c.kind.isNumeric = true) :
    c.times.length = c.length ↔ ∀ row < c.length, (c.timeAt? row).isSome = true := by
  cases c with
  | wholes cells => exact length_filterMap_iff
  | reals cells => exact length_filterMap_iff
  | _ => cases hnumeric

theorem length_times_le : c.times.length ≤ c.length := by
  cases c with
  | wholes cells => exact List.length_filterMap_le _ _
  | reals cells => exact List.length_filterMap_le _ _
  | _ => exact Nat.zero_le _

theorem getElem?_times (h : c.times.length = c.length) (row : Nat) : c.times[row]? = c.timeAt? row := by
  cases c with
  | wholes cells => exact getElem?_filterMap h row
  | reals cells => exact getElem?_filterMap h row
  | _ => rfl

theorem getElem?_values (h : c.values.length = c.length) (row : Nat) : c.values[row]? = c.valueAt? row := by
  cases c with
  | wholes cells => exact getElem?_filterMap h row
  | reals cells => exact getElem?_filterMap h row
  | _ => rfl

/-- **No number is left out** of a column of numbers without empty cells. -/
theorem length_values (hnumeric : c.kind.isNumeric = true) (hfull : c.empties = 0) : c.values.length = c.length := by
  cases c with
  | wholes cells =>
    refine List.filterMap_length_eq_length.2 fun cell hcell => ?_
    cases cell with
    | none => exact absurd hcell (List.count_eq_zero.1 hfull)
    | some i => rfl
  | reals cells =>
    refine List.filterMap_length_eq_length.2 fun cell hcell => ?_
    have hsome := List.countP_eq_zero.1 hfull cell hcell
    cases cell with
    | none => exact absurd rfl hsome
    | some x => rfl
  | _ => cases hnumeric

end Column

/-! ## Parts of a dataset -/

namespace Dataset

theorem unevenFrom?_eq_none {rows position : Nat} {columns : List (Array Float)} (h : ∀ c ∈ columns, c.size = rows) :
    unevenFrom? rows position columns = none := by
  induction columns generalizing position with
  | nil => rfl
  | cons c rest ih =>
    obtain ⟨hfirst, hrest⟩ := List.forall_mem_cons.1 h
    rw [unevenFrom?, if_pos hfirst]
    exact ih hrest

theorem disorder?_eq_none {row : Nat} {times : List Int} (h : times.Pairwise (· < ·)) : disorder? row times = none := by
  induction times generalizing row with
  | nil => rfl
  | cons a rest ih =>
    cases rest with
    | nil => rfl
    | cons b rest =>
      obtain ⟨hfirst, hrest⟩ := List.pairwise_cons.1 h
      rw [disorder?, if_pos (hfirst b List.mem_cons_self)]
      exact ih hrest

theorem new_of_uneven {name : String} {times : List Int} {c : Array Float} {rest : List (Array Float)}
    (h : c.size ≠ times.length) :
    Dataset.new name times (c :: rest) = .error (.uneven name 0 c.size times.length) := by
  have hfirst : unevenFrom? times.length 0 (c :: rest) = some (0, c.size) := by rw [unevenFrom?, if_neg h]
  unfold Dataset.new
  rw [dif_neg (List.cons_ne_nil c rest)]
  split
  next hcolumn =>
    rw [hfirst] at hcolumn
    cases hcolumn
    rfl
  next hnone => rw [hfirst] at hnone; cases hnone

/-- **A dataset is made of its parts.** -/
theorem new_eq_ok_iff {name : String} {times : List Int} {columns : List (Array Float)} {d : Dataset} :
    Dataset.new name times columns = .ok d ↔ d.name = name ∧ d.times = times ∧ d.columns = columns := by
  constructor
  · intro h
    unfold Dataset.new at h
    split at h
    next => cases h
    next =>
      split at h
      next => cases h
      next =>
        split at h
        next => cases h
        next =>
          cases h
          exact ⟨rfl, rfl, rfl⟩
  · rintro ⟨rfl, rfl, rfl⟩
    unfold Dataset.new
    rw [dif_neg d.some_column]
    split
    next hcolumn => rw [unevenFrom?_eq_none d.even] at hcolumn; cases hcolumn
    next =>
      split
      next hrow => rw [disorder?_eq_none d.ascending] at hrow; cases hrow
      next => rfl

end Dataset

/-! ## Frames that pass the check -/

namespace Frame

variable {f : Frame} {path name : String} {leastRows : Nat} {d : Dataset}

/-- the time point in a row: the first column gives it -/
def timeAt? (f : Frame) (row : Nat) : Option Int :=
  f.columns.head?.bind fun c => c.2.timeAt? row

/-- the number in a column and a row -/
def valueAt? (f : Frame) (column row : Nat) : Option Float :=
  f.columns[column]?.bind fun c => c.2.valueAt? row

theorem withEmpties_eq_nil_iff : f.withEmpties = [] ↔ ∀ c ∈ f.columns, c.2.empties = 0 := by
  rw [withEmpties, List.filter_eq_nil_iff, List.forall_mem_map]
  exact forall₂_congr fun c _ => by simp

/-- **What the check lets through**: two columns or more, all of numbers, and enough rows without an empty cell. -/
theorem check_eq_ok_iff :
    f.check path leastRows = .ok () ↔
      2 ≤ f.columns.length ∧ (∀ c ∈ f.columns, c.2.kind.isNumeric = true) ∧ leastRows ≤ f.rows ∧
        ∀ c ∈ f.columns, c.2.empties = 0 := by
  rw [← withEmpties_eq_nil_iff, ← List.isEmpty_iff]
  unfold check
  split
  next hnarrow => exact ⟨nofun, fun h => absurd h.1 (Nat.not_le.2 hnarrow)⟩
  next hwide =>
    split
    next label column hfound =>
      refine ⟨nofun, fun h => ?_⟩
      have hkind := List.find?_some hfound
      rw [h.2.1 _ (List.mem_of_find?_eq_some hfound)] at hkind
      cases hkind
    next hnone =>
      have hnumeric : ∀ c ∈ f.columns, c.2.kind.isNumeric = true := by
        intro c hc
        simpa using List.find?_eq_none.1 hnone c hc
      split
      next hshort => exact ⟨nofun, fun h => absurd h.2.2.1 (Nat.not_le.2 hshort)⟩
      next hlong =>
        split
        next hfull => exact ⟨fun _ => ⟨Nat.not_lt.1 hwide, hnumeric, Nat.not_lt.1 hlong, hfull⟩, fun _ => rfl⟩
        next hempties => exact ⟨nofun, fun h => absurd h.2.2.2 hempties⟩

/-- a dataset with the rows of a frame: the times of the first column, the numbers of the others -/
structure SameRows (f : Frame) (d : Dataset) : Prop where
  rowCount : d.rowCount = f.rows
  width : d.columns.length + 1 = f.columns.length
  time : ∀ row, d.times[row]? = f.timeAt? row
  value : ∀ column row, (d.columns[column]?.bind fun numbers => numbers[row]?) = f.valueAt? (column + 1) row

/-- a frame with a time in every row, each later than those before it -/
structure Timed (f : Frame) : Prop where
  fits : ∀ row < f.rows, (f.timeAt? row).isSome = true
  ascending : ∀ i j s t, i < j → f.timeAt? i = some s → f.timeAt? j = some t → s < t

/-- the columns of a frame that passes the check: one of times, and some whose every row is a number -/
theorem columns_of_check (hcheck : f.check path leastRows = .ok ()) :
    ∃ time data, f.columns = time :: data ∧ data ≠ [] ∧ time.2.kind.isNumeric = true ∧ time.2.length = f.rows ∧
      ∀ c ∈ data, c.2.length = f.rows ∧ c.2.values.length = c.2.length := by
  obtain ⟨hwide, hnumeric, -, hfull⟩ := check_eq_ok_iff.1 hcheck
  have heven := f.even
  cases hcolumns : f.columns with
  | nil =>
    rw [hcolumns] at hwide
    cases hwide
  | cons time data =>
    rw [hcolumns] at hwide hnumeric hfull heven
    refine ⟨time, data, rfl, ?_, hnumeric time List.mem_cons_self, heven time List.mem_cons_self, fun c hc => ?_⟩
    · rintro rfl
      exact absurd hwide (Nat.not_succ_le_self 1)
    · have hmember := List.mem_cons_of_mem time hc
      exact ⟨heven c hmember, Column.length_values (hnumeric c hmember) (hfull c hmember)⟩

theorem dataset_eq {time : String × Column} {data : List (String × Column)} (h : f.columns = time :: data) :
    f.dataset name = Dataset.new name time.2.times (data.map fun c => c.2.values.toArray) := by
  rw [dataset, h]

/-- **Every time and every number of a dataset comes from the frame's row of the same number.** -/
theorem rows_of_dataset (hcheck : f.check path leastRows = .ok ()) (h : f.dataset name = .ok d) : f.SameRows d := by
  obtain ⟨time, data, hcolumns, hsome, hnumeric, htime, hdata⟩ := columns_of_check hcheck
  rw [dataset_eq hcolumns, Dataset.new_eq_ok_iff] at h
  obtain ⟨-, htimes, hvalues⟩ := h
  have hcount : d.times.length = f.rows := by
    obtain ⟨first, rest, rfl⟩ := List.exists_cons_of_ne_nil hsome
    have heven := d.even first.2.values.toArray (by rw [hvalues]; exact List.mem_cons_self)
    obtain ⟨hrows, hlength⟩ := hdata first List.mem_cons_self
    rw [← heven, List.size_toArray, hlength, hrows]
  constructor
  · exact hcount
  · rw [hvalues, hcolumns, List.length_map, List.length_cons]
  · intro row
    have hall : time.2.times.length = time.2.length := by rw [← htimes, hcount, htime]
    rw [htimes, timeAt?, hcolumns]
    exact Column.getElem?_times hall row
  · intro column row
    rw [hvalues, valueAt?, hcolumns, List.getElem?_cons_succ, List.getElem?_map]
    cases hcolumn : data[column]? with
    | none => rfl
    | some c =>
      show c.2.values.toArray[row]? = c.2.valueAt? row
      rw [List.getElem?_toArray]
      exact Column.getElem?_values (hdata c (List.mem_of_getElem? hcolumn)).2 row

/-- **A time out of range leaves the times too short.** -/
theorem dataset_of_misfit (hcheck : f.check path leastRows = .ok ()) {row : Nat} (hrow : row < f.rows)
    (hmisfit : f.timeAt? row = none) : ∃ kept < f.rows, f.dataset name = .error (.uneven name 0 f.rows kept) := by
  obtain ⟨time, data, hcolumns, hsome, hnumeric, htime, hdata⟩ := columns_of_check hcheck
  have hshort : time.2.times.length < f.rows := by
    refine Nat.lt_of_le_of_ne (htime ▸ Column.length_times_le) fun hall => ?_
    have hfits := (Column.length_times_iff hnumeric).1 (hall.trans htime.symm) row (htime.symm ▸ hrow)
    rw [timeAt?, hcolumns] at hmisfit
    rw [show time.2.timeAt? row = none from hmisfit] at hfits
    cases hfits
  refine ⟨time.2.times.length, hshort, ?_⟩
  obtain ⟨first, rest, rfl⟩ := List.exists_cons_of_ne_nil hsome
  have hsize : first.2.values.toArray.size = f.rows := by
    obtain ⟨hrows, hlength⟩ := hdata first List.mem_cons_self
    rw [List.size_toArray, hlength, hrows]
  rw [dataset_eq hcolumns, List.map_cons]
  exact hsize ▸ Dataset.new_of_uneven (hsize ▸ (Nat.ne_of_lt hshort).symm)

/-- **A frame whose every row has a time, each later than those before it, is a dataset.** -/
theorem dataset_of_timed (hcheck : f.check path leastRows = .ok ()) (h : f.Timed) :
    ∃ d, f.dataset name = .ok d := by
  obtain ⟨time, data, hcolumns, hsome, hnumeric, htime, hdata⟩ := columns_of_check hcheck
  have hat : ∀ row, f.timeAt? row = time.2.timeAt? row := fun row => by rw [timeAt?, hcolumns]; rfl
  have hall : time.2.times.length = time.2.length :=
    (Column.length_times_iff hnumeric).2 fun row hrow => hat row ▸ h.fits row (htime ▸ hrow)
  have hascending : time.2.times.Pairwise (· < ·) := by
    refine List.pairwise_iff_getElem.2 fun i j hi hj hij => ?_
    have hfirst : f.timeAt? i = some time.2.times[i] := by
      rw [hat, ← Column.getElem?_times hall, List.getElem?_eq_getElem hi]
    have hsecond : f.timeAt? j = some time.2.times[j] := by
      rw [hat, ← Column.getElem?_times hall, List.getElem?_eq_getElem hj]
    exact h.ascending i j _ _ hij hfirst hsecond
  have heven : ∀ c ∈ data.map fun c => c.2.values.toArray, c.size = time.2.times.length := by
    refine List.forall_mem_map.2 fun c hc => ?_
    obtain ⟨hrows, hlength⟩ := hdata c hc
    rw [List.size_toArray, hlength, hrows, hall, htime]
  refine ⟨⟨name, time.2.times, _, fun hnone => hsome (List.map_eq_nil_iff.1 hnone), heven, hascending⟩, ?_⟩
  rw [dataset_eq hcolumns, Dataset.new_eq_ok_iff]
  exact ⟨rfl, rfl, rfl⟩

theorem SameRows.timed (h : f.SameRows d) : f.Timed where
  fits row hrow := by
    have hlength : row < d.times.length := Nat.lt_of_lt_of_eq hrow h.rowCount.symm
    rw [← h.time, List.getElem?_eq_getElem hlength]
    rfl
  ascending i j s t hij hs ht := by
    rw [← h.time] at hs ht
    obtain ⟨hi, rfl⟩ := List.getElem?_eq_some_iff.1 hs
    obtain ⟨hj, rfl⟩ := List.getElem?_eq_some_iff.1 ht
    exact List.pairwise_iff_getElem.1 d.ascending i j hi hj hij

theorem SameRows.range (h : f.SameRows d) {t : Int} (ht : t ∈ d.times) : -(2 ^ 63) ≤ t ∧ t < 2 ^ 63 := by
  obtain ⟨row, hrow⟩ := List.getElem?_of_mem ht
  rw [h.time, timeAt?] at hrow
  obtain ⟨c, -, hc⟩ := Option.bind_eq_some_iff.1 hrow
  exact Column.timeAt?_range hc

/-- **Rows never slip.** A dataset that a checked frame becomes has the frame's rows, each time and each number in its own; a
time out of range makes it no dataset; and it becomes one exactly when every row has a time and the times ascend. -/
theorem dataset_keeps_rows (hcheck : f.check path leastRows = .ok ()) (name : String) :
    (∀ d, f.dataset name = .ok d →
      f.SameRows d ∧ d.times.Pairwise (· < ·) ∧ (∀ t ∈ d.times, -(2 ^ 63) ≤ t ∧ t < 2 ^ 63) ∧
        ∀ c ∈ d.columns, c.size = d.rowCount) ∧
    (∀ row < f.rows, f.timeAt? row = none →
      ∃ kept < f.rows, f.dataset name = .error (.uneven name 0 f.rows kept)) ∧
    ((∃ d, f.dataset name = .ok d) ↔ f.Timed) := by
  refine ⟨fun d h => ?_, fun row hrow hmisfit => dataset_of_misfit hcheck hrow hmisfit, ?_, dataset_of_timed hcheck⟩
  · have hrows := rows_of_dataset hcheck h
    exact ⟨hrows, d.ascending, fun t ht => hrows.range ht, d.even⟩
  · rintro ⟨d, h⟩
    exact (rows_of_dataset hcheck h).timed

/-- two rows with a number of decimals and a whole one -/
def twoRows : Frame where
  columns := [("time", .wholes [some 7, some 8]), ("close", .reals [some 1.5, some 2.5]),
    ("volume", .wholes [some 3, some (2 ^ 64 - 1)])]
  rows := 2
  even := by simp [Column.length]

/-- rows whose second time has no place in a signed word -/
def lateRow : Frame where
  columns := [("time", .wholes [some 7, some (2 ^ 63)]), ("close", .reals [some 1.5, some 2.5])]
  rows := 2
  even := by simp [Column.length]

theorem dataset_keeps_rows_twoRows :
    (∃ d, twoRows.dataset "prices" = .ok d ∧ twoRows.SameRows d) ∧
      ∃ kept < 2, lateRow.dataset "prices" = .error (.uneven "prices" 0 2 kept) := by
  have hmade : (twoRows.dataset "prices").isOk = true := by decide
  have htwo : twoRows.check "prices.csv" 2 = .ok () := rfl
  have hlate : lateRow.check "prices.csv" 2 = .ok () := rfl
  refine ⟨?_, (dataset_keeps_rows hlate "prices").2.1 1 (by decide) (by decide)⟩
  cases h : twoRows.dataset "prices" with
  | error defect =>
    rw [h] at hmade
    cases hmade
  | ok d => exact ⟨d, rfl, ((dataset_keeps_rows htwo "prices").1 d h).1⟩

end Frame

/-! ## Files -/

/-- **The rows of a dataset that was loaded are the rows of its file.** -/
theorem PriceFile.load_rows {disk : Disk} {path : String} {leastRows : Nat} {d : Dataset}
    (h : load disk path leastRows = .ok d) :
    ∃ text f, disk.findExpanded? path = some (.file text) ∧ Frame.ofText text = .ok f ∧ f.SameRows d := by
  unfold load at h
  split at h
  next => cases h
  next => cases h
  next text hfound =>
    unfold ofText at h
    split at h
    next => cases h
    next f hframe =>
      split at h
      next => cases h
      next hcheck =>
        split at h
        next => cases h
        next made hmade =>
          cases h
          exact ⟨text, f, hfound, hframe, Frame.rows_of_dataset hcheck hmade⟩

end TradingRobots
