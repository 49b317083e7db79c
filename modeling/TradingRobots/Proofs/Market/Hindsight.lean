/-
Markets that agree up to a time show the same windows up to it.

Two datasets agree up to a time when they have the same cells at every time up to it; what comes later may differ, or
be missing in one of them. Their rows up to that time have the same positions, so a window at such a bar stands on the
same row, reaches back to the same cells and has the same change. The columns that are visible depend on the numbers
of columns only.

`Agree`: datasets agree up to a time, each with one of the other list.
`windows_alike`: at a bar up to the time the windows of two agreeing markets are alike.
-/
import TradingRobots.Proofs.Execution.Sight
import TradingRobots.Proofs.Market.Assembly
import TradingRobots.Proofs.Timeline.Shared

namespace TradingRobots

namespace Dataset

/-- the cells of a dataset at a time, column by column -/
def cellsAt? (d : Dataset) (time : Int) : Option (List (Option Float)) :=
  (d.times.idxOf? time).map fun row => d.columns.map fun column => column[row]?

/-- two datasets of one name and width have the same cells at every time up to a bound -/
structure AgreesUpTo (T : Int) (a b : Dataset) : Prop where
  name : a.name = b.name
  width : a.columns.length = b.columns.length
  cells : ∀ time, time ≤ T → a.cellsAt? time = b.cellsAt? time

variable {T : Int} {a b : Dataset}

theorem AgreesUpTo.symm (h : a.AgreesUpTo T b) : b.AgreesUpTo T a :=
  ⟨h.name.symm, h.width.symm, fun time ht => (h.cells time ht).symm⟩

theorem cellsAt?_eq_none_iff {time : Int} : a.cellsAt? time = none ↔ time ∉ a.times := by
  simp [cellsAt?]

theorem cellsAt?_of_getElem? {time : Int} {row : Nat} (h : a.times[row]? = some time) :
    a.cellsAt? time = some (a.columns.map fun column => column[row]?) := by
  obtain ⟨hrow, hat⟩ := List.getElem?_eq_some_iff.1 h
  have hindex : a.times.idxOf? time = some row := by
    refine List.idxOf?_eq_some_iff.2 ⟨hrow, hat, fun j hj hsame => ?_⟩
    have := List.pairwise_iff_getElem.1 a.ascending j row (hj.trans hrow) hrow hj
    omega
  rw [cellsAt?, hindex, Option.map_some]

/-- agreeing datasets have the same times up to the bound -/
theorem AgreesUpTo.shared (h : a.AgreesUpTo T b) : Timeline.Shared T a.times b.times := by
  intro time ht
  have := h.cells time ht
  rw [← not_iff_not, ← cellsAt?_eq_none_iff, ← cellsAt?_eq_none_iff, this]

/-- agreeing datasets have the same times at the same rows -/
theorem AgreesUpTo.getElem?_times (h : a.AgreesUpTo T b) {row : Nat} {time : Int} (ht : time ≤ T)
    (hrow : a.times[row]? = some time) : b.times[row]? = some time :=
  Timeline.getElem?_eq_of_shared a.ascending b.ascending h.shared hrow ht

/-- agreeing datasets have the same cells at a row up to the bound, and at every row before it -/
theorem AgreesUpTo.cells_at_row (h : a.AgreesUpTo T b) {row earlier : Nat} {time : Int} (ht : time ≤ T)
    (hrow : a.times[row]? = some time) (hle : earlier ≤ row) :
    (a.columns.map fun column => column[earlier]?) = b.columns.map fun column => column[earlier]? := by
  have hlength : earlier < a.times.length := by
    have := (List.getElem?_eq_some_iff.1 hrow).1
    omega
  have hearlier : a.times[earlier]? = some a.times[earlier] := List.getElem?_eq_getElem hlength
  have hbefore : a.times[earlier] ≤ T := by
    rcases Nat.lt_or_eq_of_le hle with hlt | rfl
    · have hlast := List.getElem?_eq_some_iff.1 hrow
      have := List.pairwise_iff_getElem.1 a.ascending earlier row hlength hlast.1 hlt
      rw [hlast.2] at this
      omega
    · rw [hearlier] at hrow
      cases hrow
      exact ht
  have hcells := h.cells _ hbefore
  rw [cellsAt?_of_getElem? hearlier, cellsAt?_of_getElem? (h.getElem?_times hbefore hearlier)] at hcells
  exact Option.some.inj hcells

/-- the cell of a column at a row, if there are both -/
theorem getElem?_cells (d : Dataset) (column row : Nat) :
    (d.columns.map fun cells => cells[row]?)[column]?.join = d.columns[column]?.bind fun cells => cells[row]? := by
  rw [List.getElem?_map]
  cases d.columns[column]? <;> rfl

theorem series_getElem? (d : Dataset) (row : Nat) :
    d.series[row]? = ((d.columns.map fun column => column[row]?).head?).join := by
  unfold series
  obtain ⟨name, times, columns, hsome, heven, hasc⟩ := d
  cases columns with
  | nil => exact absurd rfl hsome
  | cons first rest => rfl

/-- agreeing datasets have the same change at a row up to the bound -/
theorem AgreesUpTo.change? (h : a.AgreesUpTo T b) {row : Nat} {time : Int} (ht : time ≤ T)
    (hrow : a.times[row]? = some time) : a.change? row = b.change? row := by
  have hseries : ∀ earlier, earlier ≤ row → a.series[earlier]? = b.series[earlier]? := by
    intro earlier hle
    rw [series_getElem?, series_getElem?, h.cells_at_row ht hrow hle]
  simp only [Dataset.change?, hseries row (Nat.le_refl _), hseries (row - 1) (Nat.sub_le _ _)]

/-- the datasets of two lists agree up to a time, each with one of the other list -/
structure Agree (T : Int) (left right : List Dataset) : Prop where
  forth : ∀ a ∈ left, ∃ b ∈ right, AgreesUpTo T a b
  back : ∀ b ∈ right, ∃ a ∈ left, AgreesUpTo T a b

theorem Agree.symm {left right : List Dataset} (h : Agree T left right) : Agree T right left := by
  refine ⟨fun b hb => ?_, fun a ha => ?_⟩
  · obtain ⟨a, ha, hab⟩ := h.back b hb
    exact ⟨a, ha, hab.symm⟩
  · obtain ⟨b, hb, hab⟩ := h.forth a ha
    exact ⟨b, hb, hab.symm⟩

end Dataset

/-! ## Windows of agreeing markets -/

namespace Market

variable {T : Int} {left right : List Dataset} {settings : PopulationSettings} {m n : Market}

/-- the timelines of agreeing markets have the same points up to the time -/
theorem shared_points (hm : Built left settings m) (hn : Built right settings n) (h : Dataset.Agree T left right) :
    Timeline.Shared T m.timeline.points.toList n.timeline.points.toList := by
  intro time ht
  rw [hm.timeline, hn.timeline, Timeline.mem_points_ofDatasets, Timeline.mem_points_ofDatasets]
  constructor
  · rintro ⟨a, ha, hat⟩
    obtain ⟨b, hb, hab⟩ := h.forth a ha
    exact ⟨b, hb, (hab.shared time ht).1 hat⟩
  · rintro ⟨b, hb, hat⟩
    obtain ⟨a, ha, hab⟩ := h.back b hb
    exact ⟨a, ha, (hab.shared time ht).2 hat⟩

theorem names_eq (hm : Built left settings m) (hn : Built right settings n) (h : Dataset.Agree T left right) :
    m.sets.names = n.sets.names := by
  refine m.sets.names_ascending.eq_of_mem_iff n.sets.names_ascending fun name => ?_
  rw [hm.mem_names_iff, hn.mem_names_iff]
  constructor
  · rintro ⟨a, ha, rfl⟩
    obtain ⟨b, hb, hab⟩ := h.forth a ha
    exact ⟨b, hb, hab.name.symm⟩
  · rintro ⟨b, hb, rfl⟩
    obtain ⟨a, ha, hab⟩ := h.back b hb
    exact ⟨a, ha, hab.name⟩

theorem columnCount_le (hm : Built left settings m) (hn : Built right settings n) (h : Dataset.Agree T left right) :
    m.columnCount ≤ n.columnCount := by
  obtain ⟨b, hb, hcount⟩ := hn.columnCount_mem
  obtain ⟨a, ha, hab⟩ := h.back b hb
  rw [hcount, ← hab.width]
  exact hm.columnCount_le a ha

theorem columnCount_eq (hm : Built left settings m) (hn : Built right settings n) (h : Dataset.Agree T left right) :
    m.columnCount = n.columnCount :=
  Nat.le_antisymm (columnCount_le hm hn h) (columnCount_le hn hm h.symm)

/-- a row of a market up to the time is a row of the other, at the same position of an agreeing dataset -/
theorem row?_of_agree (hm : Built left settings m) (hn : Built right settings n) (h : Dataset.Agree T left right)
    {name : String} {bar row : Nat} {time : Int} (ht : time ≤ T) (hbar : m.timeline.get? bar = some time)
    {a : Dataset} (hrow : m.row? name bar = some (a, row)) :
    ∃ b, n.row? name bar = some (b, row) ∧ a.AgreesUpTo T b ∧ a.times[row]? = some time := by
  obtain ⟨⟨ha, hname⟩, time', hbar', hat⟩ := hm.row?_eq_some_iff.1 hrow
  have hsame : time' = time := by
    rw [hbar] at hbar'
    exact (Option.some.inj hbar').symm
  subst hsame
  obtain ⟨b, hb, hab⟩ := h.forth a ha
  refine ⟨b, hn.row?_eq_some_iff.2 ⟨⟨hb, hab.name ▸ hname⟩, time', ?_, hab.getElem?_times ht hat⟩, hab, hat⟩
  exact Timeline.get?_eq_of_shared (shared_points hm hn h) hbar ht

/-- the visible columns of a dataset are those after the ignored ones -/
theorem visibleColumns_getElem? (m : Market) (d : Dataset) (column : Nat) :
    (m.visibleColumns d)[column]? = if column < m.columnCount then d.columns[m.ignoredColumns + column]? else none := by
  simp [visibleColumns, List.getElem?_take, List.getElem?_drop]

theorem size_visibleColumns (m : Market) (d : Dataset) :
    (m.visibleColumns d).size = min m.columnCount (d.columns.length - m.ignoredColumns) := by
  simp [visibleColumns]

/-- windows on the same row of agreeing datasets are alike -/
theorem alike_of_agree (hm : Built left settings m) (hn : Built right settings n) (h : Dataset.Agree T left right)
    {a b : Dataset} (hab : a.AgreesUpTo T b) {row : Nat} {time : Int} (ht : time ≤ T)
    (hrow : a.times[row]? = some time) :
    Window.Alike ⟨m.visibleColumns a, row, m.maximumOffset, a.change? row⟩
      ⟨n.visibleColumns b, row, n.maximumOffset, b.change? row⟩ := by
  have hcount := columnCount_eq hm hn h
  have hignored : m.ignoredColumns = n.ignoredColumns := hm.ignoredColumns.trans hn.ignoredColumns.symm
  have hoffset : m.maximumOffset = n.maximumOffset := hm.maximumOffset.trans hn.maximumOffset.symm
  refine ⟨?_, rfl, hoffset, hab.change? ht hrow, fun column offset => ?_⟩
  · simp only [Window.columnCount, size_visibleColumns, hcount, hignored, hab.width]
  · have hcells := hab.cells_at_row ht hrow (Nat.sub_le row offset)
    have hcell := congrArg (fun cells => cells[m.ignoredColumns + column]?.join) hcells
    simp only [Dataset.getElem?_cells] at hcell
    rw [hignored] at hcell
    simp only [Window.read?_eq, Window.available, hoffset, visibleColumns_getElem?, hcount, hignored]
    by_cases hvisible : column < n.columnCount
    · simp only [hvisible, if_true, hcell]
    · simp only [hvisible, if_false]

/-- **At a bar up to the time the windows of agreeing markets are alike**, or both are missing. -/
theorem windows_alike (hm : Built left settings m) (hn : Built right settings n) (h : Dataset.Agree T left right)
    {bar : Nat} {time : Int} (ht : time ≤ T) (hbar : m.timeline.get? bar = some time) (name : String) :
    Option.Rel Window.Alike (m.window? name bar) (n.window? name bar) := by
  have hbar' : n.timeline.get? bar = some time := Timeline.get?_eq_of_shared (shared_points hm hn h) hbar ht
  unfold window?
  cases hrow : m.row? name bar with
  | some found =>
    obtain ⟨a, row⟩ := found
    obtain ⟨b, hrow', hab, hat⟩ := row?_of_agree hm hn h ht hbar hrow
    simp only [hrow', Option.bind_eq_bind, Option.bind_some]
    exact .some (alike_of_agree hm hn h hab ht hat)
  | none =>
    cases hrow' : n.row? name bar with
    | some found =>
      obtain ⟨b, row⟩ := found
      obtain ⟨a, hother, -⟩ := row?_of_agree hn hm h.symm ht hbar' hrow'
      rw [hrow] at hother
      cases hother
    | none => exact .none

end Market

end TradingRobots
