/-
What a market shows of its datasets.

A window stands on the row that has its bar's time, and shows the visible columns of that row and of those before it, as
far back as the maximum offset goes. So every cell that a window can be asked for is a cell of the dataset, and all it
refuses lies outside the columns, before the first row or beyond the offset.

`Built.window?_of_rowAt`: the window on a row.
`Built.read?_windowOn`: a window reads the cells of its dataset.
`index_shows_rows`: the timeline, the rows at its bars, and the windows on them, for any datasets.
-/
import TradingRobots.Proofs.Market.Hindsight
import TradingRobots.Proofs.Market.Rows

namespace TradingRobots.Market

variable {datasets : List Dataset} {settings : PopulationSettings} {m : Market} {d : Dataset} {bar row : Nat}

/-- the window that a market shows on a row of a dataset -/
def windowOn (m : Market) (d : Dataset) (row : Nat) : Window :=
  ⟨m.visibleColumns d, row, m.maximumOffset, d.change? row⟩

theorem Built.window?_of_rowAt (h : Built datasets settings m) (hd : d ∈ datasets) (hrow : m.RowAt d bar row) :
    m.window? d.name bar = some (m.windowOn d row) := by
  simp [window?, h.row?_of_rowAt hd hrow, windowOn]

/-- a market has a window where the dataset of the name has a row -/
theorem Built.window?_isSome_iff (h : Built datasets settings m) {name : String} :
    (m.window? name bar).isSome = true ↔ ∃ d ∈ datasets, d.name = name ∧ m.HasRow d bar := by
  constructor
  · intro hsome
    obtain ⟨w, hw⟩ := Option.isSome_iff_exists.1 hsome
    obtain ⟨⟨d, row⟩, hrow, -⟩ := Option.bind_eq_some_iff.1 hw
    obtain ⟨⟨hd, hname⟩, hat⟩ := h.row?_eq_some_iff.1 hrow
    exact ⟨d, hd, hname, row, hat⟩
  · rintro ⟨d, hd, rfl, row, hrow⟩
    rw [h.window?_of_rowAt hd hrow]
    rfl

theorem Built.available_windowOn (h : Built datasets settings m) :
    (m.windowOn d row).available = min (row + 1) settings.maximumOffset := by
  rw [Window.available, windowOn, h.maximumOffset]

/-- a visible column is a column of the dataset, with a cell for each of its rows -/
theorem Built.visible_column (h : Built datasets settings m) (hd : d ∈ datasets) {column : Nat}
    (hcolumn : column < m.columnCount) :
    ∃ cells, d.columns[settings.ignoredColumns + column]? = some cells ∧ cells.size = d.rowCount ∧
      (m.visibleColumns d)[column]? = some cells := by
  have hleft := h.columnCount_le d hd
  have hin : settings.ignoredColumns + column < d.columns.length := by omega
  refine ⟨_, List.getElem?_eq_getElem hin, d.even _ (List.getElem_mem hin), ?_⟩
  rw [visibleColumns_getElem?, if_pos hcolumn, h.ignoredColumns, List.getElem?_eq_getElem hin]

/-- **A window reads the cells of its dataset**, so many rows back, at visible columns and offsets at hand. -/
theorem Built.read?_windowOn (h : Built datasets settings m) (hd : d ∈ datasets) (hrow : row < d.rowCount)
    {column offset : Nat} (hcolumn : column < m.columnCount) (hoffset : offset < min (row + 1) settings.maximumOffset) :
    ∃ cells x, d.columns[settings.ignoredColumns + column]? = some cells ∧ cells[row - offset]? = some x ∧
      (m.windowOn d row).read? column offset = some x := by
  obtain ⟨cells, hcells, hsize, hvisible⟩ := h.visible_column hd hcolumn
  have hin : row - offset < cells.size := by omega
  refine ⟨cells, cells[row - offset], hcells, Array.getElem?_eq_getElem hin, ?_⟩
  rw [Window.read?_eq, h.available_windowOn, if_pos hoffset]
  show ((m.visibleColumns d)[column]?).bind (fun cells => cells[row - offset]?) = _
  rw [hvisible]
  exact Array.getElem?_eq_getElem hin

/-- beyond them it reads nothing -/
theorem Built.read?_windowOn_eq_none (h : Built datasets settings m) {column offset : Nat}
    (hout : ¬(column < m.columnCount ∧ offset < min (row + 1) settings.maximumOffset)) :
    (m.windowOn d row).read? column offset = none := by
  rw [Window.read?_eq, h.available_windowOn]
  by_cases hoffset : offset < min (row + 1) settings.maximumOffset
  · rw [if_pos hoffset]
    show ((m.visibleColumns d)[column]?).bind (fun cells => cells[row - offset]?) = _
    rw [visibleColumns_getElem?, if_neg fun hcolumn => hout ⟨hcolumn, hoffset⟩]
    rfl
  · rw [if_neg hoffset]

/-- **An index and its market show the rows of their datasets**, for any datasets.

The timeline ascends strictly and has exactly the times of all datasets. For every dataset the index lists, bar by bar,
the row with the bar's time, so every row stands at exactly one bar, and bars are in the order of their rows. A market
of the datasets has a window under a name and at a bar exactly where the dataset of the name has a row; the window reads
something exactly at a visible column and an offset that reaches neither before the first row nor up to the maximum
offset, and that is the cell so many rows back in the column after the ignored ones. -/
theorem index_shows_rows (datasets : List Dataset) :
    let index := TimelineIndex.ofDatasets datasets
    (index.timeline = .ofTimes (datasets.flatMap Dataset.times) ∧
      index.timeline.points.toList.Pairwise (· < ·) ∧
      ∀ time, time ∈ index.timeline.points.toList ↔ ∃ d ∈ datasets, time ∈ d.times) ∧
    (index.rows.length = datasets.length ∧
      ∀ (k : Nat) (d : Dataset), datasets[k]? = some d →
        ∃ rows : Array (Option Nat), index.rows[k]? = some rows ∧ rows.size = index.timeline.size ∧
        (∀ bar row : Nat, rows[bar]? = some (some row) ↔
          ∃ time, index.timeline.get? bar = some time ∧ d.times[row]? = some time) ∧
        (∀ row, row < d.rowCount → ∃! bar : Nat, rows[bar]? = some (some row)) ∧
        ∀ bar bar' row row' : Nat, rows[bar]? = some (some row) → rows[bar']? = some (some row') →
          (bar < bar' ↔ row < row')) ∧
    ∀ settings m, Market.new datasets settings = .ok m → m.timeline = index.timeline ∧
      (∀ name bar, (m.window? name bar).isSome = true ↔ ∃ d ∈ datasets, d.name = name ∧
        ∃ (row : Nat) (time : Int), index.timeline.get? bar = some time ∧ d.times[row]? = some time) ∧
      ∀ d ∈ datasets, ∀ (bar row : Nat) (time : Int),
        index.timeline.get? bar = some time → d.times[row]? = some time →
        ∃ w, m.window? d.name bar = some w ∧ ∀ column offset,
          ((w.read? column offset).isSome = true ↔
            column < m.columnCount ∧ offset < min (row + 1) settings.maximumOffset) ∧
          ∀ x, w.read? column offset = some x → ∃ cells,
            d.columns[settings.ignoredColumns + column]? = some cells ∧ cells[row - offset]? = some x := by
  intro index
  refine ⟨⟨rfl, index.timeline.ascending, fun time => Timeline.mem_points_ofDatasets⟩, ⟨?_, ?_⟩, ?_⟩
  · exact List.length_map _
  · intro k d hk
    have hrows : ∀ bar row, ((index.timeline.rowsOf d.times)[bar]? = some (some row) ↔
        index.timeline.Stands d.times bar row) := fun bar row => Timeline.getElem?_rowsOf_iff d.ascending
    refine ⟨_, TimelineIndex.rows_ofDatasets hk, Timeline.size_rowsOf _ _, hrows, ?_, ?_⟩
    · intro row hrow
      have hon : d.times[row] ∈ index.timeline.points.toList :=
        Timeline.mem_points_ofDatasets.2 ⟨d, List.mem_of_getElem? hk, List.getElem_mem hrow⟩
      exact (existsUnique_congr fun bar => hrows bar row).2
        (Timeline.existsUnique_bar (List.getElem?_eq_getElem hrow) hon)
    · intro bar bar' row row' hrow hrow'
      exact Timeline.Stands.lt_iff d.ascending ((hrows bar row).1 hrow) ((hrows bar' row').1 hrow')
  · intro settings m hm
    have hbuilt := built_of_new hm
    have hline : m.timeline = index.timeline := hbuilt.timeline
    refine ⟨hline, ?_, ?_⟩
    · intro name bar
      rw [hbuilt.window?_isSome_iff, ← hline]
      rfl
    · intro d hd bar row time hbar hrow
      have hin : row < d.rowCount := (List.getElem?_eq_some_iff.1 hrow).1
      refine ⟨_, hbuilt.window?_of_rowAt hd ⟨time, hline ▸ hbar, hrow⟩, fun column offset => ?_⟩
      by_cases hreach : column < m.columnCount ∧ offset < min (row + 1) settings.maximumOffset
      · obtain ⟨cells, x, hcells, hx, hread⟩ := hbuilt.read?_windowOn hd hin hreach.1 hreach.2
        rw [hread]
        refine ⟨⟨fun _ => hreach, fun _ => rfl⟩, ?_⟩
        rintro y ⟨⟩
        exact ⟨cells, hcells, hx⟩
      · rw [hbuilt.read?_windowOn_eq_none hreach]
        exact ⟨⟨nofun, fun h => absurd h hreach⟩, nofun⟩

/-- a dataset on the days 1, 3 and 5, with one column to ignore -/
def oddDays : Dataset :=
  ⟨"odd", [1, 3, 5], [#[9.0, 9.0, 9.0], #[1.0, 2.0, 4.0]], by decide, by decide, by decide⟩

/-- a dataset on the days 2, 3 and 6, with a column more -/
def mixedDays : Dataset :=
  ⟨"mixed", [2, 3, 6], [#[9.0, 9.0, 9.0], #[5.0, 7.0, 8.0], #[0.0, 0.0, 0.0]], by decide, by decide, by decide⟩

/-- on their common timeline the second dataset has its second row at the third bar, and its window there reads two rows
of one column -/
theorem index_shows_rows_mixed :
    let settings : PopulationSettings := { ignoredColumns := 1, maximumOffset := 4 }
    ∃ m, Market.new [oddDays, mixedDays] settings = .ok m ∧ m.columnCount = 1 ∧
      (TimelineIndex.ofDatasets [oddDays, mixedDays]).timeline.get? 2 = some 3 ∧ mixedDays.times[1]? = some 3 ∧
      ∃ w, m.window? "mixed" 2 = some w ∧ w.read? 0 1 = some 5.0 ∧ w.read? 0 2 = none ∧ w.read? 1 0 = none := by
  intro settings
  obtain ⟨m, hm, hcount⟩ : ∃ m, Market.new [oddDays, mixedDays] settings = .ok m ∧ m.columnCount = 1 :=
    ⟨_, rfl, rfl⟩
  have hpoints : (Timeline.ofDatasets [oddDays, mixedDays]).points.toList = [1, 2, 3, 5, 6] := by
    refine (Timeline.ofDatasets [oddDays, mixedDays]).ascending.eq_of_mem_iff (by decide) fun x => ?_
    rw [Timeline.mem_points_ofDatasets]
    simp only [oddDays, mixedDays, List.mem_cons, List.not_mem_nil, or_false, exists_eq_or_imp, exists_eq_left]
    omega
  have hbar : (TimelineIndex.ofDatasets [oddDays, mixedDays]).timeline.get? 2 = some 3 := by
    show (Timeline.ofDatasets [oddDays, mixedDays]).points[2]? = _
    rw [← Array.getElem?_toList, hpoints]
    rfl
  obtain ⟨w, hw, hread⟩ := ((index_shows_rows [oddDays, mixedDays]).2.2 settings m hm).2.2 mixedDays
    (List.mem_cons_of_mem _ (List.mem_singleton_self _)) 2 1 3 hbar rfl
  refine ⟨m, hm, hcount, hbar, rfl, w, hw, ?_, ?_, ?_⟩
  · obtain ⟨x, hx⟩ := Option.isSome_iff_exists.1 ((hread 0 1).1.2 (by rw [hcount]; decide))
    obtain ⟨cells, hcells, hcell⟩ := (hread 0 1).2 x hx
    cases hcells
    cases hcell
    exact hx
  · have hnot := mt (hread 0 2).1.1 (by rw [hcount]; decide)
    simpa using hnot
  · have hnot := mt (hread 1 0).1.1 (by rw [hcount]; decide)
    simpa using hnot

end TradingRobots.Market
