/-
The rows of a market's datasets, as a feed shows them.

A dataset has a row at a bar when it has the bar's time. The feed has a window there exactly then, and the window tells
the change of that row.

`Built.hasRow_iff`: windows are where rows are.
`Built.change?_of_rowAt`: the change of a window is that of its row.
`Built.rowAt_next`: a row with none between it and another is the row after that one.
-/
import TradingRobots.Proofs.Market.Assembly
import TradingRobots.Proofs.Timeline.Index

namespace TradingRobots

/-- the change of a dataset at a bar, as its window tells it -/
def Feed.change? (f : Feed) (name : String) (bar : Nat) : Option Float :=
  (f.window? name bar).bind Window.change

namespace Market

/-- the row of a dataset at a bar is the one with the bar's time -/
def RowAt (m : Market) (d : Dataset) (bar row : Nat) : Prop :=
  ∃ time, m.timeline.get? bar = some time ∧ d.times[row]? = some time

/-- a dataset has a row at a bar -/
def HasRow (m : Market) (d : Dataset) (bar : Nat) : Prop :=
  ∃ row, m.RowAt d bar row

variable {datasets : List Dataset} {settings : PopulationSettings} {m : Market} {d : Dataset} {bar row : Nat}

/-- a name stands for one dataset -/
theorem Built.eq_of_name_eq (h : Built datasets settings m) {d' : Dataset} (hd : d ∈ datasets) (hd' : d' ∈ datasets)
    (hname : d'.name = d.name) : d' = d := by
  have hfind := (h.sets d.name _).2 ⟨d, hd, rfl, rfl⟩
  have hfind' := (h.sets d.name _).2 ⟨d', hd', hname, rfl⟩
  rw [hfind] at hfind'
  exact (congrArg IndexedDataset.dataset (Option.some.inj hfind')).symm

theorem Built.row?_of_rowAt (h : Built datasets settings m) (hd : d ∈ datasets) (hrow : m.RowAt d bar row) :
    m.row? d.name bar = some (d, row) :=
  h.row?_eq_some_iff.2 ⟨⟨hd, rfl⟩, hrow⟩

/-- the feed has a window on a dataset where the dataset has a row -/
theorem Built.hasRow_iff (h : Built datasets settings m) (hd : d ∈ datasets) :
    m.HasRow d bar ↔ (m.feed.window? d.name bar).isSome = true := by
  show _ ↔ (m.window? d.name bar).isSome = true
  constructor
  · rintro ⟨row, hrow⟩
    simp [window?, h.row?_of_rowAt hd hrow]
  · intro hsome
    obtain ⟨w, hw⟩ := Option.isSome_iff_exists.1 hsome
    obtain ⟨⟨d', row⟩, hrow, -⟩ := Option.bind_eq_some_iff.1 hw
    obtain ⟨⟨hd', hname⟩, hat⟩ := h.row?_eq_some_iff.1 hrow
    rw [h.eq_of_name_eq hd hd' hname] at hat
    exact ⟨row, hat⟩

/-- the feed's change is that of the dataset's row -/
theorem Built.change?_of_rowAt (h : Built datasets settings m) (hd : d ∈ datasets) (hrow : m.RowAt d bar row) :
    m.feed.change? d.name bar = d.change? row := by
  show (m.window? d.name bar).bind Window.change = _
  simp [window?, h.row?_of_rowAt hd hrow]

/-! ## Rows in the order of bars -/

theorem rowAt_lt_iff {bar' row' : Nat} (hrow : m.RowAt d bar row) (hrow' : m.RowAt d bar' row') :
    bar < bar' ↔ row < row' :=
  Timeline.Stands.lt_iff d.ascending hrow hrow'

/-- every row stands at a bar -/
theorem Built.exists_rowAt (h : Built datasets settings m) (hd : d ∈ datasets) (hrow : row < d.times.length) :
    ∃ bar, m.RowAt d bar row := by
  have hon : d.times[row] ∈ m.timeline.points.toList := by
    rw [h.timeline, Timeline.mem_points_ofDatasets]
    exact ⟨d, hd, List.getElem_mem hrow⟩
  exact (Timeline.existsUnique_bar (List.getElem?_eq_getElem hrow) hon).exists

/-- **With no row between them, a row is the one after the other.** -/
theorem Built.rowAt_next (h : Built datasets settings m) (hd : d ∈ datasets) {earlier row' : Nat}
    (hrow : m.RowAt d earlier row) (hrow' : m.RowAt d bar row') (hlt : earlier < bar)
    (hclosest : ∀ other, earlier < other → other < bar → ¬m.HasRow d other) : row' = row + 1 := by
  have hlt' : row < row' := (rowAt_lt_iff hrow hrow').1 hlt
  by_contra hne
  have hlast : row' < d.times.length := by
    obtain ⟨time, -, htime⟩ := hrow'
    exact (List.getElem?_eq_some_iff.1 htime).1
  obtain ⟨between, hbetween⟩ := h.exists_rowAt hd (show row + 1 < d.times.length by omega)
  refine hclosest between ((rowAt_lt_iff hrow hbetween).2 (Nat.lt_succ_self row)) ?_ ⟨row + 1, hbetween⟩
  exact (rowAt_lt_iff hbetween hrow').2 (by omega)

theorem nodup_feed_names (m : Market) : m.feed.names.Nodup :=
  m.sets.names_ascending.imp fun h => String.ne_of_lt h

theorem Built.mem_feed_names (h : Built datasets settings m) (hd : d ∈ datasets) : d.name ∈ m.feed.names :=
  h.mem_names_iff.2 ⟨d, hd, rfl⟩

end Market

end TradingRobots
