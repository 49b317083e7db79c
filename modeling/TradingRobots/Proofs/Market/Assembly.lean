/-
What a market is made of.

`Built` says all that assembling a market gives: the common timeline, the least number of columns that any dataset
leaves visible, and under each dataset's name the dataset with its rows at the bars. Everything that is read from a
market later follows from these clauses.

`built_of_new`: a market that was assembled is built.
`Built.row?_eq_some_iff`: the row of a dataset at a bar is the one with the bar's time.
-/
import TradingRobots.Market
import TradingRobots.Proofs.Timeline.Search

namespace TradingRobots

/-! ## Tables -/

theorem NameTable.mem_names_iff {α : Type} {t : NameTable α} {name : String} :
    name ∈ t.names ↔ ∃ v, t.find? name = some v := by
  unfold names find?
  induction t.entries with
  | nil => simp
  | cons e rest ih =>
    rw [List.map_cons, List.mem_cons, ih, lookup_cons]
    by_cases h : name = e.1
    · simp [h]
    · simp [h]

theorem NameTable.names_ascending {α : Type} (t : NameTable α) : t.names.Pairwise (· < ·) :=
  List.pairwise_map.2 t.ascending

/-- a step that passed, and the rest of the check after it -/
theorem Except.bind_eq_ok_iff {ε α β : Type} {x : Except ε α} {f : α → Except ε β} {b : β} :
    (x >>= f) = .ok b ↔ ∃ a, x = .ok a ∧ f a = .ok b := by
  cases x with
  | error e => exact ⟨fun h => (nomatch h), fun ⟨_, h, _⟩ => (nomatch h)⟩
  | ok a =>
    constructor
    · exact fun h => ⟨a, rfl, h⟩
    · rintro ⟨a, h, hf⟩
      cases h
      exact hf

namespace Market

/-! ## Columns and sets -/

/-- only without datasets is there no number of visible columns -/
theorem usableColumns_eq_none {ignored : Nat} {datasets : List Dataset}
    (h : usableColumns ignored datasets = .ok none) : datasets = [] := by
  cases datasets with
  | nil => rfl
  | cons d rest =>
    simp only [usableColumns] at h
    split at h
    · cases h
    · obtain ⟨others, -, h⟩ := Except.bind_eq_ok_iff.1 h
      cases h

/-- as many columns are visible as the dataset with the fewest leaves -/
theorem usableColumns_eq_some {ignored count : Nat} {datasets : List Dataset}
    (h : usableColumns ignored datasets = .ok (some count)) :
    0 < count ∧ (∃ d ∈ datasets, count = d.columns.length - ignored) ∧
      ∀ d ∈ datasets, count ≤ d.columns.length - ignored := by
  induction datasets generalizing count with
  | nil => cases h
  | cons d rest ih =>
    simp only [usableColumns] at h
    split at h
    · cases h
    · rename_i husable
      obtain ⟨others, hrest, h⟩ := Except.bind_eq_ok_iff.1 h
      cases h
      cases others with
      | none =>
        rw [usableColumns_eq_none hrest]
        simp only [Option.elim, List.mem_singleton, exists_eq_left, forall_eq, Nat.le_refl, and_self, and_true]
        omega
      | some least =>
        obtain ⟨hpos, ⟨x, hx, hleast⟩, hle⟩ := ih hrest
        simp only [Option.elim]
        refine ⟨by omega, ?_, ?_⟩
        · rcases Nat.le_total (d.columns.length - ignored) least with hmin | hmin
          · exact ⟨d, List.mem_cons_self, Nat.min_eq_left hmin⟩
          · exact ⟨x, List.mem_cons_of_mem d hx, (Nat.min_eq_right hmin).trans hleast⟩
        · intro y hy
          rcases List.mem_cons.1 hy with rfl | hy
          · exact Nat.min_le_left _ _
          · exact (Nat.min_le_right _ _).trans (hle y hy)

/-- a table holds what it held before and what was collected -/
theorem find?_collect {sets : List (Dataset × Array (Option Nat))} {table result : NameTable IndexedDataset}
    (h : collect sets table = .ok result) (name : String) (set : IndexedDataset) :
    result.find? name = some set ↔
      table.find? name = some set ∨ ∃ e ∈ sets, e.1.name = name ∧ set = ⟨e.1, e.2⟩ := by
  induction sets generalizing table with
  | nil =>
    cases h
    simp
  | cons e rest ih =>
    rw [collect] at h
    split at h
    · cases h
    · rename_i hnew
      have hfree : table.find? e.1.name = none := by simpa [NameTable.contains] using hnew
      rw [ih h, NameTable.find?_insert]
      simp only [List.mem_cons, exists_eq_or_imp]
      by_cases hname : name = e.1.name
      · subst hname
        simp only [if_true, hfree, Option.some.injEq, reduceCtorEq, false_or, true_and, eq_comm]
      · simp only [hname, if_false, Ne.symm hname, false_and, false_or]

/-! ## Built markets -/

/-- what a market of some datasets holds -/
structure Built (datasets : List Dataset) (settings : PopulationSettings) (m : Market) : Prop where
  timeline : m.timeline = Timeline.ofDatasets datasets
  ignoredColumns : m.ignoredColumns = settings.ignoredColumns
  maximumOffset : m.maximumOffset = settings.maximumOffset
  columnCount_pos : 0 < m.columnCount
  columnCount_mem : ∃ d ∈ datasets, m.columnCount = d.columns.length - settings.ignoredColumns
  columnCount_le : ∀ d ∈ datasets, m.columnCount ≤ d.columns.length - settings.ignoredColumns
  sets : ∀ name set, m.sets.find? name = some set ↔
    ∃ d ∈ datasets, d.name = name ∧ set = ⟨d, m.timeline.rowsOf d.times⟩

/-- **A market that was assembled is built.** -/
theorem built_of_new {datasets : List Dataset} {settings : PopulationSettings} {m : Market}
    (h : Market.new datasets settings = .ok m) : Built datasets settings m := by
  obtain ⟨count, hcount, h⟩ := Except.bind_eq_ok_iff.1 h
  cases count with
  | none => cases h
  | some count =>
    obtain ⟨table, htable, h⟩ := Except.bind_eq_ok_iff.1 h
    cases h
    obtain ⟨hpos, hmem, hle⟩ := usableColumns_eq_some hcount
    refine ⟨rfl, rfl, rfl, hpos, hmem, hle, fun name set => ?_⟩
    have hzip : datasets.zip (TimelineIndex.ofDatasets datasets).rows =
        datasets.map fun d => (d, (Timeline.ofDatasets datasets).rowsOf d.times) :=
      List.map_prod_left_eq_zip.symm
    rw [find?_collect htable, hzip]
    simp [NameTable.find?, NameTable.empty, TimelineIndex.ofDatasets]

variable {datasets : List Dataset} {settings : PopulationSettings} {m : Market}

theorem Built.mem_names_iff (h : Built datasets settings m) {name : String} :
    name ∈ m.sets.names ↔ ∃ d ∈ datasets, d.name = name := by
  rw [NameTable.mem_names_iff]
  constructor
  · rintro ⟨set, hset⟩
    obtain ⟨d, hd, hname, -⟩ := (h.sets name set).1 hset
    exact ⟨d, hd, hname⟩
  · rintro ⟨d, hd, hname⟩
    exact ⟨_, (h.sets name _).2 ⟨d, hd, hname, rfl⟩⟩

/-- **The row of a dataset at a bar is the one with the bar's time.** -/
theorem Built.row?_eq_some_iff (h : Built datasets settings m) {name : String} {bar row : Nat} {d : Dataset} :
    m.row? name bar = some (d, row) ↔
      (d ∈ datasets ∧ d.name = name) ∧ ∃ time, m.timeline.get? bar = some time ∧ d.times[row]? = some time := by
  have hnodup : ∀ d : Dataset, d.times.Nodup := fun d => d.ascending.imp Int.ne_of_lt
  constructor
  · intro hrow
    obtain ⟨set, hset, hrow⟩ := Option.bind_eq_some_iff.1 hrow
    obtain ⟨row', hrow', hsame⟩ := Option.bind_eq_some_iff.1 hrow
    cases hsame
    obtain ⟨d, hd, hname, rfl⟩ := (h.sets name set).1 hset
    exact ⟨⟨hd, hname⟩, (Timeline.row_rowsOf_iff (hnodup d)).1 hrow'⟩
  · rintro ⟨⟨hd, hname⟩, hat⟩
    have hset := (h.sets name ⟨d, m.timeline.rowsOf d.times⟩).2 ⟨d, hd, hname, rfl⟩
    have hrow := (Timeline.row_rowsOf_iff (hnodup d)).2 hat
    unfold row?
    simp [hset, hrow]

end Market

end TradingRobots
