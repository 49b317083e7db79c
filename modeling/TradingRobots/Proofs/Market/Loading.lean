/-
When datasets make a market, and that their order does not matter.

Datasets make a market when there are some, each has a column left after the ignored ones, and no two share a name. What
is made of them then depends on which datasets there are, not on their order: the timeline ascends, the table of sets is
kept in the order of names, and the number of visible columns is the least of all.

`NameTable.ext_find?`: tables that look up alike are equal.
`exists_new_iff`, `new_eq_error_iff`: which datasets make a market, and which do not.
`new_eq_ok_of_perm`: datasets in another order make the same market.
-/
import TradingRobots.Proofs.Market.Hindsight

namespace TradingRobots

/-! ## Tables -/

namespace NameTable

variable {α : Type}

/-- a value found under a name is an entry; no later name is less than one before it -/
theorem lookup_eq_some_iff {entries : List (String × α)} (h : entries.Pairwise fun a b => a.1 < b.1) {name : String}
    {v : α} : entries.lookup name = some v ↔ (name, v) ∈ entries := by
  induction entries with
  | nil => simp
  | cons e rest ih =>
    obtain ⟨k, w⟩ := e
    obtain ⟨hbelow, hrest⟩ := List.pairwise_cons.1 h
    rw [lookup_cons, List.mem_cons, ← ih hrest]
    by_cases hname : name = k
    · subst hname
      -- the names after it are greater, so its value is not found again
      have hnone : rest.lookup name = some v → False := fun hlater =>
        String.lt_irrefl name (hbelow (name, v) ((ih hrest).1 hlater))
      simp only [if_true, Option.some.injEq, Prod.mk.injEq, true_and]
      exact ⟨fun heq => Or.inl heq.symm, fun hor => (hor.resolve_right hnone).symm⟩
    · simp [hname]

/-- **Tables that look up alike are equal.** -/
theorem ext_find? {t u : NameTable α} (h : ∀ name, t.find? name = u.find? name) : t = u := by
  have hmem : ∀ e, e ∈ t.entries ↔ e ∈ u.entries := by
    rintro ⟨name, v⟩
    rw [← lookup_eq_some_iff t.ascending, ← lookup_eq_some_iff u.ascending]
    exact iff_of_eq (congrArg (· = some v) (h name))
  have hirrefl : Std.Irrefl fun a b : String × α => a.1 < b.1 := ⟨fun e => String.lt_irrefl e.1⟩
  have hasymm : Std.Antisymm fun a b : String × α => a.1 < b.1 := ⟨fun a b hab hba => absurd hba (String.lt_asymm hab)⟩
  have hentries : t.entries = u.entries := t.ascending.eq_of_mem_iff u.ascending hmem
  cases t
  cases u
  cases hentries
  rfl

end NameTable

/-! ## Timelines -/

/-- timelines with the same points are equal -/
theorem Timeline.ext_points {t u : Timeline} (h : ∀ time, time ∈ t.points.toList ↔ time ∈ u.points.toList) : t = u := by
  have hlists : t.points.toList = u.points.toList := t.ascending.eq_of_mem_iff u.ascending h
  have hpoints : t.points = u.points := Array.toList_inj.1 hlists
  cases t
  cases u
  cases hpoints
  rfl

theorem Timeline.ofDatasets_perm {left right : List Dataset} (h : left.Perm right) :
    Timeline.ofDatasets left = Timeline.ofDatasets right := by
  refine Timeline.ext_points fun time => ?_
  simp only [Timeline.mem_points_ofDatasets, h.mem_iff]

namespace Market

/-! ## When a market comes about -/

/-- the columns are counted when every dataset has one left -/
theorem exists_usableColumns_iff {ignored : Nat} {datasets : List Dataset} :
    (∃ count, usableColumns ignored datasets = .ok count) ↔ ∀ d ∈ datasets, ignored < d.columns.length := by
  induction datasets with
  | nil => exact iff_of_true ⟨none, rfl⟩ (List.forall_mem_nil _)
  | cons d rest ih =>
    simp only [List.forall_mem_cons, ← ih, usableColumns]
    split
    · rename_i husable
      refine iff_of_false ?_ ?_
      · rintro ⟨count, ⟨⟩⟩
      · rintro ⟨hd, -⟩
        omega
    · rename_i husable
      have hd : ignored < d.columns.length := by omega
      constructor
      · rintro ⟨count, h⟩
        obtain ⟨others, hothers, -⟩ := Except.bind_eq_ok_iff.1 h
        exact ⟨hd, others, hothers⟩
      · rintro ⟨-, others, hothers⟩
        exact ⟨_, Except.bind_eq_ok_iff.2 ⟨others, hothers, rfl⟩⟩

/-- sets are collected when no name comes twice, or is in the table already -/
theorem exists_collect_iff {sets : List (Dataset × Array (Option Nat))} {table : NameTable IndexedDataset} :
    (∃ result, collect sets table = .ok result) ↔
      (sets.map fun e => e.1.name).Nodup ∧ ∀ e ∈ sets, table.find? e.1.name = none := by
  induction sets generalizing table with
  | nil => exact iff_of_true ⟨table, rfl⟩ ⟨List.nodup_nil, List.forall_mem_nil _⟩
  | cons e rest ih =>
    simp only [collect, List.map_cons, List.nodup_cons, List.forall_mem_cons, List.mem_map, not_exists, not_and]
    cases hfound : table.find? e.1.name with
    | some set =>
      rw [if_pos (by rw [NameTable.contains, hfound]; rfl)]
      refine iff_of_false ?_ ?_
      · rintro ⟨result, ⟨⟩⟩
      · rintro ⟨-, ⟨⟩, -⟩
    | none =>
      have hfree : ∀ x : Dataset × Array (Option Nat),
          (table.insert e.1.name ⟨e.1, e.2⟩).find? x.1.name = none ↔
            x.1.name ≠ e.1.name ∧ table.find? x.1.name = none := by
        intro x
        rw [NameTable.find?_insert]
        by_cases hname : x.1.name = e.1.name
        · simp [hname]
        · simp [hname]
      rw [if_neg (by rw [NameTable.contains, hfound]; exact Bool.false_ne_true), ih]
      simp only [hfree, true_and]
      constructor
      · rintro ⟨hnodup, hrest⟩
        exact ⟨⟨fun x hx => (hrest x hx).1, hnodup⟩, fun x hx => (hrest x hx).2⟩
      · rintro ⟨⟨hnew, hnodup⟩, hrest⟩
        exact ⟨hnodup, fun x hx => ⟨hnew x hx, hrest x hx⟩⟩

/-- **Datasets make a market** when there are some, each has a column left after the ignored ones, and no two share a
name. -/
theorem exists_new_iff {datasets : List Dataset} {settings : PopulationSettings} :
    (∃ m, Market.new datasets settings = .ok m) ↔
      datasets ≠ [] ∧ (∀ d ∈ datasets, settings.ignoredColumns < d.columns.length) ∧
        (datasets.map Dataset.name).Nodup := by
  have hzip : datasets.zip (TimelineIndex.ofDatasets datasets).rows =
      datasets.map fun d => (d, (Timeline.ofDatasets datasets).rowsOf d.times) :=
    List.map_prod_left_eq_zip.symm
  have hcollect : (∃ sets, collect (datasets.zip (TimelineIndex.ofDatasets datasets).rows) .empty = .ok sets) ↔
      (datasets.map Dataset.name).Nodup := by
    rw [exists_collect_iff, hzip, List.map_map]
    exact and_iff_left fun e _ => rfl
  rw [← exists_usableColumns_iff, ← hcollect]
  constructor
  · rintro ⟨m, h⟩
    obtain ⟨count, hcount, h⟩ := Except.bind_eq_ok_iff.1 h
    cases count with
    | none => cases h
    | some count =>
      obtain ⟨sets, hsets, -⟩ := Except.bind_eq_ok_iff.1 h
      refine ⟨?_, ⟨some count, hcount⟩, sets, hsets⟩
      rintro rfl
      cases hcount
  · rintro ⟨hsome, ⟨count, hcount⟩, sets, hsets⟩
    cases count with
    | none => exact absurd (usableColumns_eq_none hcount) hsome
    | some count => exact ⟨_, Except.bind_eq_ok_iff.2 ⟨some count, hcount, Except.bind_eq_ok_iff.2 ⟨sets, hsets, rfl⟩⟩⟩

/-- they make none when there are none, all columns of one are ignored, or two share a name -/
theorem new_eq_error_iff {datasets : List Dataset} {settings : PopulationSettings} :
    (∃ defect, Market.new datasets settings = .error defect) ↔
      datasets = [] ∨ (∃ d ∈ datasets, d.columns.length ≤ settings.ignoredColumns) ∨
        ¬(datasets.map Dataset.name).Nodup := by
  have hfails : (∃ defect, Market.new datasets settings = .error defect) ↔
      ¬∃ m, Market.new datasets settings = .ok m := by
    cases Market.new datasets settings with
    | error defect => exact iff_of_true ⟨defect, rfl⟩ fun ⟨_, h⟩ => nomatch h
    | ok m => exact iff_of_false (fun ⟨_, h⟩ => nomatch h) fun h => h ⟨m, rfl⟩
  rw [hfails, exists_new_iff]
  simp only [not_and_or, not_not, not_forall, exists_prop, Nat.not_lt]

/-! ## The order of datasets -/

variable {left right : List Dataset} {settings : PopulationSettings} {m n : Market}

/-- datasets in another order are the same ones at any time -/
theorem agree_of_perm (h : left.Perm right) (T : Int) : Dataset.Agree T left right where
  forth a ha := ⟨a, h.mem_iff.1 ha, rfl, rfl, fun _ _ => rfl⟩
  back b hb := ⟨b, h.mem_iff.2 hb, rfl, rfl, fun _ _ => rfl⟩

/-- markets of the same datasets hold the same -/
theorem eq_of_perm (h : left.Perm right) (hm : Built left settings m) (hn : Built right settings n) : m = n := by
  have htimeline : m.timeline = n.timeline := by
    rw [hm.timeline, hn.timeline, Timeline.ofDatasets_perm h]
  have hignored : m.ignoredColumns = n.ignoredColumns := hm.ignoredColumns.trans hn.ignoredColumns.symm
  have hoffset : m.maximumOffset = n.maximumOffset := hm.maximumOffset.trans hn.maximumOffset.symm
  have hcount : m.columnCount = n.columnCount := columnCount_eq hm hn (agree_of_perm h 0)
  have hsets : m.sets = n.sets := by
    refine NameTable.ext_find? fun name => Option.ext fun set => ?_
    rw [hm.sets, hn.sets, htimeline]
    simp only [h.mem_iff]
  cases m
  cases n
  cases htimeline
  cases hignored
  cases hoffset
  cases hcount
  cases hsets
  rfl

/-- **Datasets in another order make the same market**, or none. -/
theorem new_eq_ok_of_perm (h : left.Perm right) (hm : Market.new left settings = .ok m) :
    Market.new right settings = .ok m := by
  have hright : ∃ n, Market.new right settings = .ok n := by
    obtain ⟨hsome, hcolumns, hnames⟩ := exists_new_iff.1 ⟨m, hm⟩
    refine exists_new_iff.2
      ⟨fun hnil => hsome ?_, fun d hd => hcolumns d (h.mem_iff.2 hd), (h.map _).nodup_iff.1 hnames⟩
    exact (hnil ▸ h).eq_nil
  obtain ⟨n, hn⟩ := hright
  rw [hn, eq_of_perm h (built_of_new hm) (built_of_new hn)]

end Market

end TradingRobots
