/-
The vote records of a run: complete, and each with the right vote.

A fresh engine holds no vote. Its run enters one row after the other into each dataset's ledger, so a record is made at
every processed row that has a change, except at the first row; it pairs the change with the vote of the closest earlier
row that was processed. A vote whose next row has no change is replaced there, and no record is ever made of it.

`ledger_of_run`: a ledger after a run holds an entry for each of its rows.
`run_records`: the records of a run on a market.
-/
import TradingRobots.Proofs.Engine.Completion
import TradingRobots.Proofs.Timeline.Range

namespace TradingRobots

/-! ## Ledgers after a run -/

namespace EngineRules

variable {rules : EngineRules} {watch : Watcher} {stopAfter : Option Nat} {e : EngineState} {report : RunReport}
  {done : Progress}

/-- **The ledger of a dataset after a run** holds an entry for each bar that voted on it. -/
theorem ledger_of_run (hn : rules.feed.names.Nodup) {name : String} {l : Ledger}
    (hl : e.ledgers.find? name = some l) (h : rules.run watch stopAfter e = .ok (report, done)) :
    report.ledgers.find? name = some
      ((done.summaries.filterMap (rules.entry? name)).foldl (Ledger.enter rules.settings.resultThreshold) l) := by
  have hk : Kept rules fun _ summaries e => e.ledgers.find? name = some
      ((summaries.filterMap (rules.entry? name)).foldl (Ledger.enter rules.settings.resultThreshold) l) := by
    constructor
    intro bar summaries e summary events e' flag hledger hbar
    show e'.ledgers.find? name = _
    rw [(runBar?_eq_some hbar).find?_ledgers hn, hledger, List.filterMap_append, List.foldl_append]
    cases hentry : rules.entry? name summary with
    | none => simp [hentry]
    | some entry => simp [hentry]
  obtain ⟨first, last, -, hreport, hledger, -, -⟩ := run_kept hk (fun _ _ _ _ => hl) h
  rw [hreport]
  exact hledger

/-- every completed bar voted once on each dataset that has a row there -/
theorem votes_of_run (h : rules.run watch stopAfter e = .ok (report, done)) :
    ∀ summary ∈ done.summaries, summary.votes.map DatasetVote.dataset = rules.present summary.bar rules.feed.names := by
  have hk : Kept rules fun _ summaries _ => ∀ summary ∈ summaries,
      summary.votes.map DatasetVote.dataset = rules.present summary.bar rules.feed.names := by
    constructor
    intro bar summaries e summary events e' flag hall hbar
    refine List.forall_mem_append.2 ⟨hall, List.forall_mem_singleton.2 ?_⟩
    rw [(runBar?_eq_some hbar).datasets, (runBar?_eq_some hbar).at_bar]
  obtain ⟨first, last, -, -, hall, -, -⟩ := run_kept hk (fun _ _ _ _ => List.forall_mem_nil _) h
  exact hall

/-- completed bars ascend -/
theorem ascending_of_run (h : rules.run watch stopAfter e = .ok (report, done)) :
    done.summaries.Pairwise fun a b => a.bar < b.bar := by
  obtain ⟨first, last, -, hbars, -⟩ := bars_of_run h
  have hpairwise : (done.summaries.map BarSummary.bar).Pairwise (· < ·) := by
    rw [hbars]
    exact List.pairwise_lt_range'
  exact List.pairwise_map.1 hpairwise

/-- a fresh engine has an empty ledger for each dataset -/
theorem find?_ledgers_start (rules : EngineRules) (p : Population) (s : Random.Stream) {name : String}
    (h : name ∈ rules.feed.names) : (rules.start p s).ledgers.find? name = some .empty := by
  have hfold : ∀ (names : List String) (t : NameTable Ledger),
      (names.foldl (fun t name => t.insert name .empty) t).find? name =
        if name ∈ names then some .empty else t.find? name := by
    intro names
    induction names with
    | nil => intro t; rfl
    | cons other rest ih =>
      intro t
      rw [List.foldl_cons, ih, NameTable.find?_insert]
      by_cases hrest : name ∈ rest
      · simp [hrest]
      · simp [hrest]
  show (NameTable.ofList (rules.feed.names.map fun name => (name, Ledger.empty))).find? name = _
  rw [NameTable.ofList, List.foldl_map, hfold, if_pos h]

end EngineRules

/-! ## Votes and rows of a run -/

/-- the bars that a run completed -/
def Progress.barsDone (p : Progress) : List Nat :=
  p.summaries.map BarSummary.bar

/-- a run voted a signal on a dataset at a bar -/
def Progress.Voted (p : Progress) (name : String) (bar : Nat) (signal : Signal) : Prop :=
  ∃ summary ∈ p.summaries, summary.bar = bar ∧ ∃ v ∈ summary.votes, v.dataset = name ∧ v.signal = signal

/-- the closest completed bar before another one at which a dataset has a row -/
structure Market.RowBefore (m : Market) (d : Dataset) (bars : List Nat) (earlier bar : Nat) : Prop where
  mem : earlier ∈ bars
  row : m.HasRow d earlier
  lt : earlier < bar
  closest : ∀ other ∈ bars, m.HasRow d other → other ≤ earlier ∨ bar ≤ other

/-- the records that a ledger holds after a run: in ascending order, one for every completed bar at which the dataset
has a row with a change and before which the run completed another row of it; each pairs that change with the vote at
the closest of the rows before -/
structure Ledger.Paired (m : Market) (d : Dataset) (threshold : Float) (p : Progress) (l : Ledger) : Prop where
  ascending : l.records.Pairwise fun a b => a.bar < b.bar
  bars : ∀ bar, (∃ r ∈ l.records, r.bar = bar) ↔
    bar ∈ p.barsDone ∧ (∃ row, m.RowAt d bar row ∧ (d.change? row).isSome = true) ∧
      ∃ earlier ∈ p.barsDone, earlier < bar ∧ m.HasRow d earlier
  records : ∀ r, r ∈ l.records ↔
    r.bar ∈ p.barsDone ∧ (∃ row, m.RowAt d r.bar row ∧ d.change? row = some r.change) ∧
      (∃ earlier, m.RowBefore d p.barsDone earlier r.bar ∧ p.Voted d.name earlier r.signal) ∧
      r.outcome = Outcome.resolve r.signal r.change threshold
  counted : l.correct + l.wrong + l.out = l.records.length

/-- with each dataset voted on once, its vote is the one found -/
theorem BarSummary.signal?_eq_some_iff {s : BarSummary} (hn : (s.votes.map DatasetVote.dataset).Nodup) {name : String}
    {signal : Signal} : s.signal? name = some signal ↔ ∃ v ∈ s.votes, v.dataset = name ∧ v.signal = signal := by
  unfold signal?
  rw [Option.map_eq_some_iff]
  constructor
  · rintro ⟨v, hfound, hsignal⟩
    have hname := List.find?_some hfound
    rw [decide_eq_true_eq] at hname
    exact ⟨v, List.mem_of_find?_eq_some hfound, hname, hsignal⟩
  · rintro ⟨v, hv, hname, hsignal⟩
    have hsome : (s.votes.find? fun v => v.dataset = name).isSome = true :=
      List.find?_isSome.2 ⟨v, hv, decide_eq_true hname⟩
    obtain ⟨w, hfound⟩ := Option.isSome_iff_exists.1 hsome
    have hw := List.find?_some hfound
    rw [decide_eq_true_eq] at hw
    have hsame : w = v :=
      List.inj_on_of_nodup_map hn (List.mem_of_find?_eq_some hfound) hv (hw.trans hname.symm)
    exact ⟨w, hfound, hsame ▸ hsignal⟩

theorem BarSummary.signal?_isSome_iff {s : BarSummary} {name : String} :
    (s.signal? name).isSome = true ↔ name ∈ s.votes.map DatasetVote.dataset := by
  unfold signal?
  rw [Option.isSome_map, List.find?_isSome, List.mem_map]
  simp only [decide_eq_true_eq]

namespace EngineRules

variable {rules : EngineRules} {datasets : List Dataset} {settings : PopulationSettings} {m : Market} {d : Dataset}
  {p : Progress}

/-- what a run entered into the ledger of a dataset -/
def entries (rules : EngineRules) (name : String) (p : Progress) : List Entry :=
  p.summaries.filterMap (rules.entry? name)

/-- the votes of a run are those on its rows -/
structure Voting (rules : EngineRules) (p : Progress) : Prop where
  ascending : p.summaries.Pairwise fun a b => a.bar < b.bar
  votes : ∀ s ∈ p.summaries, s.votes.map DatasetVote.dataset = rules.present s.bar rules.feed.names
  names : rules.feed.names.Nodup

variable (hv : Voting rules p)

include hv

theorem Voting.signal?_eq_some_iff {s : BarSummary} (hs : s ∈ p.summaries) {name : String} {signal : Signal} :
    s.signal? name = some signal ↔ ∃ v ∈ s.votes, v.dataset = name ∧ v.signal = signal := by
  refine BarSummary.signal?_eq_some_iff ?_
  rw [hv.votes s hs]
  exact hv.names.filter _

/-- an entry is the vote of a completed bar, with the change there -/
theorem Voting.mem_entries_iff {name : String} {x : Entry} : x ∈ rules.entries name p ↔
    p.Voted name x.bar x.signal ∧ x.change = rules.feed.change? name x.bar := by
  unfold entries Progress.Voted
  rw [List.mem_filterMap]
  constructor
  · rintro ⟨s, hs, hentry⟩
    obtain ⟨signal, hsignal, rfl⟩ := Option.map_eq_some_iff.1 hentry
    exact ⟨⟨s, hs, rfl, (hv.signal?_eq_some_iff hs).1 hsignal⟩, rfl⟩
  · rintro ⟨⟨s, hs, hbar, hvote⟩, hchange⟩
    refine ⟨s, hs, Option.map_eq_some_iff.2 ⟨x.signal, (hv.signal?_eq_some_iff hs).2 hvote, ?_⟩⟩
    rw [hbar, ← hchange]

theorem Voting.ascending_entries (name : String) : (rules.entries name p).Pairwise fun a b => a.bar < b.bar := by
  refine List.Pairwise.filterMap _ (fun s t hst x hx y hy => ?_) hv.ascending
  obtain ⟨signal, -, rfl⟩ := Option.map_eq_some_iff.1 hx
  obtain ⟨signal', -, rfl⟩ := Option.map_eq_some_iff.1 hy
  exact hst

variable (hb : Market.Built datasets settings m) (hd : d ∈ datasets) (hfeed : rules.feed = m.feed)

include hb hd hfeed

/-- the rows of a dataset at completed bars are its entries -/
theorem Voting.hasRow_iff {bar : Nat} : bar ∈ p.barsDone ∧ m.HasRow d bar ↔
    ∃ x ∈ rules.entries d.name p, x.bar = bar := by
  rw [Progress.barsDone, List.mem_map, hb.hasRow_iff hd, ← hfeed]
  have hname : d.name ∈ rules.feed.names := hfeed ▸ hb.mem_feed_names hd
  constructor
  · rintro ⟨⟨s, hs, rfl⟩, hwindow⟩
    have hvoted : (s.signal? d.name).isSome = true := by
      rw [BarSummary.signal?_isSome_iff, hv.votes s hs]
      exact List.mem_filter.2 ⟨hname, hwindow⟩
    obtain ⟨signal, hsignal⟩ := Option.isSome_iff_exists.1 hvoted
    exact ⟨_, List.mem_filterMap.2 ⟨s, hs, Option.map_eq_some_iff.2 ⟨signal, hsignal, rfl⟩⟩, rfl⟩
  · rintro ⟨x, hx, rfl⟩
    obtain ⟨s, hs, hentry⟩ := List.mem_filterMap.1 hx
    obtain ⟨signal, hsignal, rfl⟩ := Option.map_eq_some_iff.1 hentry
    have hmem : d.name ∈ s.votes.map DatasetVote.dataset :=
      BarSummary.signal?_isSome_iff.1 (Option.isSome_iff_exists.2 ⟨signal, hsignal⟩)
    rw [hv.votes s hs] at hmem
    exact ⟨⟨s, hs, rfl⟩, (List.mem_filter.1 hmem).2⟩

/-- the row before is the entry before -/
theorem Voting.rowBefore_iff {earlier : Nat} {e : Entry} {signal : Signal} :
    (m.RowBefore d p.barsDone earlier e.bar ∧ p.Voted d.name earlier signal) ↔
      ∃ prev, Ledger.RightBefore (rules.entries d.name p) prev e ∧ prev.bar = earlier ∧ prev.signal = signal := by
  constructor
  · rintro ⟨⟨hmem, hrow, hlt, hclosest⟩, hvoted⟩
    have hprev : (⟨earlier, rules.feed.change? d.name earlier, signal⟩ : Entry) ∈ rules.entries d.name p :=
      hv.mem_entries_iff.2 ⟨hvoted, rfl⟩
    refine ⟨_, ⟨hprev, hlt, fun x hx => ?_⟩, rfl, rfl⟩
    obtain ⟨hdone, hx⟩ := (hv.hasRow_iff hb hd hfeed).2 ⟨x, hx, rfl⟩
    exact hclosest x.bar hdone hx
  · rintro ⟨prev, ⟨hmem, hlt, hclosest⟩, rfl, rfl⟩
    obtain ⟨hdone, hrow⟩ := (hv.hasRow_iff hb hd hfeed).2 ⟨prev, hmem, rfl⟩
    refine ⟨⟨hdone, hrow, hlt, fun other hother hat => ?_⟩, (hv.mem_entries_iff.1 hmem).1⟩
    obtain ⟨x, hx, rfl⟩ := (hv.hasRow_iff hb hd hfeed).1 ⟨hother, hat⟩
    exact hclosest x hx

/-- **Records made of a run's entries are paired.** -/
theorem Voting.paired (threshold : Float) :
    ((rules.entries d.name p).foldl (Ledger.enter threshold) .empty).Paired m d threshold p := by
  have hascending := hv.ascending_entries d.name
  have hrecords : ((rules.entries d.name p).foldl (Ledger.enter threshold) .empty).records =
      Ledger.recordsOf threshold none (rules.entries d.name p) := Ledger.records_foldl_enter threshold _ .empty
  have hchange : ∀ {x : Entry} {row : Nat}, x ∈ rules.entries d.name p → m.RowAt d x.bar row →
      x.change = d.change? row := by
    intro x row hx hrow
    rw [(hv.mem_entries_iff.1 hx).2, hfeed]
    exact hb.change?_of_rowAt hd hrow
  have hmem : ∀ r, r ∈ ((rules.entries d.name p).foldl (Ledger.enter threshold) .empty).records ↔
      r.bar ∈ p.barsDone ∧ (∃ row, m.RowAt d r.bar row ∧ d.change? row = some r.change) ∧
        (∃ earlier, m.RowBefore d p.barsDone earlier r.bar ∧ p.Voted d.name earlier r.signal) ∧
        r.outcome = Outcome.resolve r.signal r.change threshold := by
    intro r
    rw [hrecords, Ledger.mem_recordsOf_none_iff hascending]
    constructor
    · rintro ⟨e, he, prev, hprev, hr⟩
      obtain ⟨signal, change, hsignal, hknown, rfl⟩ := Ledger.recordOf?_eq_some_iff.1 hr
      cases hsignal
      obtain ⟨hdone, row, hrow⟩ := (hv.hasRow_iff hb hd hfeed).2 ⟨e, he, rfl⟩
      exact ⟨hdone, ⟨row, hrow, (hchange he hrow).symm.trans hknown⟩,
        ⟨prev.bar, (hv.rowBefore_iff hb hd hfeed).2 ⟨prev, hprev, rfl, rfl⟩⟩, rfl⟩
    · rintro ⟨hdone, ⟨row, hrow, hknown⟩, ⟨earlier, hbefore⟩, houtcome⟩
      obtain ⟨e, he, hbar⟩ := (hv.hasRow_iff hb hd hfeed).1 ⟨hdone, row, hrow⟩
      rw [← hbar] at hbefore hrow
      obtain ⟨prev, hprev, -, hsignal⟩ := (hv.rowBefore_iff hb hd hfeed).1 hbefore
      refine ⟨e, he, prev, hprev, Ledger.recordOf?_eq_some_iff.2
        ⟨prev.signal, r.change, rfl, (hchange he hrow).trans hknown, ?_⟩⟩
      rw [hsignal, ← houtcome, hbar]
  refine ⟨?_, fun bar => ?_, hmem, Ledger.counted_empty.foldl_enter threshold _⟩
  · have hbars : ((rules.entries d.name p).map Entry.bar).Pairwise (· < ·) := List.pairwise_map.2 hascending
    rw [hrecords]
    exact List.pairwise_map.1 (hbars.sublist (Ledger.bars_recordsOf_sublist _ _ _))
  · constructor
    · rintro ⟨r, hr, rfl⟩
      obtain ⟨hdone, ⟨row, hrow, hknown⟩, ⟨earlier, hbefore, -⟩, -⟩ := (hmem r).1 hr
      exact ⟨hdone, ⟨row, hrow, Option.isSome_iff_exists.2 ⟨_, hknown⟩⟩, earlier, hbefore.mem, hbefore.lt, hbefore.row⟩
    · rintro ⟨hdone, ⟨row, hrow, hknown⟩, earlier, hearlier, hlt, hbefore⟩
      obtain ⟨change, hknown⟩ := Option.isSome_iff_exists.1 hknown
      obtain ⟨e, he, rfl⟩ := (hv.hasRow_iff hb hd hfeed).1 ⟨hdone, row, hrow⟩
      obtain ⟨x, hx, rfl⟩ := (hv.hasRow_iff hb hd hfeed).1 ⟨hearlier, hbefore⟩
      obtain ⟨prev, hprev⟩ := Ledger.exists_rightBefore hascending he hx hlt
      refine ⟨⟨e.bar, prev.signal, change, Outcome.resolve prev.signal change threshold⟩, ?_, rfl⟩
      rw [hrecords, Ledger.mem_recordsOf_none_iff hascending]
      exact ⟨e, he, prev, hprev, Ledger.recordOf?_eq_some_iff.2
        ⟨prev.signal, change, rfl, (hchange he hrow).trans hknown, rfl⟩⟩

omit hv hb hd hfeed

theorem voting_of_run {watch : Watcher} {stopAfter : Option Nat} {e : EngineState} {report : RunReport}
    (hn : rules.feed.names.Nodup) (h : rules.run watch stopAfter e = .ok (report, p)) : Voting rules p :=
  ⟨ascending_of_run h, votes_of_run h, hn⟩

/-! ## Runs of fresh engines on markets -/

/-- the bars of a run that was not cancelled are those whose times lie within the limits -/
theorem mem_barsDone_iff {settings : Settings} {watch : Watcher} {stopAfter : Option Nat} {e : EngineState}
    {report : RunReport} (h : (ofSettings settings m.feed).run watch stopAfter e = .ok (report, p))
    (hall : report.cancelled = false) {bar : Nat} : bar ∈ p.barsDone ↔
      ∃ time, m.timeline.get? bar = some time ∧ Timeline.Within settings.engine.start settings.engine.stop time := by
  obtain ⟨first, last, hrange, hbars, -, hcount⟩ := bars_of_run h
  have hrange' : m.timeline.range? settings.engine.start settings.engine.stop = some (first, last) := hrange
  have hle : first ≤ last := by
    obtain ⟨a, b, -, -, -, -, hle⟩ := Timeline.range?_eq_some hrange'
    exact hle
  rw [← Timeline.mem_range_iff hrange', Progress.barsDone, hbars, hcount hall, List.mem_range'_1]
  omega

/-- **The vote records of a run are complete and paired.** On a market of some datasets, settings that pass their check
make an engine. A run of the fresh engine, on any population and stream, completes the bars of its range in ascending
order, all of them unless it was cancelled, and then they are those whose times lie within the limits. Afterwards the
ledger of every dataset holds exactly one record for each completed bar at which the dataset has a row with a change and
before which another of its rows was completed. The record pairs that change with the vote at the closest of those rows,
and is counted once. If memory can hold what the settings allow, and the programs at hand can be run, the run comes
about, or its range has no bars and it does not start. -/
theorem run_records (datasets : List Dataset) (settings : Settings) (m : Market)
    (hm : Market.new datasets settings.population = .ok m) (hs : settings.check = .ok ()) :
    ∃ rules, EngineRules.new m.feed settings = .ok rules ∧
      (∀ watch stopAfter population s report p,
        rules.run watch stopAfter (rules.start population s) = .ok (report, p) →
        (∃ first last, rules.range? = some (first, last) ∧ p.barsDone = List.range' first report.bars ∧
          report.bars ≤ last + 1 - first) ∧
        (report.cancelled = false → ∀ bar, bar ∈ p.barsDone ↔ ∃ time, m.timeline.get? bar = some time ∧
          Timeline.Within settings.engine.start settings.engine.stop time) ∧
        ∀ d ∈ datasets, ∃ l, report.ledgers.find? d.name = some l ∧
          l.Paired m d settings.engine.resultThreshold p) ∧
      (settings.population.Holdable → ∀ watch stopAfter population s, population.Runnable →
        (rules.range? = none ∧ rules.run watch stopAfter (rules.start population s) = .error .noBars) ∨
        rules.range?.isSome = true ∧
          ∃ report p, rules.run watch stopAfter (rules.start population s) = .ok (report, p)) := by
  have hb := Market.built_of_new hm
  refine ⟨ofSettings settings m.feed, new_eq_ok hs hb.columnCount_pos, ?_, ?_⟩
  · intro watch stopAfter population s report p h
    have hnames : (ofSettings settings m.feed).feed.names.Nodup := m.nodup_feed_names
    have hvoting : Voting (ofSettings settings m.feed) p := voting_of_run hnames h
    obtain ⟨first, last, hrange, hbars, hle, -⟩ := bars_of_run h
    refine ⟨⟨first, last, hrange, hbars, hle⟩, fun hall bar => mem_barsDone_iff h hall, ?_⟩
    intro d hd
    have hfresh : ((ofSettings settings m.feed).start population s).ledgers.find? d.name = some .empty :=
      find?_ledgers_start _ population s (hb.mem_feed_names hd)
    exact ⟨_, ledger_of_run hnames hfresh h, hvoting.paired hb hd rfl settings.engine.resultThreshold⟩
  · intro hh watch stopAfter population s hrun
    exact run_comes_about hs hh _ hrun

/-- one robot that always says the same -/
def alwaysLong : Population :=
  ((Population.empty 1000).add ⟨[.emit .long], 1⟩ 1.0).2

/-- the market of three days of gold -/
def threeDaysMarket : Market :=
  let days : Timeline := ⟨#[1, 2, 3], by decide⟩
  ⟨NameTable.empty.insert "gold" ⟨threeDays, days.rowsOf threeDays.times⟩, days, 0, 256, 1⟩

theorem new_threeDays : Market.new [threeDays] {} = .ok threeDaysMarket := by
  have hdays : Timeline.ofDatasets [threeDays] = threeDaysMarket.timeline := by
    have hpoints : (Timeline.ofDatasets [threeDays]).points.toList = threeDaysMarket.timeline.points.toList :=
      Timeline.points_ofTimes (by decide)
    generalize Timeline.ofDatasets [threeDays] = days at hpoints
    obtain ⟨points, ascending⟩ := days
    obtain rfl : points = #[1, 2, 3] := Array.toList_inj.1 hpoints
    rfl
  rw [Market.new]
  dsimp only [TimelineIndex.ofDatasets]
  rw [hdays]
  rfl

/-- a run over three days of gold, with a robot that always says long: its records are paired, one for each day but the
first, and hold what was said the day before -/
theorem run_records_gold :
    let settings : Settings := { engine := { performTraining := false } }
    let rules := ofSettings settings threeDaysMarket.feed
    ∃ report p l, Market.new [threeDays] settings.population = .ok threeDaysMarket ∧ settings.check = .ok () ∧
      settings.population.Holdable ∧ alwaysLong.Runnable ∧ EngineRules.new threeDaysMarket.feed settings = .ok rules ∧
      rules.run .silent none (rules.start alwaysLong (Random.seeded 7)) = .ok (report, p) ∧
      report.ledgers.find? "gold" = some l ∧ l.Paired threeDaysMarket threeDays 0.0 p ∧
      l.records = [⟨1, .long, 100.0, .correct⟩, ⟨2, .long, 100.0, .correct⟩] := by
  intro settings rules
  have hs : settings.check = .ok () := by decide
  have hh : settings.population.Holdable := ⟨by decide, by decide⟩
  have hrunnable : alwaysLong.Runnable := fun r hr => by
    rw [List.mem_singleton.1 hr]
    rfl
  have hsaid : (rules.run .silent none (rules.start alwaysLong (Random.seeded 7))).toOption.bind
      (fun done => (done.1.ledgers.find? "gold").map Ledger.records) =
        some [⟨1, .long, 100.0, .correct⟩, ⟨2, .long, 100.0, .correct⟩] := by
    decide +kernel
  obtain ⟨made, hmade, hpaired, hcomes⟩ := run_records [threeDays] settings threeDaysMarket new_threeDays hs
  obtain ⟨-, -, rfl⟩ := new_eq_ok_iff.1 hmade
  rcases hcomes hh .silent none alwaysLong (Random.seeded 7) hrunnable with ⟨hnone, -⟩ | ⟨-, report, p, hrun⟩
  · have hbars : rules.range?.isSome = true := by decide +kernel
    rw [show rules.range? = none from hnone] at hbars
    cases hbars
  · obtain ⟨-, -, hledgers⟩ := hpaired _ _ _ _ _ _ hrun
    obtain ⟨l, hl, hrecords⟩ := hledgers threeDays (List.mem_singleton_self _)
    refine ⟨report, p, l, new_threeDays, hs, hh, hrunnable, hmade, hrun, hl, hrecords, ?_⟩
    have hledger : report.ledgers.find? "gold" = some l := hl
    rw [hrun] at hsaid
    simpa only [Except.toOption, Option.bind_some, hledger, Option.map_some, Option.some.injEq] using hsaid

end EngineRules

end TradingRobots
