/-
What runs score, and at which rows it was said.

A score pairs a change with what was said at the last row processed. Inside a run this is the row right before, since a
run leaves out no bar. At the first row of a dataset in a run it is the last row of whatever ran before, if anything
did, and nothing makes sure that the one follows the other.

`Leads.next_row`, `Leads.first_row`: which row is the last one.
`scored_in_runs`: what a run scores, bar by bar, after any runs before it.
`rerun_scores_the_same_row`: a run over a single bar scores what an earlier run said at this very bar.
-/
import TradingRobots.Proofs.Engine.Attribution

namespace TradingRobots

/-! ## The last row of a run -/

/-- among the bars of a run, the last one that gives something is the last one of all -/
theorem getLast?_append_filterMap {α : Type} {f : BarSummary → Option α} {done : List BarSummary}
    (h : done.Pairwise fun a b => a.bar < b.bar) (before : List α) (hsome : ∃ s ∈ done, (f s).isSome = true) :
    ∃ s ∈ done, (f s).isSome = true ∧ (before ++ done.filterMap f).getLast? = f s ∧
      ∀ other ∈ done, (f other).isSome = true → other.bar ≤ s.bar := by
  induction done using List.reverseRecOn with
  | nil =>
    obtain ⟨s, hs, -⟩ := hsome
    cases hs
  | append_singleton init s ih =>
    obtain ⟨hinit, -, hlast⟩ := List.pairwise_append.1 h
    rw [List.filterMap_append]
    cases hs : f s with
    | some v =>
      refine ⟨s, List.mem_append_right _ (List.mem_singleton_self s), by rw [hs]; rfl, ?_, ?_⟩
      · simp [hs]
      · intro other hother _
        rcases List.mem_append.1 hother with hother | hother
        · exact Nat.le_of_lt (hlast other hother s (List.mem_singleton_self s))
        · rw [List.mem_singleton.1 hother]
    | none =>
      have hrest : ∀ other ∈ init ++ [s], (f other).isSome = true → other ∈ init := by
        intro other hother hgives
        refine (List.mem_append.1 hother).resolve_right fun hsame => ?_
        rw [List.mem_singleton.1 hsame, hs] at hgives
        cases hgives
      obtain ⟨given, hgiven, hgives⟩ := hsome
      obtain ⟨t, ht, hsomet, hlastt, hmax⟩ := ih hinit ⟨given, hrest given hgiven hgives, hgives⟩
      refine ⟨t, List.mem_append_left _ ht, hsomet, ?_, fun other hother hgives => ?_⟩
      · simpa [hs] using hlastt
      · exact hmax other (hrest other hother hgives) hgives

/-- a dataset has a row at one bar, and its next row at another -/
def Market.NextRow (m : Market) (d : Dataset) (earlier bar : Nat) : Prop :=
  ∃ row, m.RowAt d earlier row ∧ m.RowAt d bar (row + 1)

namespace EngineRules

variable {rules : EngineRules} {passes : List Pass} {own : List BarSummary} {first : Nat} {e before : EngineState}
  {done : List BarSummary}

/-- the pass of a bar, if a dataset has a row there -/
def pass? (rules : EngineRules) (name : String) (s : BarSummary) : Option Pass :=
  Option.guard (Pass.hasRow name) ⟨rules, s.bar⟩

theorem pass?_isSome_iff {name : String} (hname : name ∈ rules.feed.names) {s : BarSummary} :
    (rules.pass? name s).isSome = true ↔ (rules.feed.window? name s.bar).isSome = true := by
  unfold pass?
  rw [Option.isSome_guard, Pass.hasRow, decide_eq_true hname, Bool.true_and]

theorem last?_append_passes (rules : EngineRules) (passes : List Pass) (done : List BarSummary) (name : String) :
    Pass.last? (passes ++ rules.passes done) name =
      (passes.filter (Pass.hasRow name) ++ done.filterMap (rules.pass? name)).getLast? := by
  have hpasses : (rules.passes done).filter (Pass.hasRow name) = done.filterMap (rules.pass? name) := by
    rw [← List.filterMap_eq_filter, EngineRules.passes, List.filterMap_map]
    rfl
  rw [Pass.last?, List.filter_append, hpasses]

theorem lastVote?_append (own done : List BarSummary) (name : String) :
    BarSummary.lastVote? (own ++ done) name =
      (own.filterMap (BarSummary.vote? name) ++ done.filterMap (BarSummary.vote? name)).getLast? := by
  rw [BarSummary.lastVote?, List.filterMap_append]

/-- the bars of a run vote on the datasets with a row -/
theorem Leads.vote?_isSome_iff (h : Leads rules first e done before) {name : String} (hname : name ∈ rules.feed.names)
    {s : BarSummary} (hs : s ∈ done) :
    (s.vote? name).isSome = true ↔ (rules.feed.window? name s.bar).isSome = true := by
  have hvotes : s.votes.map DatasetVote.dataset = rules.present s.bar rules.feed.names := by
    induction h with
    | start => cases hs
    | bar flag hleads hbar ih =>
      rcases List.mem_append.1 hs with hs | hs
      · exact ih hs
      · have hdone := runBar?_eq_some hbar
        rw [List.mem_singleton.1 hs, hdone.datasets, hdone.at_bar]
  rw [BarSummary.vote?, Option.isSome_map, BarSummary.signal?_isSome_iff, hvotes, present, List.mem_filter]
  exact ⟨fun h => h.2, fun h => ⟨hname, h⟩⟩

/-- a run is over before its next bar -/
theorem Leads.bar_lt (h : Leads rules first e done before) {bar : Nat} :
    (∃ s ∈ done, s.bar = bar) ↔ first ≤ bar ∧ bar < first + done.length := by
  rw [← List.mem_map, h.consecutive.2, List.mem_range'_1]

theorem Leads.ascending (h : Leads rules first e done before) : done.Pairwise fun a b => a.bar < b.bar := by
  have hbars : (done.map BarSummary.bar).Pairwise (· < ·) := by
    rw [h.consecutive.2]
    exact List.pairwise_lt_range'
  exact List.pairwise_map.1 hbars

variable {datasets : List Dataset} {settings : PopulationSettings} {m : Market} {d : Dataset}

/-- **In a run the last row is the one right before.** Once a run has been at a row of a dataset, the last pass over
the dataset and the last vote on it are both at the row before the one that comes next. -/
theorem Leads.next_row (hb : Market.Built datasets settings m) (hd : d ∈ datasets) (hfeed : rules.feed = m.feed)
    (h : Leads rules first e done before) (passes : List Pass) (own : List BarSummary)
    (hrow : m.HasRow d (first + done.length)) (hearlier : ∃ s ∈ done, m.HasRow d s.bar) :
    ∃ earlier signal, m.NextRow d earlier (first + done.length) ∧
      Pass.last? (passes ++ rules.passes done) d.name = some ⟨rules, earlier⟩ ∧
      BarSummary.lastVote? (own ++ done) d.name = some (earlier, signal) := by
  have hname : d.name ∈ rules.feed.names := hfeed ▸ hb.mem_feed_names hd
  have hwindow : ∀ {bar}, m.HasRow d bar ↔ (rules.feed.window? d.name bar).isSome = true := hfeed ▸ hb.hasRow_iff hd
  have hpass : ∀ s, (rules.pass? d.name s).isSome = true ↔ m.HasRow d s.bar := fun s =>
    (pass?_isSome_iff hname).trans hwindow.symm
  have hvote : ∀ s ∈ done, (s.vote? d.name).isSome = true ↔ m.HasRow d s.bar := fun s hs =>
    (h.vote?_isSome_iff hname hs).trans hwindow.symm
  obtain ⟨s, hs, hats⟩ := hearlier
  obtain ⟨x, hx, hxrow, hxlast, hxmax⟩ :=
    getLast?_append_filterMap h.ascending (passes.filter (Pass.hasRow d.name)) ⟨s, hs, (hpass s).2 hats⟩
  obtain ⟨y, hy, hyrow, hylast, hymax⟩ :=
    getLast?_append_filterMap h.ascending (own.filterMap (BarSummary.vote? d.name)) ⟨s, hs, (hvote s hs).2 hats⟩
  -- the last row and the last vote are at the same bar
  have hsame : y.bar = x.bar := Nat.le_antisymm
    (hxmax y hy ((hpass y).2 ((hvote y hy).1 hyrow))) (hymax x hx ((hvote x hx).2 ((hpass x).1 hxrow)))
  have hpassx : rules.pass? d.name x = some ⟨rules, x.bar⟩ := by
    unfold pass? at hxrow ⊢
    rw [Option.isSome_guard] at hxrow
    exact Option.guard_eq_some_iff.2 ⟨rfl, hxrow⟩
  obtain ⟨vote, hvotey⟩ := Option.isSome_iff_exists.1 hyrow
  obtain ⟨signal, -, hsignal⟩ := Option.map_eq_some_iff.1 hvotey
  obtain ⟨row, hatx⟩ := (hpass x).1 hxrow
  obtain ⟨row', hat⟩ := hrow
  have hnext : row' = row + 1 := by
    refine hb.rowAt_next hd hatx hat (h.bar_lt.1 ⟨x, hx, rfl⟩).2 fun other hafter hbefore hother => ?_
    obtain ⟨t, ht, rfl⟩ := h.bar_lt.2 ⟨Nat.le_of_lt ((h.bar_lt.1 ⟨x, hx, rfl⟩).1.trans_lt hafter), hbefore⟩
    exact absurd (hxmax t ht ((hpass t).2 hother)) (Nat.not_le.2 hafter)
  refine ⟨x.bar, signal, ⟨row, hatx, hnext ▸ hat⟩, ?_, ?_⟩
  · rw [last?_append_passes, hxlast, hpassx]
  · rw [lastVote?_append, hylast, hvotey, ← hsignal, hsame]

/-- **At the first row of a dataset in a run the last row is that of what ran before.** -/
theorem Leads.first_row (hb : Market.Built datasets settings m) (hd : d ∈ datasets) (hfeed : rules.feed = m.feed)
    (h : Leads rules first e done before) (passes : List Pass) (own : List BarSummary)
    (hnone : ∀ s ∈ done, ¬m.HasRow d s.bar) :
    Pass.last? (passes ++ rules.passes done) d.name = Pass.last? passes d.name ∧
      BarSummary.lastVote? (own ++ done) d.name = BarSummary.lastVote? own d.name := by
  have hname : d.name ∈ rules.feed.names := hfeed ▸ hb.mem_feed_names hd
  have hwindow : ∀ s ∈ done, ¬(rules.feed.window? d.name s.bar).isSome = true := by
    intro s hs hsome
    rw [hfeed] at hsome
    exact hnone s hs ((hb.hasRow_iff hd).2 hsome)
  constructor
  · have hempty : done.filterMap (rules.pass? d.name) = [] := by
      refine List.filterMap_eq_nil_iff.2 fun s hs => Option.not_isSome_iff_eq_none.1 fun hsome => ?_
      exact hwindow s hs ((pass?_isSome_iff hname).1 hsome)
    rw [last?_append_passes, hempty, List.append_nil, Pass.last?]
  · have hempty : done.filterMap (BarSummary.vote? d.name) = [] := by
      refine List.filterMap_eq_nil_iff.2 fun s hs => Option.not_isSome_iff_eq_none.1 fun hsome => ?_
      exact hwindow s hs ((h.vote?_isSome_iff hname hs).1 hsome)
    rw [lastVote?_append, hempty, List.append_nil, BarSummary.lastVote?]

/-! ## What a run scores -/

/-- what a run scores on a row of a dataset, after the bars `done`: its change, and what was said or voted at the last
row; `next` and `first` say which row that is -/
structure ScoredAt (rules : EngineRules) (m : Market) (passes : List Pass) (own done : List BarSummary) (d : Dataset)
    (bar row : Nat) (before after : EngineState) : Prop where
  robots : ∀ r ∈ before.population.robots, ∀ s ∈ rules.scores bar r rules.feed.names, s.dataset = d.name →
    d.change? row = some s.change ∧
      ∃ x, Pass.last? (passes ++ rules.passes done) d.name = some x ∧ x.rules.said? r d.name x.bar = some s.signal
  ledger : ∃ l signal, before.ledgers.find? d.name = some l ∧
    l.held = (BarSummary.lastVote? (own ++ done) d.name).map Prod.snd ∧
    after.ledgers.find? d.name = some (l.enter rules.settings.resultThreshold ⟨bar, d.change? row, signal⟩)
  next : (∃ s ∈ done, m.HasRow d s.bar) → ∃ earlier signal, m.NextRow d earlier bar ∧
    Pass.last? (passes ++ rules.passes done) d.name = some ⟨rules, earlier⟩ ∧
    BarSummary.lastVote? (own ++ done) d.name = some (earlier, signal)
  first : (∀ s ∈ done, ¬m.HasRow d s.bar) →
    Pass.last? (passes ++ rules.passes done) d.name = Pass.last? passes d.name ∧
    BarSummary.lastVote? (own ++ done) d.name = BarSummary.lastVote? own d.name

/-- what a bar scores: for robots nothing but their scores, on datasets that have a row there, and in the ledgers of the
others nothing -/
structure BarScores (rules : EngineRules) (m : Market) (datasets : List Dataset) (passes : List Pass)
    (own done : List BarSummary) (bar : Nat) (before after : EngineState) : Prop where
  counted : ∀ r ∈ before.population.robots,
    r.Counts ((rules.scores bar r rules.feed.names).map (Score.outcome rules.settings.resultThreshold))
      (rules.feed.names.foldl (rules.robotAt bar) r) ∧
    ∀ s ∈ rules.scores bar r rules.feed.names, ∃ d ∈ datasets, d.name = s.dataset ∧ m.HasRow d bar
  absent : ∀ d ∈ datasets, ¬m.HasRow d bar → after.ledgers.find? d.name = before.ledgers.find? d.name
  present : ∀ d ∈ datasets, ∀ row, m.RowAt d bar row → ScoredAt rules m passes own done d bar row before after

/-- every completed bar has a state before it and one after it -/
theorem Leads.split {all : List BarSummary} {e' : EngineState} (h : Leads rules first e all e')
    {summary : BarSummary} {rest : List BarSummary} (hall : all = done ++ summary :: rest) :
    ∃ before events after, Leads rules first e done before ∧
      rules.runBar? (first + done.length) before = some (summary, events, after) := by
  induction h generalizing rest with
  | start => exact absurd hall.symm (List.append_ne_nil_of_right_ne_nil _ (List.cons_ne_nil _ _))
  | bar flag hleads hbar ih =>
    rcases List.eq_nil_or_concat rest with rfl | ⟨init, s, rfl⟩
    · obtain ⟨rfl, hsame⟩ := List.append_inj' hall rfl
      cases hsame
      exact ⟨_, _, _, hleads, hbar⟩
    · rw [List.concat_eq_append, ← List.cons_append, ← List.append_assoc] at hall
      exact ih (List.append_inj' hall rfl).1

/-- **What a bar of a run scores.** -/
theorem Leads.barScores (hb : Market.Built datasets settings m) (hfeed : rules.feed = m.feed)
    (h : Leads rules first e done before) (hsaid : ∀ r ∈ e.population.robots, r.SaidLast passes)
    (hheld : rules.HoldsLast own e) {summary : BarSummary} {events : List Event} {after : EngineState}
    (hbar : rules.runBar? (first + done.length) before = some (summary, events, after)) :
    BarScores rules m datasets passes own done (first + done.length) before after := by
  have hn : rules.feed.names.Nodup := hfeed ▸ m.nodup_feed_names
  have hdone := runBar?_eq_some hbar
  have hwindow : ∀ {d}, d ∈ datasets → (m.HasRow d (first + done.length) ↔
      (rules.feed.window? d.name (first + done.length)).isSome = true) := fun hd => hfeed ▸ hb.hasRow_iff hd
  have hvoted : ∀ {d}, d ∈ datasets →
      ((summary.signal? d.name).isSome = true ↔ m.HasRow d (first + done.length)) := by
    intro d hd
    have hname : d.name ∈ rules.feed.names := hfeed ▸ hb.mem_feed_names hd
    rw [BarSummary.signal?_isSome_iff, hdone.datasets, EngineRules.present, List.mem_filter, hwindow hd]
    exact ⟨fun h => h.2, fun h => ⟨hname, h⟩⟩
  refine ⟨fun r hr => ⟨counts_foldl_robotAt hn r, fun s hs => ?_⟩, fun d hd hnone => ?_, fun d hd row hrow => ?_⟩
  · obtain ⟨hname, -, hchange⟩ := mem_scores_iff.1 hs
    rw [hfeed] at hname
    obtain ⟨d, hd, hsame⟩ := hb.mem_names_iff.1 hname
    refine ⟨d, hd, hsame, (hwindow hd).2 ?_⟩
    rw [hsame]
    obtain ⟨w, hw, -⟩ := Option.bind_eq_some_iff.1 hchange
    rw [hw]
    rfl
  · have hvote : summary.signal? d.name = none :=
      Option.not_isSome_iff_eq_none.1 fun hsome => hnone ((hvoted hd).1 hsome)
    rw [hdone.find?_ledgers hn, entry?, hvote]
    rfl
  · have hchange : rules.feed.change? d.name (first + done.length) = d.change? row :=
      hfeed ▸ hb.change?_of_rowAt hd hrow
    refine ⟨fun r hr s hs hname => ?_, ?_, fun hearlier => h.next_row hb hd hfeed passes own ⟨row, hrow⟩ hearlier,
      fun hnone => h.first_row hb hd hfeed passes own hnone⟩
    · obtain ⟨-, hpending, hknown⟩ := mem_scores_iff.1 hs
      rw [hname] at hpending hknown
      exact ⟨hchange.symm.trans hknown, h.saidLast hsaid r hr d.name s.signal hpending⟩
    · obtain ⟨l, hl, hlast⟩ := h.holdsLast hn hheld d.name (hfeed ▸ hb.mem_feed_names hd)
      obtain ⟨signal, hsignal⟩ := Option.isSome_iff_exists.1 ((hvoted hd).2 ⟨row, hrow⟩)
      refine ⟨l, signal, hl, hlast, ?_⟩
      rw [hdone.find?_ledgers hn, entry?, hsignal, hl, hdone.at_bar, hchange]
      rfl

/-- what a run scores, bar by bar -/
def RunScores (rules : EngineRules) (m : Market) (datasets : List Dataset) (passes : List Pass)
    (own : List BarSummary) (e : EngineState) (p : Progress) : Prop :=
  ∃ first last, rules.range? = some (first, last) ∧
    ∀ done summary rest, p.summaries = done ++ summary :: rest → ∃ before events after,
      Leads rules first e done before ∧ rules.runBar? summary.bar before = some (summary, events, after) ∧
      BarScores rules m datasets passes own done summary.bar before after

/-- **Every score pairs a change with what was said at the last row that was processed.** Take any runs one after the
other, on engines new or used, over any ranges, on robots that were fresh, had been run, or came from a file, and one
more run after them. At each of its bars a robot's counters grow by the outcomes of its scores, and each score is of a
dataset with a row there: its signal is what the robot's program said at the last row of a dataset of this name that the
robots went through, its change is that of the row at hand. Likewise a ledger scores its engine's last vote. Once the
run has been at a row of the dataset, the last row is the one right before; at the first, it is the last one of the runs
before, whichever row that was, and without any nothing is scored. -/
theorem scored_in_runs (datasets : List Dataset) (settings : Settings) (m : Market) (rules : EngineRules)
    (hm : Market.new datasets settings.population = .ok m) (hrules : EngineRules.new m.feed settings = .ok rules)
    (passes : List Pass) (own : List BarSummary) (e : EngineState) (he : Reached passes rules own e)
    (watch : Watcher) (stopAfter : Option Nat) (report : RunReport) (p : Progress)
    (h : rules.run watch stopAfter e = .ok (report, p)) : RunScores rules m datasets passes own e p := by
  have hb := Market.built_of_new hm
  have hfeed : rules.feed = m.feed := by
    obtain ⟨-, -, rfl⟩ := new_eq_ok_iff.1 hrules
    rfl
  obtain ⟨first, last, hrange, hleads⟩ := leads_of_run h
  refine ⟨first, last, hrange, fun done summary rest hsplit => ?_⟩
  obtain ⟨before, events, after, hbefore, hbar⟩ := hleads.split hsplit
  have hsaid := saidLast_of_reached he
  have hheld := holdsLast_of_reached (hfeed ▸ m.nodup_feed_names) he
  have hat : summary.bar = first + done.length := (runBar?_eq_some hbar).at_bar
  rw [hat]
  exact ⟨before, events, after, hbefore, hbar, hbefore.barScores hb hfeed hsaid hheld hbar⟩

end EngineRules

/-! ## A run over one bar, and again -/

namespace EngineRules

/-- a run over one bar at which one dataset has a row -/
theorem run_single {rules : EngineRules} {bar : Nat} {name : String} {w : Window} {e : EngineState}
    (hrange : rules.range? = some (bar, bar)) (hnames : rules.feed.names = [name])
    (hw : rules.feed.window? name bar = some w) (htraining : rules.settings.performTraining = false)
    (hrun : e.population.Runnable) (hflag : e.cancelled = false) :
    ∃ report p, rules.run .silent none e = .ok (report, p) ∧ p.barsDone = [bar] ∧
      report.ledgers = p.state.ledgers ∧ p.state = (rules.datasetBar bar name w e).2.2 := by
  have hbar : rules.runBar? bar e = some (⟨bar, [(rules.datasetBar bar name w e).1],
      (rules.datasetBar bar name w e).2.1, none⟩, [], (rules.datasetBar bar name w e).2.2) := by
    unfold runBar?
    rw [if_neg (by rw [isStuck_eq_false hrun]; exact Bool.false_ne_true), hnames]
    simp only [datasetsBar, hw, isUpdateBar, htraining, Bool.false_and, Bool.false_eq_true, if_false, Nat.add_zero]
  obtain ⟨population, ledgers, stream, cancelled⟩ := e
  cases hflag
  obtain ⟨next, hstep, hbars, hstate⟩ : ∃ next, rules.stepRun? .silent none bar
        ⟨⟨population, ledgers, stream, false⟩, 0, none, 0, false, [], rules.opening bar bar
          ⟨population, ledgers, stream, false⟩⟩ = some next ∧ next.barsDone = [bar] ∧
      next.state = (rules.datasetBar bar name w ⟨population, ledgers, stream, false⟩).2.2 := by
    simp only [stepRun?, hbar, Option.bind_eq_bind, Option.bind_some]
    exact ⟨_, rfl, rfl, rfl⟩
  refine ⟨rules.report next, next, ?_, hbars, rfl, hstate⟩
  rw [range?] at hrange
  have hone : rules.runBars? .silent none 1 bar ⟨⟨population, ledgers, stream, false⟩, 0, none, 0, false, [],
      rules.opening bar bar ⟨population, ledgers, stream, false⟩⟩ = some next :=
    Option.bind_eq_some_iff.2 ⟨next, hstep, rfl⟩
  have hbegun : (false || decide ((none : Option Nat) = some 0)) = false := rfl
  simp only [run, hrange, Nat.add_sub_cancel_left, hbegun, hone]

/-- a run over the last of three days -/
def lastDay : Settings :=
  { engine := { start := some 3, stop := some 3, performTraining := false } }

/-- the market of the three days, and the engine that runs over the last -/
theorem exists_lastDay : ∃ m rules w, Market.new [threeDays] lastDay.population = .ok m ∧
    EngineRules.new m.feed lastDay = .ok rules ∧ rules.range? = some (2, 2) ∧ rules.feed.names = ["gold"] ∧
    rules.feed.window? "gold" 2 = some w ∧ w.change = some 100.0 := by
  have hday : threeDaysMarket.timeline.get? 2 = some 3 := rfl
  have hrow : threeDaysMarket.row? "gold" 2 = some (threeDays, 2) :=
    (Market.built_of_new new_threeDays).row?_of_rowAt (List.mem_singleton_self _) ⟨3, hday, rfl⟩
  have hnames : threeDaysMarket.feed.names = ["gold"] := by decide +kernel
  have hchange : threeDays.change? 2 = some 100.0 := by decide +kernel
  refine ⟨threeDaysMarket, ofSettings lastDay threeDaysMarket.feed,
    ⟨threeDaysMarket.visibleColumns threeDays, 2, threeDaysMarket.maximumOffset, threeDays.change? 2⟩, new_threeDays,
    new_eq_ok (by decide) (by decide), Timeline.range?_self hday, hnames, ?_, hchange⟩
  show threeDaysMarket.window? "gold" 2 = _
  simp only [Market.window?, hrow, Option.bind_eq_bind, Option.bind_some]

/-- the run over the last day, with a robot that has said nothing, and the same run again -/
theorem exists_rerun : ∃ m rules w report p report' p', Market.new [threeDays] lastDay.population = .ok m ∧
    EngineRules.new m.feed lastDay = .ok rules ∧ rules.feed.names = ["gold"] ∧ w.change = some 100.0 ∧
    rules.run .silent none (rules.start alwaysLong (Random.seeded 1)) = .ok (report, p) ∧
    rules.run .silent none p.state = .ok (report', p') ∧ p.barsDone = [2] ∧ p'.barsDone = [2] ∧
    report'.ledgers = p'.state.ledgers ∧
    p'.state = (rules.datasetBar 2 "gold" w
      (rules.datasetBar 2 "gold" w (rules.start alwaysLong (Random.seeded 1))).2.2).2.2 := by
  obtain ⟨m, rules, w, hm, hrules, hrange, hnames, hw, hchange⟩ := exists_lastDay
  obtain ⟨-, -, rfl⟩ := new_eq_ok_iff.1 hrules
  have hfirst : ((ofSettings lastDay m.feed).start alwaysLong (Random.seeded 1)).population.Runnable := fun r hr => by
    rw [List.mem_singleton.1 hr]
    rfl
  obtain ⟨report, p, hrun, hbars, -, hp⟩ := run_single hrange hnames hw rfl hfirst rfl
  have hsecond : p.state.population.Runnable := fun r hr => by
    obtain ⟨columns, row, offset, change⟩ := w
    cases hchange
    rw [hp] at hr
    rw [List.mem_singleton.1 hr]
    rfl
  obtain ⟨report', p', hrun', hbars', hledgers, hp'⟩ := run_single hrange hnames hw rfl hsecond (by rw [hp]; rfl)
  refine ⟨m, _, w, report, p, report', p', hm, hrules, hnames, hchange, hrun, hrun', hbars, hbars', hledgers, ?_⟩
  rw [hp', hp]

/-- what the second run scores was said at the last row of the first -/
theorem scored_in_runs_rerun : ∃ m rules report p report' p', Market.new [threeDays] lastDay.population = .ok m ∧
    EngineRules.new m.feed lastDay = .ok rules ∧
    rules.run .silent none (rules.start alwaysLong (Random.seeded 1)) = .ok (report, p) ∧
    rules.run .silent none p.state = .ok (report', p') ∧
    Reached (rules.passes p.summaries) rules p.summaries p.state ∧
    RunScores rules m [threeDays] (rules.passes p.summaries) p.summaries p.state p' := by
  obtain ⟨m, rules, w, report, p, report', p', hm, hrules, -, -, hrun, hrun', -⟩ := exists_rerun
  have hfresh : ∀ r ∈ alwaysLong.robots, r.pending = .empty := fun r hr => by
    rw [List.mem_singleton.1 hr]
    rfl
  have hreached : Reached (rules.passes p.summaries) rules p.summaries p.state :=
    .run (.fresh rules alwaysLong (Random.seeded 1) hfresh) hrun
  exact ⟨m, rules, report, p, report', p', hm, hrules, hrun, hrun', hreached,
    scored_in_runs [threeDays] lastDay m rules hm hrules _ _ _ hreached .silent none report' p' hrun'⟩

/-- **A repeated run scores a signal on the row it was said at.** A run over the last of three days, with a robot that
has said nothing, and the same run again: at the end of both only the last day was processed, and nothing before it. Yet
the robot counts an outcome, and the ledger holds a record of the day's own vote and change. -/
theorem rerun_scores_the_same_row :
    ∃ m rules report p report' p', Market.new [threeDays] lastDay.population = .ok m ∧
      EngineRules.new m.feed lastDay = .ok rules ∧
      rules.run .silent none (rules.start alwaysLong (Random.seeded 1)) = .ok (report, p) ∧
      rules.run .silent none p.state = .ok (report', p') ∧
      p.barsDone = [2] ∧ p'.barsDone = [2] ∧
      p'.state.population.robots.map Robot.outcomes = [1] ∧
      (report'.ledgers.find? "gold").map Ledger.records = some [⟨2, .long, 100.0, .correct⟩] := by
  obtain ⟨m, rules, w, report, p, report', p', hm, hrules, hnames, hchange, hrun, hrun', hbars, hbars', hledgers,
    hp'⟩ := exists_rerun
  obtain ⟨-, -, hsettings⟩ := new_eq_ok_iff.1 hrules
  refine ⟨m, rules, report, p, report', p', hm, hrules, hrun, hrun', hbars, hbars', ?_, ?_⟩
  · obtain ⟨columns, row, offset, change⟩ := w
    cases hchange
    cases hsettings
    rw [hp']
    rfl
  · set e := rules.start alwaysLong (Random.seeded 1)
    have hvote : (rules.datasetBar 2 "gold" w e).1.signal = .long := by
      have htally : (rules.datasetBar 2 "gold" w e).1.signal =
          (Tally.ofVotes [(.long, (Robot.new ⟨0⟩ ⟨[.emit .long], 1⟩ 1.0).weight rules.policy.weights)]).decide
            rules.settings.voteThreshold := by
        cases hsettings
        rfl
      have hweights : rules.policy.weights = ⟨.winCount, 2.0⟩ := hsettings ▸ rfl
      have hthreshold : rules.settings.voteThreshold = 1.0 := hsettings ▸ rfl
      rw [htally, hweights, hthreshold]
      decide +kernel
    have hstart : e.ledgers.find? "gold" = some .empty :=
      find?_ledgers_start rules alwaysLong _ (hnames ▸ List.mem_singleton_self _)
    have hthreshold : rules.settings.resultThreshold = 0.0 := hsettings ▸ rfl
    have hscored : Outcome.resolve .long 100.0 0.0 = .correct := by decide +kernel
    rw [hledgers, hp', find?_ledgers_datasetBar, find?_ledgers_datasetBar, hstart, hvote, hchange, hthreshold]
    simp only [Option.getD_some, Option.map_some, Ledger.records_enter, Ledger.held_enter, ← hscored]
    rfl

end EngineRules

end TradingRobots
