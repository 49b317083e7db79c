/-
Runs that do not fail.

What is left to guard around programs and cycles: the columns that a window is cut from, the first column and the row
before in a change, and the remainder that tells update bars. A market's columns reach as far as every dataset's do, a
dataset has a first column, and checked settings have at least one bar between updates. Robots keep what programs need,
registers that memory holds, through bars and cycles alike.

`windowGuarded_eq`: the windows of a market.
`runBarGuarded_eq`, `runGuarded_eq`: a bar and a run with guarded operations.
`runs_without_failure`: engines are made, populations drawn and runs done without a failure, under checked settings.
-/
import TradingRobots.Proofs.Engine.Completion
import TradingRobots.Proofs.Safety.Cycle
import TradingRobots.Proofs.Safety.Execution
import TradingRobots.Proofs.Timeline.Range

namespace TradingRobots

open TradingRobots.Random

/-! ## Windows -/

/-- the change needs a first column, and counts the row before down from its own -/
def Dataset.changeGuarded (d : Dataset) (row : Nat) : Guarded (Option Float) :=
  if row = 0 then .ok none
  else do
    let series ← Guarded.index d.columns 0
    let before ← Guarded.sub row 1
    .ok (do
      let previous ← series[before]?
      let current ← series[row]?
      if previous == 0.0 then none
      else
        let change := (current - previous) / previous * 100.0
        if change.isFinite then some change else none)

/-- every dataset has a first column -/
theorem Dataset.changeGuarded_eq (d : Dataset) (row : Nat) : d.changeGuarded row = .ok (d.change? row) := by
  have hfirst : d.columns[0]? = some d.series := by
    rw [← List.head?_eq_getElem?, List.head?_eq_some_head d.some_column]
    rfl
  unfold changeGuarded change?
  split
  · rfl
  · rename_i hrow
    rw [Guarded.index_eq hfirst, Guarded.ok_bind, Guarded.sub_eq (Nat.pos_of_ne_zero hrow)]
    rfl

namespace Market

/-- columns after the ignored ones, as many as all datasets have -/
def visibleColumnsGuarded (m : Market) (d : Dataset) : Guarded (Array (Array Float)) := do
  let columns ← Guarded.suffix d.columns m.ignoredColumns
  let visible ← Guarded.front columns m.columnCount
  .ok visible.toArray

def windowGuarded (m : Market) (name : String) (bar : Nat) : Guarded (Option Window) :=
  match m.row? name bar with
  | none => .ok none
  | some (d, row) => do
    let columns ← m.visibleColumnsGuarded d
    let change ← d.changeGuarded row
    .ok (some ⟨columns, row, m.maximumOffset, change⟩)

variable {datasets : List Dataset} {settings : PopulationSettings} {m : Market}

theorem Built.visibleColumnsGuarded_eq (h : Built datasets settings m) {d : Dataset} (hd : d ∈ datasets) :
    m.visibleColumnsGuarded d = .ok (m.visibleColumns d) := by
  have hcount := h.columnCount_le d hd
  have hpos := h.columnCount_pos
  rw [← h.ignoredColumns] at hcount
  have hignored : m.ignoredColumns ≤ d.columns.length := by omega
  have hvisible : m.columnCount ≤ (d.columns.drop m.ignoredColumns).length := by rwa [List.length_drop]
  rw [visibleColumnsGuarded, Guarded.suffix_eq hignored, Guarded.ok_bind, Guarded.front_eq hvisible]
  rfl

/-- **The windows of a market are cut without failing.** -/
theorem Built.windowGuarded_eq (h : Built datasets settings m) (name : String) (bar : Nat) :
    m.windowGuarded name bar = .ok (m.window? name bar) := by
  unfold windowGuarded window?
  cases hrow : m.row? name bar with
  | none => rfl
  | some at_bar =>
    obtain ⟨d, row⟩ := at_bar
    dsimp only
    rw [h.visibleColumnsGuarded_eq (h.row?_eq_some_iff.1 hrow).1.1, Guarded.ok_bind, d.changeGuarded_eq]
    rfl

end Market

/-! ## Bars -/

/-- all robots have programs that run without failing -/
def Population.Equipped (p : Population) : Prop :=
  ∀ r ∈ p.robots, r.program.Equipped

theorem Population.Equipped.runnable {p : Population} (h : p.Equipped) : p.Runnable :=
  fun r hr => (h r hr).runnable

/-- registers that memory holds are passed on, if memory holds those of newcomers -/
theorem BreedingRules.heritable_equipped {rules : BreedingRules}
    (h : rules.bounds.maximumRegisters ≤ Program.mostRegisters) :
    Robot.Heritable rules fun r => r.program.Equipped := by
  have hiff : ∀ p : Program, p.Equipped ↔ 0 < p.registers ∧ p.registers ≤ Program.mostRegisters := fun p =>
    ⟨fun ⟨hpos, hrun⟩ => ⟨hpos, of_decide_eq_true hrun⟩, fun ⟨hpos, hle⟩ => ⟨hpos, decide_eq_true hle⟩⟩
  simp only [hiff]
  refine heritable_registers (motive := fun n => 0 < n ∧ n ≤ Program.mostRegisters) ?_ ?_
  · rintro m n ⟨hm, hm'⟩ ⟨-, hn'⟩
    exact ⟨hm.trans_le (Nat.le_max_left m n), Nat.max_le.2 ⟨hm', hn'⟩⟩
  · exact fun n hge hle => ⟨hge, hle.trans h⟩

namespace EngineRules

def robotBarGuarded (rules : EngineRules) (dataset : String) (w : Window) (r : Robot) :
    Guarded (Execution × Float × Robot) := do
  let run ← r.program.executeGuarded rules.processorFactor w
  let after := r.predict dataset run.signal
  let after :=
    match w.change with
    | some change => (after.resolve dataset change rules.settings.resultThreshold).2
    | none => after
  .ok (run, r.weight rules.policy.weights, after)

def datasetBarGuarded (rules : EngineRules) (bar : Nat) (dataset : String) (w : Window) (e : EngineState) :
    Guarded (DatasetVote × Nat × EngineState) := do
  let results ← e.population.robots.mapM (rules.robotBarGuarded dataset w)
  let tally := Tally.ofVotes (results.map fun x => (x.1.signal, x.2.1))
  let signal := tally.decide rules.settings.voteThreshold
  let ledger := (e.ledgers.find? dataset).getD .empty
  let ledger :=
    match w.change with
    | some change => (ledger.resolve bar change rules.settings.resultThreshold).2
    | none => ledger
  .ok (⟨dataset, tally, signal⟩,
    results.countP fun x => x.1.termination = .budgetExhausted,
    { e with
      population := { e.population with robots := results.map fun x => x.2.2 }
      ledgers := e.ledgers.insert dataset (ledger.hold signal) })

/-- the windows are cut from the market's datasets -/
def datasetsBarGuarded (rules : EngineRules) (m : Market) (bar : Nat) :
    List String → EngineState → Guarded (List DatasetVote × Nat × EngineState)
  | [], e => .ok ([], 0, e)
  | name :: rest, e => do
    match ← m.windowGuarded name bar with
    | none => rules.datasetsBarGuarded m bar rest e
    | some w =>
      let (vote, exhausted, e) ← rules.datasetBarGuarded bar name w e
      let (votes, others, e) ← rules.datasetsBarGuarded m bar rest e
      .ok (vote :: votes, exhausted + others, e)

/-- the remainder is not looked at without training -/
def isUpdateBarGuarded (rules : EngineRules) (bar : Nat) : Guarded Bool :=
  if rules.settings.performTraining then do
    let past ← Guarded.rem (bar + 1) rules.settings.barsBetweenUpdates
    .ok (past = 0)
  else .ok false

def runBarGuarded (rules : EngineRules) (m : Market) (bar : Nat) (e : EngineState) :
    Guarded (BarSummary × List Event × EngineState) := do
  let (votes, exhausted, e) ← rules.datasetsBarGuarded m bar rules.feed.names e
  if ← rules.isUpdateBarGuarded bar then
    let c ← rules.policy.cycleGuarded e.population e.stream
    .ok (⟨bar, votes, exhausted, some c.report⟩, c.events ++ [.cycled bar c.report],
      { e with population := c.population, stream := c.stream })
  else .ok (⟨bar, votes, exhausted, none⟩, [], e)

variable {rules : EngineRules} {m : Market} {bar : Nat} {e : EngineState}

theorem robotBarGuarded_eq (dataset : String) (w : Window) {r : Robot} (h : r.program.Equipped) :
    rules.robotBarGuarded dataset w r = .ok (rules.robotBar dataset w r) := by
  rw [robotBarGuarded, h.executeGuarded_eq]
  rfl

theorem datasetBarGuarded_eq (dataset : String) (w : Window) (h : e.population.Equipped) :
    rules.datasetBarGuarded bar dataset w e = .ok (rules.datasetBar bar dataset w e) := by
  have hall : ∀ r ∈ e.population.robots, rules.robotBarGuarded dataset w r = .ok (rules.robotBar dataset w r) :=
    fun r hr => robotBarGuarded_eq dataset w (h r hr)
  rw [datasetBarGuarded, Guarded.mapM_eq hall]
  rfl

/-- a dataset's bar changes no program -/
theorem equipped_datasetBar (dataset : String) (w : Window) (h : e.population.Equipped) :
    (rules.datasetBar bar dataset w e).2.2.population.Equipped := by
  intro r hr
  obtain ⟨x, hx, rfl⟩ := List.mem_map.1 hr
  obtain ⟨before, hbefore, rfl⟩ := List.mem_map.1 hx
  rw [program_robotBar]
  exact h before hbefore

/-- the datasets of a bar, one after the other -/
theorem datasetsBarGuarded_eq (hcut : ∀ name, m.windowGuarded name bar = .ok (rules.feed.window? name bar))
    (names : List String) (h : e.population.Equipped) :
    rules.datasetsBarGuarded m bar names e = .ok (rules.datasetsBar bar names e) := by
  induction names generalizing e with
  | nil => rfl
  | cons name rest ih =>
    rw [datasetsBarGuarded, hcut, Guarded.ok_bind, datasetsBar]
    cases rules.feed.window? name bar with
    | none => exact ih h
    | some w =>
      have hafter : (rules.datasetBar bar name w e).2.2.population.Equipped := equipped_datasetBar name w h
      have hrest := ih hafter
      dsimp only
      rw [datasetBarGuarded_eq name w h, Guarded.ok_bind]
      rcases hvote : rules.datasetBar bar name w e with ⟨vote, exhausted, after⟩
      rw [hvote] at hrest
      dsimp only at hrest ⊢
      rw [hrest]
      rfl

theorem isUpdateBarGuarded_eq (h : 0 < rules.settings.barsBetweenUpdates) :
    rules.isUpdateBarGuarded bar = .ok (rules.isUpdateBar bar) := by
  unfold isUpdateBarGuarded isUpdateBar
  cases rules.settings.performTraining with
  | false => rfl
  | true =>
    rw [if_pos rfl, Guarded.rem_eq h]
    rfl

/-- **A bar that comes about does so without failing.** -/
theorem runBarGuarded_eq (hcut : ∀ name, m.windowGuarded name bar = .ok (rules.feed.window? name bar))
    (hupdates : 0 < rules.settings.barsBetweenUpdates) (h : e.population.Equipped)
    {done : BarSummary × List Event × EngineState} (hbar : rules.runBar? bar e = some done) :
    rules.runBarGuarded m bar e = .ok done := by
  rw [runBarGuarded, datasetsBarGuarded_eq hcut _ h, Guarded.ok_bind, isUpdateBarGuarded_eq hupdates]
  unfold runBar? at hbar
  split at hbar
  · cases hbar
  · rcases hdatasets : rules.datasetsBar bar rules.feed.names e with ⟨votes, exhausted, e'⟩
    rw [hdatasets] at hbar
    dsimp only at hbar ⊢
    rw [Guarded.ok_bind]
    split at hbar
    · rename_i hupdate
      obtain ⟨c, hc, hbar⟩ := Option.bind_eq_some_iff.1 hbar
      cases hbar
      rw [if_pos hupdate, EvolutionPolicy.cycleGuarded_eq hc]
      rfl
    · rename_i hupdate
      cases hbar
      rw [if_neg hupdate]

/-! ## Runs -/

def stepRunGuarded (rules : EngineRules) (m : Market) (watch : Watcher) (stopAfter : Option Nat) (bar : Nat)
    (p : Progress) : Guarded Progress := do
  let (summary, events, state) ← rules.runBarGuarded m bar p.state
  let cycle := summary.cycle.toList.map (Message.cycled bar)
  let told := cycle ++ [.completed summary]
  .ok {
    state := { state with cancelled := state.cancelled || stopAfter = some (p.bars + 1) }
    bars := p.bars + 1
    lastBar := some bar
    cycles := p.cycles + cycle.length
    stopped := p.stopped
    messages := p.messages ++ .started bar :: told
    events := p.events ++ watch (.started bar) ++ events ++ told.flatMap watch }

def runBarsGuarded (rules : EngineRules) (m : Market) (watch : Watcher) (stopAfter : Option Nat) :
    Nat → Nat → Progress → Guarded Progress
  | 0, _, p => .ok p
  | left + 1, bar, p =>
    if p.state.cancelled then .ok { p with stopped := true, events := p.events ++ [.cancelled bar] }
    else do
      let p ← rules.stepRunGuarded m watch stopAfter bar p
      rules.runBarsGuarded m watch stopAfter left (bar + 1) p

/-- a run in which every operation that may have no result is guarded -/
def runGuarded (rules : EngineRules) (m : Market) (watch : Watcher) (stopAfter : Option Nat) (e : EngineState) :
    Guarded (Except RunDefect (RunReport × Progress)) :=
  match rules.feed.range? rules.settings.start rules.settings.stop with
  | none => .ok (.error .noBars)
  | some (first, last) => do
    let e := { e with cancelled := e.cancelled || stopAfter = some 0 }
    let p ← rules.runBarsGuarded m watch stopAfter (last + 1 - first) first
      ⟨e, 0, none, 0, false, [], rules.opening first last e⟩
    .ok (.ok (rules.report p, p))

variable {watch : Watcher} {stopAfter : Option Nat} {settings : Settings} {datasets : List Dataset}

/-- a bar comes about without failing and leaves programs that run without failing -/
theorem exists_runBarGuarded (hb : Market.Built datasets settings.population m) (hs : settings.check = .ok ())
    (hh : settings.population.Holdable) (bar : Nat) (h : e.population.Equipped) :
    ∃ summary events e', (ofSettings settings m.feed).runBar? bar e = some (summary, events, e') ∧
      (ofSettings settings m.feed).runBarGuarded m bar e = .ok (summary, events, e') ∧ e'.population.Equipped := by
  obtain ⟨summary, events, e', hbar, -⟩ : ∃ summary events e',
      (ofSettings settings m.feed).runBar? bar e = some (summary, events, e') ∧ e'.population.Runnable :=
    exists_runBar?_runnable hs hh bar h.runnable
  have hregisters : (ofSettings settings m.feed).policy.breeding.bounds.maximumRegisters ≤ Program.mostRegisters :=
    hh.maximumRegisters_le m.feed.columnCount
  have hupdates : 0 < settings.engine.barsBetweenUpdates :=
    (EngineSettings.check_eq_ok_iff.1 (Settings.check_eq_ok_iff.1 hs).2.2).2.1
  refine ⟨summary, events, e', hbar, ?_, ?_⟩
  · exact runBarGuarded_eq (fun name => hb.windowGuarded_eq name bar) hupdates h hbar
  · refine (runBar?_eq_some hbar).all_robots (BreedingRules.heritable_equipped hregisters) (fun r hr => ?_) h
    rw [program_foldl_robotAt]
    exact hr

/-- bars one after the other do not fail, if every bar does not -/
theorem exists_runBarsGuarded {motive : EngineState → Prop}
    (hstep : ∀ bar e, motive e → ∃ summary events e', rules.runBar? bar e = some (summary, events, e') ∧
      rules.runBarGuarded m bar e = .ok (summary, events, e') ∧ ∀ flag, motive { e' with cancelled := flag })
    (left bar : Nat) {p : Progress} (hp : motive p.state) :
    ∃ p', rules.runBars? watch stopAfter left bar p = some p' ∧
      rules.runBarsGuarded m watch stopAfter left bar p = .ok p' := by
  induction left generalizing bar p with
  | zero => exact ⟨p, rfl, rfl⟩
  | succ left ih =>
    unfold runBars? runBarsGuarded
    split
    · exact ⟨_, rfl, rfl⟩
    · obtain ⟨summary, events, e', hbar, hguarded, hm⟩ := hstep bar p.state hp
      simp only [stepRun?, hbar, Option.bind_eq_bind, Option.bind_some, stepRunGuarded, hguarded, Guarded.ok_bind]
      exact ih (bar + 1) (hm _)

/-- **A run does not fail** under checked settings, on programs with registers that memory holds. -/
theorem runGuarded_eq (hb : Market.Built datasets settings.population m) (hs : settings.check = .ok ())
    (hh : settings.population.Holdable) (h : e.population.Equipped) :
    (ofSettings settings m.feed).runGuarded m watch stopAfter e =
      .ok ((ofSettings settings m.feed).run watch stopAfter e) := by
  unfold runGuarded run
  cases (ofSettings settings m.feed).feed.range? (ofSettings settings m.feed).settings.start
      (ofSettings settings m.feed).settings.stop with
  | none => rfl
  | some bounds =>
    obtain ⟨first, last⟩ := bounds
    dsimp only
    set begun : Progress := ⟨{ e with cancelled := e.cancelled || stopAfter = some 0 }, 0, none, 0, false, [],
      (ofSettings settings m.feed).opening first last { e with cancelled := e.cancelled || stopAfter = some 0 }⟩
    have hbegun : begun.state.population.Equipped := h
    obtain ⟨p, hp, hguarded⟩ : ∃ p,
        (ofSettings settings m.feed).runBars? watch stopAfter (last + 1 - first) first begun = some p ∧
        (ofSettings settings m.feed).runBarsGuarded m watch stopAfter (last + 1 - first) first begun = .ok p := by
      refine exists_runBarsGuarded (motive := fun e => e.population.Equipped) (fun bar e he => ?_) _ first hbegun
      obtain ⟨summary, events, e', hbar, hguarded, hafter⟩ := exists_runBarGuarded hb hs hh bar he
      exact ⟨summary, events, e', hbar, hguarded, fun _ => hafter⟩
    rw [hp, hguarded]
    rfl

/-- a run starts unless no time of any dataset lies within its limits -/
theorem range?_eq_none_iff_times (hb : Market.Built datasets settings.population m) :
    (ofSettings settings m.feed).range? = none ↔
      ∀ d ∈ datasets, ∀ time ∈ d.times, ¬Timeline.Within settings.engine.start settings.engine.stop time := by
  have hpoint : ∀ time, (∃ bar, m.timeline.get? bar = some time) ↔ ∃ d ∈ datasets, time ∈ d.times := by
    intro time
    rw [← Timeline.mem_points_ofDatasets, ← hb.timeline, List.mem_iff_getElem?]
    simp only [Timeline.get?, Array.getElem?_toList]
  show m.timeline.range? settings.engine.start settings.engine.stop = none ↔ _
  rw [Timeline.range?_eq_none_iff]
  constructor
  · intro h d hd time htime
    obtain ⟨bar, hbar⟩ := (hpoint time).2 ⟨d, hd, htime⟩
    exact h bar time hbar
  · intro h bar time hbar
    obtain ⟨d, hd, htime⟩ := (hpoint time).1 ⟨bar, hbar⟩
    exact h d hd time htime

/-- fit robots have programs that run without failing, under settings that memory can meet -/
theorem equipped_of_fit (hh : settings.population.Holdable) {p : Population}
    (hp : ∀ r ∈ p.robots, r.Fit (ofSettings settings m.feed).bounds) : p.Equipped := by
  intro r hr
  have hadmitted := (hp r hr).admitted
  have hmost : (ofSettings settings m.feed).bounds.maximumRegisters ≤ Program.mostRegisters :=
    hh.maximumRegisters_le m.feed.columnCount
  exact ⟨hadmitted.registers_pos, decide_eq_true (hadmitted.registers_le.trans hmost)⟩

/-- **Nothing fails under checked settings.** On a market of some datasets, settings that pass their check, and that
memory can meet, make an engine. On any stream its random population is drawn without a failure, and passes its check
if its size is a machine word. From any state with a random population or one that passes its check, a run has the same
result with every operation guarded: no place is looked up outside a list, no part cut beyond its end, no number drawn
from an empty range, nothing counted below zero, no remainder taken by zero, no clamp or sort left undefined, and no
program given registers that memory cannot hold. The only error is that of a range without bars, and it comes exactly
when no time of any dataset lies within the limits. Counters are taken to stay within their words, and of streams on which
a draw does not end (`Stream.patience`) nothing is said. -/
theorem runs_without_failure (datasets : List Dataset) (settings : Settings) (m : Market)
    (hm : Market.new datasets settings.population = .ok m) (hs : settings.check = .ok ())
    (hh : settings.population.Holdable) :
    ∃ rules, EngineRules.new m.feed settings = .ok rules ∧
      (∀ s, ∃ p s', Population.randomGuarded settings.population.desiredSize rules.bounds s = .ok (p, s') ∧
        Population.random? settings.population.desiredSize rules.bounds s = some (p, s') ∧
        (settings.population.desiredSize < Binary64.wordLimit → p.check rules.bounds = .ok ())) ∧
      ∀ e watch stopAfter, (e.population.check rules.bounds = .ok () ∨
          ∃ s s', Population.random? settings.population.desiredSize rules.bounds s = some (e.population, s')) →
        rules.runGuarded m watch stopAfter e = .ok (rules.run watch stopAfter e) ∧
        ∀ defect, rules.run watch stopAfter e = .error defect ↔ defect = .noBars ∧
          ∀ d ∈ datasets, ∀ time ∈ d.times,
            ¬Timeline.Within settings.engine.start settings.engine.stop time := by
  have hb := Market.built_of_new hm
  have hp : settings.population.check = .ok () := (Settings.check_eq_ok_iff.1 hs).1
  have hroom : (ofSettings settings m.feed).bounds.Roomy := PopulationSettings.roomy_of_check hp hb.columnCount_pos
  have hdraw : (ofSettings settings m.feed).bounds.Drawable :=
    PopulationSettings.drawable_of_check hp m.feed.columnCount hh.instructions
  refine ⟨ofSettings settings m.feed, new_eq_ok hs hb.columnCount_pos, ?_, ?_⟩
  · intro s
    obtain ⟨p, s', hdrawn⟩ := Population.exists_random? hdraw settings.population.desiredSize s
    exact ⟨p, s', Population.randomGuarded_eq hdrawn, hdrawn,
      fun hsize => Population.check_eq_ok_iff.2 (Population.sound_of_random? hroom hdrawn hsize)⟩
  · intro e watch stopAfter hpopulation
    have hequipped : e.population.Equipped := by
      apply equipped_of_fit hh
      rcases hpopulation with hcheck | ⟨s, s', hdrawn⟩
      · exact (Population.sound_iff.1 (Population.check_eq_ok_iff.1 hcheck)).2
      · exact Population.fit_random? hroom hdrawn
    refine ⟨runGuarded_eq hb hs hh hequipped, fun defect => ?_⟩
    rw [← range?_eq_none_iff_times hb]
    exact run_eq_error_iff hs hh hequipped.runnable

/-- under the default settings, on three days of gold, an engine's first population runs without a failure -/
theorem runs_without_failure_gold :
    let settings : Settings := {}
    ∃ m rules p s report progress, Market.new [threeDays] settings.population = .ok m ∧ settings.check = .ok () ∧
      settings.population.Holdable ∧ EngineRules.new m.feed settings = .ok rules ∧
      Population.randomGuarded 1000 rules.bounds (seeded 7) = .ok (p, s) ∧ p.check rules.bounds = .ok () ∧
      rules.runGuarded m .silent none (rules.start p s) = .ok (.ok (report, progress)) := by
  intro settings
  obtain ⟨m, hm⟩ : ∃ m, Market.new [threeDays] settings.population = .ok m := ⟨_, rfl⟩
  have hs : settings.check = .ok () := by decide
  have hh : settings.population.Holdable := ⟨by decide, by decide⟩
  obtain ⟨rules, hrules, hrandom, hruns⟩ := runs_without_failure [threeDays] settings m hm hs hh
  obtain ⟨p, s, hdrawn, hsome, hsound⟩ := hrandom (seeded 7)
  have hcheck := hsound (by decide)
  obtain ⟨hguarded, herror⟩ := hruns (rules.start p s) .silent none (.inr ⟨seeded 7, s, hsome⟩)
  cases hrun : rules.run .silent none (rules.start p s) with
  | error defect =>
    obtain ⟨-, hnone⟩ := (herror defect).1 hrun
    exact absurd (Timeline.within_none 1) (hnone threeDays (List.mem_singleton_self _) 1 (by decide))
  | ok result =>
    rw [hrun] at hguarded
    exact ⟨m, rules, p, s, result.1, result.2, hm, hs, hh, hrules, hdrawn, hcheck, hguarded⟩

end EngineRules

end TradingRobots
