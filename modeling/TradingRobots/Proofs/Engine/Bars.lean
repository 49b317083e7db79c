/-
One bar of an engine, part by part.

The datasets with a row at a bar are gone through one after the other. Each gets one vote and one entry in its ledger;
the others' ledgers stay. Every robot takes its part in each of them, and the cycle, if one follows, only changes who
lives.

`votes_datasetsBar`, `find?_ledgers_datasetsBar`, `population_datasetsBar`: votes, ledgers, robots after the datasets.
`runBar?_eq_some`: everything that a bar is.
`exists_runBar?`: a bar comes about when every program can be run and newcomers can be drawn.
-/
import TradingRobots.Engine
import TradingRobots.Proofs.Cycle.Heritage
import TradingRobots.Proofs.Ledger.Entries
import TradingRobots.Proofs.Market.Rows

namespace TradingRobots

/-- the vote on a dataset at the bar, if there was one -/
def BarSummary.signal? (s : BarSummary) (name : String) : Option Signal :=
  (s.votes.find? fun v => v.dataset = name).map DatasetVote.signal

namespace EngineRules

/-- what a bar entered into a dataset's ledger, if it voted on the dataset -/
def entry? (rules : EngineRules) (name : String) (s : BarSummary) : Option Entry :=
  (s.signal? name).map fun signal => ⟨s.bar, rules.feed.change? name s.bar, signal⟩

/-- the datasets that have a row at a bar, in the feed's order -/
def present (rules : EngineRules) (bar : Nat) (names : List String) : List String :=
  names.filter fun name => (rules.feed.window? name bar).isSome

/-- a robot after its part in one dataset at a bar, if the dataset has a row there -/
def robotAt (rules : EngineRules) (bar : Nat) (r : Robot) (name : String) : Robot :=
  match rules.feed.window? name bar with
  | some w => (rules.robotBar name w r).2.2
  | none => r

variable {rules : EngineRules} {bar : Nat}

/-! ## The datasets of a bar -/

/-- every dataset with a row gets one vote, in the feed's order -/
theorem votes_datasetsBar (rules : EngineRules) (bar : Nat) (names : List String) (e : EngineState) :
    (rules.datasetsBar bar names e).1.map DatasetVote.dataset = rules.present bar names := by
  induction names generalizing e with
  | nil => rfl
  | cons name rest ih =>
    unfold datasetsBar present
    cases hw : rules.feed.window? name bar with
    | none =>
      rw [List.filter_cons_of_neg (by simp [hw])]
      exact ih e
    | some w =>
      rw [List.filter_cons_of_pos (by simp [hw])]
      exact congrArg (name :: ·) (ih _)

/-- the datasets change robots one by one; the stream and the flag are left alone -/
theorem population_datasetsBar (rules : EngineRules) (bar : Nat) (names : List String) (e : EngineState) :
    (rules.datasetsBar bar names e).2.2.population =
        { e.population with robots := e.population.robots.map fun r => names.foldl (rules.robotAt bar) r } ∧
      (rules.datasetsBar bar names e).2.2.stream = e.stream ∧
      (rules.datasetsBar bar names e).2.2.cancelled = e.cancelled := by
  induction names generalizing e with
  | nil =>
    refine ⟨?_, rfl, rfl⟩
    show e.population = { e.population with robots := e.population.robots.map id }
    rw [List.map_id]
  | cons name rest ih =>
    unfold datasetsBar
    cases hw : rules.feed.window? name bar with
    | none =>
      obtain ⟨hp, hs, hc⟩ := ih e
      refine ⟨?_, hs, hc⟩
      rw [hp]
      simp only [List.foldl_cons, robotAt, hw]
    | some w =>
      obtain ⟨hp, hs, hc⟩ := ih (rules.datasetBar bar name w e).2.2
      refine ⟨hp.trans ?_, hs, hc⟩
      simp only [datasetBar, List.map_map, Function.comp_def, List.foldl_cons, robotAt, hw]

/-- a dataset at a bar makes one entry in its ledger -/
theorem find?_ledgers_datasetBar (rules : EngineRules) (bar : Nat) (name : String) (w : Window) (e : EngineState) :
    (rules.datasetBar bar name w e).2.2.ledgers.find? name =
      some (((e.ledgers.find? name).getD .empty).enter rules.settings.resultThreshold
        ⟨bar, w.change, (rules.datasetBar bar name w e).1.signal⟩) := by
  simp only [datasetBar, NameTable.find?_insert, if_true]
  rfl

theorem find?_votes_eq_none {votes : List DatasetVote} {name : String}
    (h : name ∉ votes.map DatasetVote.dataset) : (votes.find? fun v => v.dataset = name) = none := by
  rw [List.find?_eq_none]
  intro v hv hname
  exact h (List.mem_map.2 ⟨v, hv, of_decide_eq_true hname⟩)

/-- **The ledger of a dataset after the datasets of a bar**: one entry if it had a row, and otherwise none. -/
theorem find?_ledgers_datasetsBar {names : List String} (hn : names.Nodup) (e : EngineState) (name : String) :
    (rules.datasetsBar bar names e).2.2.ledgers.find? name =
      match (rules.datasetsBar bar names e).1.find? fun v => v.dataset = name with
      | none => e.ledgers.find? name
      | some v => some (((e.ledgers.find? name).getD .empty).enter rules.settings.resultThreshold
          ⟨bar, rules.feed.change? name bar, v.signal⟩) := by
  induction names generalizing e with
  | nil => rfl
  | cons other rest ih =>
    obtain ⟨hother, hrest⟩ := List.nodup_cons.1 hn
    unfold datasetsBar
    cases hw : rules.feed.window? other bar with
    | none => exact ih hrest e
    | some w =>
      have hafter := ih hrest (rules.datasetBar bar other w e).2.2
      by_cases hname : other = name
      · subst hname
        have hnone : ((rules.datasetsBar bar rest (rules.datasetBar bar other w e).2.2).1.find?
            fun v => v.dataset = other) = none := by
          refine find?_votes_eq_none ?_
          rw [votes_datasetsBar]
          exact fun h => hother (List.mem_of_mem_filter h)
        rw [hnone] at hafter
        have hchange : rules.feed.change? other bar = w.change := by
          rw [Feed.change?, hw]
          rfl
        have hvote : (rules.datasetBar bar other w e).1.dataset = other := rfl
        simp only [hafter, find?_ledgers_datasetBar, hchange, List.find?_cons, hvote, decide_true]
      · have hkept : (rules.datasetBar bar other w e).2.2.ledgers.find? name = e.ledgers.find? name := by
          simp only [datasetBar, NameTable.find?_insert, if_neg (Ne.symm hname)]
        have hvote : (rules.datasetBar bar other w e).1.dataset = other := rfl
        simp only [hafter, hkept, List.find?_cons, hvote, decide_eq_false hname]

/-! ## A whole bar -/

/-- what a bar does to the state: the datasets first, then the cycle on update bars -/
structure BarDone (rules : EngineRules) (bar : Nat) (e : EngineState) (summary : BarSummary) (e' : EngineState) :
    Prop where
  runnable : rules.isStuck bar e = false
  at_bar : summary.bar = bar
  votes : summary.votes = (rules.datasetsBar bar rules.feed.names e).1
  ledgers : e'.ledgers = (rules.datasetsBar bar rules.feed.names e).2.2.ledgers
  cancelled : e'.cancelled = e.cancelled
  population :
    let p := (rules.datasetsBar bar rules.feed.names e).2.2.population
    e'.population = p ∨ ∃ c, rules.policy.cycle? p e.stream = some c ∧ e'.population = c.population

/-- **Everything that a bar is.** -/
theorem runBar?_eq_some {e e' : EngineState} {summary : BarSummary} {events : List Event}
    (h : rules.runBar? bar e = some (summary, events, e')) : BarDone rules bar e summary e' := by
  obtain ⟨-, hstream, hcancelled⟩ := population_datasetsBar rules bar rules.feed.names e
  unfold runBar? at h
  split at h
  · cases h
  · rename_i hstuck
    have hrunnable : rules.isStuck bar e = false := by simpa using hstuck
    dsimp only at h
    split at h
    · obtain ⟨c, hc, h⟩ := Option.bind_eq_some_iff.1 h
      cases h
      rw [hstream] at hc
      exact ⟨hrunnable, rfl, rfl, rfl, hcancelled, Or.inr ⟨c, hc, rfl⟩⟩
    · cases h
      exact ⟨hrunnable, rfl, rfl, rfl, hcancelled, Or.inl rfl⟩

/-- no bar is stuck on programs that can be run -/
theorem isStuck_eq_false {e : EngineState} (hrun : ∀ r ∈ e.population.robots, r.program.isRunnable = true) :
    rules.isStuck bar e = false := by
  have hall : (e.population.robots.any fun r => !r.program.isRunnable) = false := by
    rw [List.any_eq_false]
    intro r hr
    rw [hrun r hr]
    exact Bool.false_ne_true
  rw [isStuck, hall, Bool.false_and]

/-- a bar comes about when every program can be run and newcomers can be drawn -/
theorem exists_runBar? (hdraw : rules.bounds.Drawable) {e : EngineState}
    (hrun : ∀ r ∈ e.population.robots, r.program.isRunnable = true) :
    ∃ summary events e', rules.runBar? bar e = some (summary, events, e') := by
  unfold runBar?
  rw [if_neg (by rw [isStuck_eq_false hrun]; exact Bool.false_ne_true)]
  dsimp only
  split
  · obtain ⟨c, hc⟩ : ∃ c, rules.policy.cycle? (rules.datasetsBar bar rules.feed.names e).2.2.population
        (rules.datasetsBar bar rules.feed.names e).2.2.stream = some c :=
      EvolutionPolicy.exists_cycle? fun _ => hdraw
    rw [hc]
    exact ⟨_, _, _, rfl⟩
  · exact ⟨_, _, _, rfl⟩

/-! ## What a bar leaves -/

variable {e e' : EngineState} {summary : BarSummary}

/-- a bar votes on the datasets that have a row there, each once -/
theorem BarDone.datasets (h : BarDone rules bar e summary e') :
    summary.votes.map DatasetVote.dataset = rules.present bar rules.feed.names := by
  rw [h.votes, votes_datasetsBar]

/-- **A bar makes one entry in the ledger of a dataset it voted on**, and none in the others. -/
theorem BarDone.find?_ledgers (h : BarDone rules bar e summary e') (hn : rules.feed.names.Nodup) (name : String) :
    e'.ledgers.find? name =
      match rules.entry? name summary with
      | none => e.ledgers.find? name
      | some entry => some (((e.ledgers.find? name).getD .empty).enter rules.settings.resultThreshold entry) := by
  rw [h.ledgers, find?_ledgers_datasetsBar hn, ← h.votes, entry?, BarSummary.signal?, h.at_bar]
  cases summary.votes.find? fun v => v.dataset = name with
  | none => rfl
  | some v => rfl

/-- what every robot has after its part in a bar, and robots pass on, all robots have after the bar -/
theorem BarDone.all_robots (h : BarDone rules bar e summary e') {before after : Robot → Prop}
    (hm : Robot.Heritable rules.policy.breeding after)
    (hat : ∀ r, before r → after (rules.feed.names.foldl (rules.robotAt bar) r))
    (he : ∀ r ∈ e.population.robots, before r) : ∀ r ∈ e'.population.robots, after r := by
  have hdatasets : ∀ r ∈ (rules.datasetsBar bar rules.feed.names e).2.2.population.robots, after r := by
    intro r hr
    rw [(population_datasetsBar rules bar rules.feed.names e).1] at hr
    obtain ⟨r', hr', rfl⟩ := List.mem_map.1 hr
    exact hat r' (he r' hr')
  rcases h.population with hp | ⟨c, hc, hp⟩
  · rw [hp]
    exact hdatasets
  · rw [hp]
    exact EvolutionPolicy.all_cycle? hm hdatasets hc

theorem program_robotBar (rules : EngineRules) (name : String) (w : Window) (r : Robot) :
    (rules.robotBar name w r).2.2.program = r.program := by
  unfold robotBar
  cases w.change with
  | none => rfl
  | some change =>
    simp only [Robot.resolve]
    split
    · rfl
    · rfl

theorem program_robotAt (rules : EngineRules) (bar : Nat) (r : Robot) (name : String) :
    (rules.robotAt bar r name).program = r.program := by
  unfold robotAt
  cases rules.feed.window? name bar with
  | none => rfl
  | some w => exact rules.program_robotBar name w r

/-- no part in a bar changes a program -/
theorem program_foldl_robotAt (rules : EngineRules) (bar : Nat) (names : List String) (r : Robot) :
    (names.foldl (rules.robotAt bar) r).program = r.program := by
  induction names generalizing r with
  | nil => rfl
  | cons name rest ih => exact (ih _).trans (rules.program_robotAt bar r name)

end EngineRules

end TradingRobots
