/-
A run is its bars, and cancelling it keeps the first ones.

`eachBar?` takes an engine through a list of bars and does nothing else. A run over a range does the same to the
population, the ledgers and the stream, on as many bars as come before the flag is seen; the flag itself changes nothing
about a bar. What a run reports and tells can be read off those bars and their summaries, and how many cycles it had off
the numbers of the first and the last bar.

`eachBar?_flagged`: bars do not look at the flag.
`runBars?_eq_eachBar?`: the loop of a run, bar by bar.
`countP_isUpdateBar`: how many bars of a range are followed by a cycle.
`eachBar?_untrained`: without training only the robots' records of their predictions change.
`run_is_its_bars`: a run, cancelled or not, against its bars.
-/
import TradingRobots.Proofs.Engine.Completion
import TradingRobots.Proofs.Timeline.Scan

namespace TradingRobots

/-- what a run tells of a bar: its start, its cycle if there was one, and its completion -/
def BarSummary.told (s : BarSummary) : List Message :=
  .started s.bar :: (s.cycle.toList.map (Message.cycled s.bar) ++ [.completed s])

/-- what only cycles change of a robot: its name, its program, its children and the weight it inherited -/
def Robot.heritage (r : Robot) : RobotName × Program × Nat × Float :=
  (r.name, r.program, r.children, r.inheritedWeight)

namespace EngineRules

/-- bars one after the other: their summaries, and the state after them; nothing where one does not come about -/
def eachBar? (rules : EngineRules) : List Nat → EngineState → Option (List BarSummary × EngineState)
  | [], e => some ([], e)
  | bar :: rest, e => do
    let (summary, _, e) ← rules.runBar? bar e
    let (summaries, e) ← rules.eachBar? rest e
    some (summary :: summaries, e)

variable {rules : EngineRules} {watch : Watcher} {stopAfter : Option Nat} {bar : Nat} {bars : List Nat}
  {e e' : EngineState} {summary : BarSummary} {summaries : List BarSummary} {events : List Event}

theorem eachBar?_cons_of_none {rest : List Nat} (h : rules.runBar? bar e = none) :
    rules.eachBar? (bar :: rest) e = none := by
  simp only [eachBar?, h, Option.bind_eq_bind, Option.bind_none]

theorem eachBar?_cons {rest : List Nat} (h : rules.runBar? bar e = some (summary, events, e')) :
    rules.eachBar? (bar :: rest) e = (rules.eachBar? rest e').map fun x => (summary :: x.1, x.2) := by
  simp only [eachBar?, h, Option.bind_eq_bind, Option.bind_some]
  cases rules.eachBar? rest e' <;> rfl

/-- bars that all came about are the first one, and the rest after it -/
theorem eachBar?_cons_inv {rest : List Nat} (h : rules.eachBar? (bar :: rest) e = some (summaries, e')) :
    ∃ summary events next later, rules.runBar? bar e = some (summary, events, next) ∧
      rules.eachBar? rest next = some (later, e') ∧ summaries = summary :: later := by
  cases hbar : rules.runBar? bar e with
  | none =>
    rw [eachBar?_cons_of_none hbar] at h
    cases h
  | some done =>
    obtain ⟨summary, events, next⟩ := done
    rw [eachBar?_cons hbar] at h
    obtain ⟨⟨later, last⟩, hrest, hsame⟩ := Option.map_eq_some_iff.1 h
    cases hsame
    exact ⟨summary, events, next, later, rfl, hrest, rfl⟩

/-! ## The flag -/

theorem datasetsBar_flagged (rules : EngineRules) (bar : Nat) (names : List String) (e : EngineState) (flag : Bool) :
    rules.datasetsBar bar names { e with cancelled := flag } =
      ((rules.datasetsBar bar names e).1, (rules.datasetsBar bar names e).2.1,
        { (rules.datasetsBar bar names e).2.2 with cancelled := flag }) := by
  induction names generalizing e with
  | nil => rfl
  | cons name rest ih =>
    unfold datasetsBar
    cases rules.feed.window? name bar with
    | none => exact ih e
    | some w =>
      have hbar : rules.datasetBar bar name w { e with cancelled := flag } =
          ((rules.datasetBar bar name w e).1, (rules.datasetBar bar name w e).2.1,
            { (rules.datasetBar bar name w e).2.2 with cancelled := flag }) := rfl
      simp only [hbar, ih]

theorem runBar?_flagged (rules : EngineRules) (bar : Nat) (e : EngineState) (flag : Bool) :
    rules.runBar? bar { e with cancelled := flag } =
      (rules.runBar? bar e).map fun x => (x.1, x.2.1, { x.2.2 with cancelled := flag }) := by
  have hstuck : rules.isStuck bar { e with cancelled := flag } = rules.isStuck bar e := rfl
  unfold runBar?
  rw [hstuck, datasetsBar_flagged]
  split
  · rfl
  · dsimp only
    split
    · cases rules.policy.cycle? (rules.datasetsBar bar rules.feed.names e).2.2.population
          (rules.datasetsBar bar rules.feed.names e).2.2.stream with
      | none => rfl
      | some c => rfl
    · rfl

/-- **Bars do not look at the flag.** -/
theorem eachBar?_flagged (rules : EngineRules) (bars : List Nat) (e : EngineState) (flag : Bool) :
    rules.eachBar? bars { e with cancelled := flag } =
      (rules.eachBar? bars e).map fun x => (x.1, { x.2 with cancelled := flag }) := by
  induction bars generalizing e with
  | nil => rfl
  | cons bar rest ih =>
    have hbar := rules.runBar?_flagged bar e flag
    cases hdone : rules.runBar? bar e with
    | none =>
      rw [hdone] at hbar
      rw [eachBar?_cons_of_none hbar, eachBar?_cons_of_none hdone]
      rfl
    | some done =>
      rw [hdone] at hbar
      rw [eachBar?_cons hbar, eachBar?_cons hdone, ih, Option.map_map, Option.map_map]
      rfl

/-! ## The loop of a run -/

/-- how many of the bars that are left come before the flag is seen, if it may have been raised already or will be after
so many bars in all -/
def barsToGo (cancelled : Bool) (stopAfter : Option Nat) (done left : Nat) : Nat :=
  if cancelled then 0 else stopAfter.elim left fun count => min left (count - done)

theorem barsToGo_le (cancelled : Bool) (stopAfter : Option Nat) (done left : Nat) :
    barsToGo cancelled stopAfter done left ≤ left := by
  unfold barsToGo
  cases stopAfter <;> split <;> simp

/-- a flag that is raised after no bar at all is raised before the first -/
theorem barsToGo_begun (cancelled : Bool) (stopAfter : Option Nat) (total : Nat) :
    barsToGo (cancelled || decide (stopAfter = some 0)) stopAfter 0 total = barsToGo cancelled stopAfter 0 total := by
  cases cancelled with
  | true => rfl
  | false =>
    cases stopAfter with
    | none => rfl
    | some count => cases count <;> simp [barsToGo]

/-- a run that went on from one progress to another over bars with these summaries, to this state -/
structure Went (p : Progress) (summaries : List BarSummary) (after : EngineState) (p' : Progress) : Prop where
  population : p'.state.population = after.population
  ledgers : p'.state.ledgers = after.ledgers
  stream : p'.state.stream = after.stream
  bars : p'.bars = p.bars + summaries.length
  lastBar : p'.lastBar = (summaries.getLast?.map BarSummary.bar).or p.lastBar
  cycles : p'.cycles = p.cycles + summaries.countP fun s => s.cycle.isSome
  messages : p'.messages = p.messages ++ summaries.flatMap BarSummary.told

theorem Went.nothing (p : Progress) (stopped : Bool) (events : List Event) :
    Went p [] p.state { p with stopped := stopped, events := events } :=
  ⟨rfl, rfl, rfl, rfl, rfl, rfl, (List.append_nil _).symm⟩

theorem Went.trans {p next p' : Progress} {earlier later : List BarSummary} {between after : EngineState}
    (h : Went p earlier between next) (h' : Went next later after p') : Went p (earlier ++ later) after p' where
  population := h'.population
  ledgers := h'.ledgers
  stream := h'.stream
  bars := by rw [h'.bars, h.bars, List.length_append, Nat.add_assoc]
  lastBar := by rw [h'.lastBar, h.lastBar, List.getLast?_append, Option.map_or, Option.or_assoc]
  cycles := by rw [h'.cycles, h.cycles, List.countP_append, Nat.add_assoc]
  messages := by rw [h'.messages, h.messages, List.flatMap_append, List.append_assoc]

/-- the flag does not matter to how far a run went, nor the state it started from -/
theorem Went.unflagged {p p' : Progress} {state after : EngineState} {flag : Bool}
    (h : Went p summaries { after with cancelled := flag } p') : Went { p with state := state } summaries after p' :=
  ⟨h.population, h.ledgers, h.stream, h.bars, h.lastBar, h.cycles, h.messages⟩

/-- a step of a run goes on by its bar, and then the flag may be raised -/
theorem went_stepRun? (watch : Watcher) (stopAfter : Option Nat) {p : Progress}
    (hbar : rules.runBar? bar p.state = some (summary, events, e')) :
    ∃ next, rules.stepRun? watch stopAfter bar p = some next ∧ Went p [summary] e' next ∧
      next.state = { e' with cancelled := p.state.cancelled || decide (stopAfter = some (p.bars + 1)) } ∧
      next.stopped = p.stopped := by
  have hdone := runBar?_eq_some hbar
  have hat : summary.bar = bar := hdone.at_bar
  have hcancelled : e'.cancelled = p.state.cancelled := hdone.cancelled
  simp only [stepRun?, hbar, Option.bind_eq_bind, Option.bind_some]
  refine ⟨_, rfl, ⟨rfl, rfl, rfl, rfl, ?_, ?_, ?_⟩, ?_, rfl⟩
  · rw [← hat]
    rfl
  · cases hcycle : summary.cycle <;> simp [hcycle]
  · simp [BarSummary.told, hat]
  · rw [← hcancelled]

/-- one bar fewer is left after a bar, unless the flag is seen before the next one -/
theorem barsToGo_succ {done left : Nat} (hflag : ∀ count, stopAfter = some count → done < count) :
    barsToGo false stopAfter done (left + 1) =
      barsToGo (decide (stopAfter = some (done + 1))) stopAfter (done + 1) left + 1 := by
  rw [barsToGo, barsToGo]
  cases stopAfter with
  | none => rfl
  | some count =>
    have hlater := hflag count rfl
    simp only [Bool.false_eq_true, if_false, Option.elim, Option.some.injEq, decide_eq_true_eq]
    split <;> omega

/-- **The loop of a run, bar by bar.** It goes through the bars that come before the flag is seen, and breaks off where
one of them does not come about; it is stopped when the flag is seen before the last of those left. -/
theorem runBars?_eq_eachBar? (rules : EngineRules) (watch : Watcher) (bar : Nat) {left toGo : Nat} {p : Progress}
    (hflag : p.state.cancelled = false → ∀ count, stopAfter = some count → p.bars < count)
    (hgo : toGo = barsToGo p.state.cancelled stopAfter p.bars left) :
    (rules.eachBar? (List.range' bar toGo) p.state = none ∧ rules.runBars? watch stopAfter left bar p = none) ∨
    ∃ summaries after p', rules.eachBar? (List.range' bar toGo) p.state = some (summaries, after) ∧
      rules.runBars? watch stopAfter left bar p = some p' ∧ Went p summaries after p' ∧
      p'.stopped = (p.stopped || decide (toGo < left)) := by
  induction left generalizing bar toGo p with
  | zero =>
    obtain rfl : toGo = 0 := Nat.le_zero.1 (hgo ▸ barsToGo_le _ _ _ _)
    exact Or.inr ⟨[], p.state, p, rfl, rfl, .nothing p p.stopped p.events, by simp⟩
  | succ left ih =>
    cases hgoing : p.state.cancelled with
    | true =>
      have hnone : toGo = 0 := hgo.trans (if_pos hgoing)
      rw [hnone, runBars?, if_pos hgoing]
      exact Or.inr ⟨[], p.state, _, rfl, rfl, .nothing p true _, by simp⟩
    | false =>
      rw [hgoing, barsToGo_succ (hflag hgoing)] at hgo
      rw [runBars?, if_neg (by rw [hgoing]; exact Bool.false_ne_true), hgo, List.range'_succ]
      cases hbar : rules.runBar? bar p.state with
      | none =>
        rw [eachBar?_cons_of_none hbar, stepRun?, hbar]
        exact Or.inl ⟨rfl, rfl⟩
      | some done =>
        obtain ⟨summary, events, e'⟩ := done
        obtain ⟨next, hstep, hwent, hstate, hstopped⟩ := went_stepRun? watch stopAfter hbar
        have hflagged : next.state.cancelled = decide (stopAfter = some (p.bars + 1)) := by
          rw [hstate, hgoing, Bool.false_or]
        have hbars : next.bars = p.bars + 1 := hwent.bars
        -- the rest needs to know that a flag that is still down goes up after a later bar, if it does
        have hnext : next.state.cancelled = false → ∀ count, stopAfter = some count → next.bars < count := by
          rintro hclear count rfl
          have hlater := hflag hgoing count rfl
          rw [hflagged, decide_eq_false_iff_not, Option.some.injEq] at hclear
          omega
        rw [eachBar?_cons hbar, hstep, Option.bind_eq_bind, Option.bind_some]
        have hrest := ih (bar + 1) hnext rfl
        rw [hflagged, hbars, hstate, eachBar?_flagged] at hrest
        rcases hrest with ⟨hnone, hstops⟩ | ⟨later, after, p', hsome, hends, hgone, hcut⟩
        · rw [Option.map_eq_none_iff] at hnone
          exact Or.inl ⟨by rw [hnone]; rfl, hstops⟩
        · obtain ⟨⟨later, after⟩, hlater, hsame⟩ := Option.map_eq_some_iff.1 hsome
          cases hsame
          refine Or.inr ⟨summary :: later, after, p', by rw [hlater]; rfl, hends, hwent.trans hgone.unflagged, ?_⟩
          rw [hcut, hstopped]
          simp only [Nat.add_lt_add_iff_right]

/-! ## Cycles -/

/-- a bar has a cycle exactly when it is an update bar, and without one it only goes through its datasets -/
theorem cycle_of_bar (h : rules.runBar? bar e = some (summary, events, e')) :
    summary.cycle.isSome = rules.isUpdateBar bar ∧
      (rules.isUpdateBar bar = false → e' = (rules.datasetsBar bar rules.feed.names e).2.2) := by
  unfold runBar? at h
  split at h
  · cases h
  · dsimp only at h
    split at h
    · rename_i hupdate
      obtain ⟨c, -, h⟩ := Option.bind_eq_some_iff.1 h
      cases h
      exact ⟨hupdate.symm, fun hnot => by rw [hupdate] at hnot; cases hnot⟩
    · rename_i hupdate
      cases h
      rw [Bool.not_eq_true] at hupdate
      exact ⟨hupdate.symm, fun _ => rfl⟩

/-- the summaries of bars are those of the bars, in order, each with a cycle if it is an update bar -/
theorem summaries_of_eachBar? (h : rules.eachBar? bars e = some (summaries, e')) :
    (summaries.map fun s => (s.bar, s.cycle.isSome)) = bars.map fun bar => (bar, rules.isUpdateBar bar) := by
  induction bars generalizing summaries e with
  | nil =>
    cases h
    rfl
  | cons bar rest ih =>
    obtain ⟨summary, events, next, later, hbar, hrest, rfl⟩ := eachBar?_cons_inv h
    rw [List.map_cons, List.map_cons, ih hrest, (runBar?_eq_some hbar).at_bar, (cycle_of_bar hbar).1]

/-- bars that are gone through have one summary each -/
theorem length_of_eachBar? (h : rules.eachBar? bars e = some (summaries, e')) : summaries.length = bars.length := by
  simpa using congrArg List.length (summaries_of_eachBar? h)

theorem getLast?_of_eachBar? (h : rules.eachBar? bars e = some (summaries, e')) :
    summaries.getLast?.map BarSummary.bar = bars.getLast? := by
  have hbars : summaries.map BarSummary.bar = bars := by
    simpa [Function.comp_def] using congrArg (List.map Prod.fst) (summaries_of_eachBar? h)
  rw [← List.getLast?_map, hbars]

theorem countP_of_eachBar? (h : rules.eachBar? bars e = some (summaries, e')) :
    (summaries.countP fun s => s.cycle.isSome) = bars.countP rules.isUpdateBar := by
  have hcycles := congrArg (List.countP Prod.snd) (summaries_of_eachBar? h)
  simpa [List.countP_map, Function.comp_def] using hcycles

/-- **How many bars of a range are followed by a cycle**: as many as multiples of the cadence are passed. -/
theorem countP_isUpdateBar (rules : EngineRules) (first count : Nat) :
    (List.range' first count).countP rules.isUpdateBar =
      if rules.settings.performTraining then
        (first + count) / rules.settings.barsBetweenUpdates - first / rules.settings.barsBetweenUpdates
      else 0 := by
  cases htraining : rules.settings.performTraining with
  | false => simp [isUpdateBar, htraining]
  | true =>
    induction count with
    | zero => simp
    | succ count ih =>
      have hmore : first / rules.settings.barsBetweenUpdates ≤ (first + count) / rules.settings.barsBetweenUpdates :=
        Nat.div_le_div_right (Nat.le_add_right _ _)
      rw [List.range'_1_concat, List.countP_append, ih, List.countP_singleton, ← Nat.add_assoc, Nat.succ_div]
      simp only [isUpdateBar, htraining, Bool.true_and, decide_eq_true_eq, if_true, Nat.dvd_iff_mod_eq_zero]
      split <;> omega

/-- a whole range has as many update bars as multiples of the cadence are passed in it -/
theorem countP_isUpdateBar_range (rules : EngineRules) (first last : Nat) :
    (List.range' first (last + 1 - first)).countP rules.isUpdateBar =
      if rules.settings.performTraining then
        (last + 1) / rules.settings.barsBetweenUpdates - first / rules.settings.barsBetweenUpdates
      else 0 := by
  rw [countP_isUpdateBar]
  rcases Nat.le_total first (last + 1) with hle | hle
  · rw [Nat.add_sub_cancel' hle]
  · have hnone : (last + 1) / rules.settings.barsBetweenUpdates ≤ first / rules.settings.barsBetweenUpdates :=
      Nat.div_le_div_right hle
    rw [Nat.sub_eq_zero_of_le hle, Nat.add_zero, Nat.sub_self, Nat.sub_eq_zero_of_le hnone]

/-! ## Bars without training -/

/-- the same robots in two states but for the records of their predictions, and the same place in the stream -/
structure SameRobots (e e' : EngineState) : Prop where
  heritage : e'.population.robots.map Robot.heritage = e.population.robots.map Robot.heritage
  desiredSize : e'.population.desiredSize = e.population.desiredSize
  nextName : e'.population.nextName = e.population.nextName
  stream : e'.stream = e.stream

theorem SameRobots.trans {e next e' : EngineState} (h : SameRobots e next) (h' : SameRobots next e') :
    SameRobots e e' :=
  ⟨h'.heritage.trans h.heritage, h'.desiredSize.trans h.desiredSize, h'.nextName.trans h.nextName,
    h'.stream.trans h.stream⟩

/-- no part in a dataset changes what only cycles change -/
theorem heritage_robotAt (rules : EngineRules) (bar : Nat) (r : Robot) (name : String) :
    (rules.robotAt bar r name).heritage = r.heritage := by
  unfold robotAt
  cases rules.feed.window? name bar with
  | none => rfl
  | some w =>
    simp only [robotBar]
    cases w.change with
    | none => rfl
    | some change =>
      simp only [Robot.resolve]
      split <;> rfl

theorem heritage_foldl_robotAt (rules : EngineRules) (bar : Nat) (names : List String) (r : Robot) :
    (names.foldl (rules.robotAt bar) r).heritage = r.heritage := by
  induction names generalizing r with
  | nil => rfl
  | cons name rest ih => exact (ih _).trans (rules.heritage_robotAt bar r name)

theorem sameRobots_datasetsBar (rules : EngineRules) (bar : Nat) (names : List String) (e : EngineState) :
    SameRobots e (rules.datasetsBar bar names e).2.2 := by
  obtain ⟨hpopulation, hstream, -⟩ := population_datasetsBar rules bar names e
  refine ⟨?_, by rw [hpopulation], by rw [hpopulation], hstream⟩
  rw [hpopulation, List.map_map]
  exact List.map_congr_left fun r _ => rules.heritage_foldl_robotAt bar names r

/-- **Without training only the robots' records of their predictions change**, and nothing is drawn. -/
theorem eachBar?_untrained (htraining : rules.settings.performTraining = false)
    (h : rules.eachBar? bars e = some (summaries, e')) : SameRobots e e' := by
  induction bars generalizing summaries e with
  | nil =>
    cases h
    exact ⟨rfl, rfl, rfl, rfl⟩
  | cons bar rest ih =>
    obtain ⟨summary, events, next, later, hbar, hrest, rfl⟩ := eachBar?_cons_inv h
    have hnot : rules.isUpdateBar bar = false := by rw [isUpdateBar, htraining, Bool.false_and]
    have hnext : SameRobots e next := (cycle_of_bar hbar).2 hnot ▸ sameRobots_datasetsBar rules bar _ e
    exact hnext.trans (ih hrest)

/-! ## Runs -/

/-- a run goes through the bars of its range that come before the flag is seen -/
theorem run_eq_eachBar? (watch : Watcher) (stopAfter : Option Nat) (e : EngineState) {first last toGo : Nat}
    (hrange : rules.range? = some (first, last)) (hgo : toGo = barsToGo e.cancelled stopAfter 0 (last + 1 - first)) :
    (rules.eachBar? (List.range' first toGo) e = none ∧ rules.run watch stopAfter e = .error .breakdown) ∨
    ∃ summaries after opened p, rules.eachBar? (List.range' first toGo) e = some (summaries, after) ∧
      rules.run watch stopAfter e = .ok (rules.report p, p) ∧
      Went ⟨e, 0, none, 0, false, [], opened⟩ summaries after p ∧ p.stopped = decide (toGo < last + 1 - first) := by
  have hflag : (e.cancelled || decide (stopAfter = some 0)) = false → ∀ count, stopAfter = some count → 0 < count := by
    rintro hclear count rfl
    rw [Bool.or_eq_false_iff, decide_eq_false_iff_not, Option.some.injEq] at hclear
    omega
  have hrange' : rules.feed.range? rules.settings.start rules.settings.stop = some (first, last) := hrange
  set begun : EngineState := { e with cancelled := e.cancelled || decide (stopAfter = some 0) } with hbegun
  have hbars := rules.runBars?_eq_eachBar? watch first
    (p := ⟨begun, 0, none, 0, false, [], rules.opening first last begun⟩) hflag
    (hgo.trans (barsToGo_begun e.cancelled stopAfter (last + 1 - first)).symm)
  dsimp only at hbars
  rw [hbegun, eachBar?_flagged, ← hbegun] at hbars
  unfold run
  rw [hrange']
  dsimp only
  rcases hbars with ⟨hnone, hbreaks⟩ | ⟨summaries, after, p, hflagged, hends, hwent, hstopped⟩
  · rw [hbreaks]
    exact Or.inl ⟨Option.map_eq_none_iff.1 hnone, rfl⟩
  · obtain ⟨⟨summaries, after⟩, hsome, hsame⟩ := Option.map_eq_some_iff.1 hflagged
    cases hsame
    rw [hends]
    exact Or.inr ⟨summaries, after, rules.opening first last begun, p, hsome, rfl, hwent.unflagged,
      hstopped.trans (Bool.false_or _)⟩

/-- checked settings that memory can meet let all bars come about on programs that can be run -/
theorem exists_eachBar? {settings : Settings} {feed : Feed} (hs : settings.check = .ok ())
    (hh : settings.population.Holdable) (bars : List Nat) {e : EngineState} (hrun : e.population.Runnable) :
    ((ofSettings settings feed).eachBar? bars e).isSome = true := by
  induction bars generalizing e with
  | nil => rfl
  | cons bar rest ih =>
    obtain ⟨summary, events, next, hbar, hnext⟩ := exists_runBar?_runnable hs hh bar hrun
    rw [eachBar?_cons hbar, Option.isSome_map]
    exact ih hnext

/-- a run of a range that processed the given bars of it, with these summaries, from one state to another -/
structure IsBars (rules : EngineRules) (first last : Nat) (bars : List Nat) (summaries : List BarSummary)
    (before after : EngineState) (report : RunReport) (p : Progress) : Prop where
  population : p.state.population = after.population
  ledgers : p.state.ledgers = after.ledgers
  stream : p.state.stream = after.stream
  reported : report.ledgers = after.ledgers ∧ report.population = .ofPopulation after.population rules.policy.weights
  count : report.bars = bars.length
  lastBar : report.lastBar = bars.getLast?
  cancelled : report.cancelled = decide (bars.length < last + 1 - first)
  summarized : (summaries.map fun s => (s.bar, s.cycle.isSome)) = bars.map fun bar => (bar, rules.isUpdateBar bar)
  messages : p.messages = summaries.flatMap BarSummary.told
  cycles : report.cycles = bars.countP rules.isUpdateBar
  uncancelled : report.cancelled = false → report.cycles =
    if rules.settings.performTraining then
      (last + 1) / rules.settings.barsBetweenUpdates - first / rules.settings.barsBetweenUpdates
    else 0
  untrained : rules.settings.performTraining = false → SameRobots before after

/-- a run that ended is the bars before the flag -/
theorem isBars_of_went {first last toGo : Nat} {opened : List Event} {p : Progress} (hle : toGo ≤ last + 1 - first)
    (hbars : rules.eachBar? (List.range' first toGo) e = some (summaries, e'))
    (hwent : Went ⟨e, 0, none, 0, false, [], opened⟩ summaries e' p)
    (hstopped : p.stopped = decide (toGo < last + 1 - first)) :
    IsBars rules first last (List.range' first toGo) summaries e e' (rules.report p) p where
  population := hwent.population
  ledgers := hwent.ledgers
  stream := hwent.stream
  reported := ⟨hwent.ledgers, by rw [report, hwent.population]⟩
  count := hwent.bars.trans ((Nat.zero_add _).trans (length_of_eachBar? hbars))
  lastBar := hwent.lastBar.trans (Option.or_none.trans (getLast?_of_eachBar? hbars))
  cancelled := by rw [report, hstopped, List.length_range']
  summarized := summaries_of_eachBar? hbars
  messages := hwent.messages.trans (List.nil_append _)
  cycles := hwent.cycles.trans ((Nat.zero_add _).trans (countP_of_eachBar? hbars))
  uncancelled := by
    intro hall
    have hwhole : toGo = last + 1 - first := Nat.le_antisymm hle (Nat.not_lt.1 (of_decide_eq_false (hstopped ▸ hall)))
    rw [← countP_isUpdateBar_range, ← hwhole, ← countP_of_eachBar? hbars]
    exact hwent.cycles.trans (Nat.zero_add _)
  untrained := fun htraining => eachBar?_untrained htraining hbars

/-- **A run is its bars, and cancelling it keeps the first ones.** Take an engine, a population and a range from bar
`first` to bar `last`. The flag is looked at only before a bar, and one that is raised within a bar changes nothing
about it; so when it is raised matters only by how many bars are complete when it is next looked at: it was raised
before the run, or is after so many bars, or never. Of the bars of the range, in order, the run processes those that
come before the flag is seen. Its population, its ledgers and its place in the stream are those of the bars alone, one
after the other; its report counts them and has the last of them; each of them was told as its start, its cycle if it
had one, and its completion. It had a cycle exactly on update bars, so for a cadence `k` a run that was not cancelled
had `(last + 1) / k - first / k` of them; without training it had none, and left the robots, in their order, with their
names, programs, children and inherited weights, and drew nothing. All bars come about when memory can meet the settings
and all programs can be run; where one does not, neither does the run. -/
theorem run_is_its_bars {settings : Settings} {feed : Feed} {first last : Nat}
    (hnew : EngineRules.new feed settings = .ok rules) (hrange : rules.range? = some (first, last))
    (watch : Watcher) (stopAfter : Option Nat) (e : EngineState) :
    let bars := List.range' first (barsToGo e.cancelled stopAfter 0 (last + 1 - first))
    (settings.population.Holdable → e.population.Runnable → (rules.eachBar? bars e).isSome = true) ∧
    (rules.eachBar? bars e = none → rules.run watch stopAfter e = .error .breakdown) ∧
    (∀ summaries after, rules.eachBar? bars e = some (summaries, after) →
      ∃ report p, rules.run watch stopAfter e = .ok (report, p) ∧
        IsBars rules first last bars summaries e after report p) ∧
    (∀ bar between flag, rules.runBar? bar { between with cancelled := flag } =
      (rules.runBar? bar between).map fun x => (x.1, x.2.1, { x.2.2 with cancelled := flag })) ∧
    (last + 1 < Binary64.wordLimit → ∀ bar ∈ bars, rules.isBeyond bar = false) := by
  obtain ⟨hs, -, rfl⟩ := new_eq_ok_iff.1 hnew
  set toGo := barsToGo e.cancelled stopAfter 0 (last + 1 - first) with hgo
  have hle : toGo ≤ last + 1 - first := barsToGo_le _ _ _ _
  refine ⟨fun hh hrun => exists_eachBar? hs hh _ hrun, ?_, ?_, fun _ _ _ => runBar?_flagged _ _ _ _, ?_⟩
  · intro hnone
    rcases run_eq_eachBar? watch stopAfter e hrange hgo with ⟨-, hbreaks⟩ | ⟨_, _, _, _, hsome, -⟩
    · exact hbreaks
    · rw [hnone] at hsome
      cases hsome
  · intro summaries after hbars
    rcases run_eq_eachBar? watch stopAfter e hrange hgo with
      ⟨hnone, -⟩ | ⟨summaries', after', opened, p, hsome, hends, hwent, hstopped⟩
    · rw [hnone] at hbars
      cases hbars
    · rw [hsome] at hbars
      cases hbars
      exact ⟨_, p, hends, isBars_of_went hle hsome hwent hstopped⟩
  · intro hlast bar hbar
    rw [List.mem_range'_1] at hbar
    have hcounted : ¬Binary64.wordLimit ≤ bar + 1 := by omega
    rw [isBeyond, decide_eq_false hcounted, Bool.and_false]

/-- all but the first of three days, with a cycle every two bars -/
def lateDays : Settings :=
  { engine := { start := some 2, barsBetweenUpdates := 2 } }

/-- two bars of three, the flag raised after the first of them: it had its cycle, and the other one was not started -/
theorem run_is_its_bars_cut : ∃ m rules summaries after report p,
    Market.new [threeDays] lateDays.population = .ok m ∧ EngineRules.new m.feed lateDays = .ok rules ∧
    rules.range? = some (1, 2) ∧
    let e := rules.start ((Population.empty 2).add ⟨[.emit .long], 1⟩ 1.0).2 (Random.seeded 1)
    rules.eachBar? [1] e = some (summaries, after) ∧ rules.run .silent (some 1) e = .ok (report, p) ∧
      p.state.population = after.population ∧ p.state.stream = after.stream ∧
      report.bars = 1 ∧ report.lastBar = some 1 ∧ report.cancelled = true ∧ report.cycles = 1 := by
  obtain ⟨m, hm⟩ : ∃ m, Market.new [threeDays] lateDays.population = .ok m := ⟨_, rfl⟩
  have hb := Market.built_of_new hm
  have hdays : m.timeline.points.toList = [1, 2, 3] := by
    rw [hb.timeline]
    exact Timeline.points_ofTimes (by decide)
  have hrange : m.timeline.range? (some 2) none = some (1, 2) := by
    refine Timeline.range?_eq_some_iff.2 ⟨by decide, ?_⟩
    rw [Timeline.barsWithin, hdays]
    decide
  have hnew : EngineRules.new m.feed lateDays = .ok (ofSettings lateDays m.feed) :=
    new_eq_ok (by decide) hb.columnCount_pos
  have hrunnable : ((Population.empty 2).add ⟨[.emit .long], 1⟩ 1.0).2.Runnable := fun r hr => by
    rw [List.mem_singleton.1 hr]
    rfl
  obtain ⟨hcomes, -, hruns, -⟩ := run_is_its_bars hnew hrange .silent (some 1)
    ((ofSettings lateDays m.feed).start ((Population.empty 2).add ⟨[.emit .long], 1⟩ 1.0).2 (Random.seeded 1))
  obtain ⟨⟨summaries, after⟩, hbars⟩ := Option.isSome_iff_exists.1 (hcomes ⟨by decide, by decide⟩ hrunnable)
  obtain ⟨report, p, hends, his⟩ := hruns summaries after hbars
  have hcycle : (List.range' 1 1).countP (ofSettings lateDays m.feed).isUpdateBar = 1 := by
    rw [countP_isUpdateBar]
    exact (rfl : (if true then (1 + 1) / 2 - 1 / 2 else 0) = 1)
  exact ⟨m, _, summaries, after, report, p, hm, hnew, hrange, hbars, hends, his.population, his.stream, his.count,
    his.lastBar, his.cancelled, his.cycles.trans hcycle⟩

end EngineRules

end TradingRobots
