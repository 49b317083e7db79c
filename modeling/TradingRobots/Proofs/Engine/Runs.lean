/-
Runs: what every bar keeps, a run keeps.

A run goes over the bars of its range in ascending order, each of them once, and ends early only before a bar at which
the flag is seen. What it has told of the bars, and the state it leaves, are those of the bars one after the other;
`run_kept` turns a property that every bar keeps into one of the whole run.

`run_kept`: the run lemma.
`bars_of_run`: the bars that a run completed.
`exists_run`: a run breaks off nowhere when every bar comes about.
-/
import TradingRobots.Proofs.Engine.Bars

namespace TradingRobots

/-- the summary of a bar that was completed -/
def Message.summary? : Message → Option BarSummary
  | .completed summary => some summary
  | _ => none

/-- the bars that were completed, in order -/
def Progress.summaries (p : Progress) : List BarSummary :=
  p.messages.filterMap Message.summary?

namespace EngineRules

variable {rules : EngineRules} {watch : Watcher} {stopAfter : Option Nat}

/-! ## Steps -/

/-- **Everything that a step of a run is**: its bar, one more summary, and perhaps the flag. -/
theorem stepRun?_eq_some {bar : Nat} {p p' : Progress} (h : rules.stepRun? watch stopAfter bar p = some p') :
    ∃ summary events e', rules.runBar? bar p.state = some (summary, events, e') ∧
      p'.summaries = p.summaries ++ [summary] ∧ p'.state = { e' with cancelled := p'.state.cancelled } ∧
      p'.bars = p.bars + 1 ∧ p'.stopped = p.stopped := by
  obtain ⟨⟨summary, events, e'⟩, hbar, h⟩ := Option.bind_eq_some_iff.1 h
  cases h
  refine ⟨summary, events, e', hbar, ?_, rfl, rfl, rfl⟩
  cases summary.cycle with
  | none => simp [Progress.summaries, Message.summary?, List.filterMap_cons]
  | some c => simp [Progress.summaries, Message.summary?, List.filterMap_cons]

/-- a property of the next bar, the summaries so far and the state that every bar keeps, whatever the flag -/
structure Kept (rules : EngineRules) (motive : Nat → List BarSummary → EngineState → Prop) : Prop where
  step : ∀ bar done e summary events e' flag, motive bar done e → rules.runBar? bar e = some (summary, events, e') →
    motive (bar + 1) (done ++ [summary]) { e' with cancelled := flag }

variable {motive : Nat → List BarSummary → EngineState → Prop}

/-- what every bar keeps, bars one after the other keep; only the flag ends them early -/
theorem runBars?_kept (hk : Kept rules motive) {left bar : Nat} {p p' : Progress}
    (hp : motive bar p.summaries p.state) (h : rules.runBars? watch stopAfter left bar p = some p') :
    ∃ completed, completed ≤ left ∧ p'.bars = p.bars + completed ∧ motive (bar + completed) p'.summaries p'.state ∧
      (p'.stopped = false → completed = left) := by
  induction left generalizing bar p with
  | zero =>
    cases h
    exact ⟨0, Nat.le_refl 0, rfl, hp, fun _ => rfl⟩
  | succ left ih =>
    unfold runBars? at h
    split at h
    · cases h
      exact ⟨0, Nat.zero_le _, rfl, hp, fun hstopped => (nomatch hstopped)⟩
    · obtain ⟨next, hstep, hrest⟩ := Option.bind_eq_some_iff.1 h
      obtain ⟨summary, events, e', hdone, hsummaries, hstate, hbars, -⟩ := stepRun?_eq_some hstep
      have hnext : motive (bar + 1) next.summaries next.state := by
        rw [hsummaries, hstate]
        exact hk.step bar p.summaries p.state summary events e' _ hp hdone
      obtain ⟨completed, hle, hcount, hm, hall⟩ := ih hnext hrest
      refine ⟨completed + 1, Nat.succ_le_succ hle, by omega, ?_, fun hstopped => congrArg (· + 1) (hall hstopped)⟩
      rwa [show bar + (completed + 1) = bar + 1 + completed by omega]

/-! ## Runs -/

/-- the bars of a run's range -/
def range? (rules : EngineRules) : Option (Nat × Nat) :=
  rules.feed.range? rules.settings.start rules.settings.stop

/-- **What every bar keeps, a run keeps.** The run starts at the first bar of its range, and completes all its bars
unless it was cancelled. -/
theorem run_kept (hk : Kept rules motive) {e : EngineState} {report : RunReport} {p : Progress}
    (start : ∀ first last flag, rules.range? = some (first, last) → motive first [] { e with cancelled := flag })
    (h : rules.run watch stopAfter e = .ok (report, p)) :
    ∃ first last, rules.range? = some (first, last) ∧ report = rules.report p ∧
      motive (first + report.bars) p.summaries p.state ∧ report.bars ≤ last + 1 - first ∧
      (report.cancelled = false → report.bars = last + 1 - first) := by
  unfold run at h
  split at h
  · cases h
  · rename_i first last hrange
    dsimp only at h
    split at h
    · cases h
    · rename_i p' hbars
      cases h
      obtain ⟨completed, hle, hcount, hm, hall⟩ := runBars?_kept hk (start first last _ hrange) hbars
      have hreport : (rules.report p).bars = completed := hcount.trans (Nat.zero_add completed)
      refine ⟨first, last, hrange, rfl, ?_, ?_, ?_⟩
      · rw [hreport]
        exact hm
      · rw [hreport]
        exact hle
      · intro hcancelled
        rw [hreport]
        exact hall hcancelled

/-- the bars that were completed, given the first one -/
def Consecutive (first : Nat) (bar : Nat) (done : List BarSummary) : Prop :=
  bar = first + done.length ∧ done.map BarSummary.bar = List.range' first done.length

theorem consecutive_nil (first : Nat) : Consecutive first first [] :=
  ⟨rfl, rfl⟩

theorem Consecutive.append {first bar : Nat} {done : List BarSummary} (h : Consecutive first bar done)
    {summary : BarSummary} (hs : summary.bar = bar) : Consecutive first (bar + 1) (done ++ [summary]) := by
  obtain ⟨hbar, hdone⟩ := h
  refine ⟨by simp only [List.length_append, List.length_singleton]; omega, ?_⟩
  rw [List.map_append, hdone, List.length_append, List.length_singleton, List.range'_1_concat, List.map_singleton,
    hs, hbar]

/-- **A run completes the bars from the first of its range on**, one after the other. -/
theorem bars_of_run {e : EngineState} {report : RunReport} {p : Progress}
    (h : rules.run watch stopAfter e = .ok (report, p)) :
    ∃ first last, rules.range? = some (first, last) ∧
      p.summaries.map BarSummary.bar = List.range' first report.bars ∧ report.bars ≤ last + 1 - first ∧
      (report.cancelled = false → report.bars = last + 1 - first) := by
  have hk : Kept rules fun bar done _ => ∃ first last, rules.range? = some (first, last) ∧ Consecutive first bar done :=
    ⟨fun bar done e summary events e' flag ⟨first, last, hrange, hdone⟩ hbar =>
      ⟨first, last, hrange, hdone.append (runBar?_eq_some hbar).at_bar⟩⟩
  obtain ⟨first, last, hrange, -, ⟨first', last', hrange', hbar, hdone⟩, hle, hall⟩ :=
    run_kept hk (fun first last _ hrange => ⟨first, last, hrange, consecutive_nil first⟩) h
  rw [hrange] at hrange'
  cases hrange'
  have hlength : report.bars = p.summaries.length := by omega
  exact ⟨first, last, hrange, hlength ▸ hdone, hle, hall⟩

/-! ## Runs come about -/

/-- bars come about one after the other as long as every bar does -/
theorem exists_runBars? {motive : EngineState → Prop}
    (hstep : ∀ bar e, motive e → ∃ summary events e', rules.runBar? bar e = some (summary, events, e') ∧
      ∀ flag, motive { e' with cancelled := flag })
    (left bar : Nat) {p : Progress} (hp : motive p.state) :
    ∃ p', rules.runBars? watch stopAfter left bar p = some p' := by
  induction left generalizing bar p with
  | zero => exact ⟨p, rfl⟩
  | succ left ih =>
    unfold runBars?
    split
    · exact ⟨_, rfl⟩
    · obtain ⟨summary, events, e', hbar, hm⟩ := hstep bar p.state hp
      simp only [stepRun?, hbar, Option.bind_eq_bind, Option.bind_some]
      exact ih (bar + 1) (hm _)

/-- **A run comes about over a range that has bars**, if every bar does; over a range without bars it does not start. -/
theorem exists_run {motive : EngineState → Prop}
    (hstep : ∀ bar e, motive e → ∃ summary events e', rules.runBar? bar e = some (summary, events, e') ∧
      ∀ flag, motive { e' with cancelled := flag })
    (e : EngineState) (he : ∀ flag, motive { e with cancelled := flag }) :
    (rules.range? = none ∧ rules.run watch stopAfter e = .error .noBars) ∨
      rules.range?.isSome = true ∧ ∃ report p, rules.run watch stopAfter e = .ok (report, p) := by
  unfold run range?
  cases rules.feed.range? rules.settings.start rules.settings.stop with
  | none => exact Or.inl ⟨rfl, rfl⟩
  | some bounds =>
    obtain ⟨first, last⟩ := bounds
    dsimp only
    set begun : Progress := ⟨{ e with cancelled := e.cancelled || stopAfter = some 0 }, 0, none, 0, false, [],
      rules.opening first last { e with cancelled := e.cancelled || stopAfter = some 0 }⟩
    obtain ⟨p, hp⟩ : ∃ p, rules.runBars? watch stopAfter (last + 1 - first) first begun = some p :=
      exists_runBars? hstep (last + 1 - first) first (he _)
    refine Or.inr ⟨rfl, rules.report p, p, ?_⟩
    rw [hp]

end EngineRules

end TradingRobots
