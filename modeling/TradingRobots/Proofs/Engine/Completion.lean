/-
Runs that come about.

A bar breaks down only when a program asks for more registers than memory holds, or when a newcomer's program cannot be
drawn. Settings that pass their check, with limits that memory can meet, let every newcomer be drawn, and parents pass
on programs that can be run; so a run on a population that can be run never breaks down. It does not start exactly when
its range has no bars.

`EngineSettings.check_eq_ok_iff`: what the check of an engine's settings promises.
`new_eq_ok_iff`: when an engine is made, and which.
`run_comes_about`: a run of such an engine; `run_eq_error_iff`: its only error.
-/
import TradingRobots.Proofs.Cycle.Lifecycle
import TradingRobots.Proofs.Engine.NoLookAhead
import TradingRobots.Proofs.Engine.Runs

namespace TradingRobots

/-- memory can hold the longest programs that settings allow, and their registers -/
structure PopulationSettings.Holdable (settings : PopulationSettings) : Prop where
  instructions : settings.maximumInstructions ≤ Program.longest
  registers : settings.maximumRegisters ≤ Program.mostRegisters

theorem PopulationSettings.Holdable.maximumRegisters_le {settings : PopulationSettings} (h : settings.Holdable)
    (columns : Nat) : (settings.programBounds columns).maximumRegisters ≤ Program.mostRegisters :=
  Nat.max_le.2 ⟨h.registers, by decide⟩

/-- all programs of a population can be run -/
def Population.Runnable (p : Population) : Prop :=
  ∀ r ∈ p.robots, r.program.isRunnable = true

/-- settings pass when all their sections do -/
theorem Settings.check_eq_ok_iff {settings : Settings} : settings.check = .ok () ↔
    settings.population.check = .ok () ∧ settings.evolution.check = .ok () ∧ settings.engine.check = .ok () := by
  unfold check
  constructor
  · intro h
    obtain ⟨⟨⟩, hp, h⟩ := Except.bind_eq_ok_iff.1 h
    obtain ⟨⟨⟩, he, h⟩ := Except.bind_eq_ok_iff.1 h
    exact ⟨hp, he, h⟩
  · rintro ⟨hp, he, hn⟩
    exact Except.bind_eq_ok_iff.2 ⟨(), hp, Except.bind_eq_ok_iff.2 ⟨(), he, hn⟩⟩

/-- what the check of the engine's settings promises -/
theorem EngineSettings.check_eq_ok_iff {settings : EngineSettings} : settings.check = .ok () ↔
    (∀ start stop, settings.start = some start → settings.stop = some stop → start ≤ stop) ∧
      0 < settings.barsBetweenUpdates ∧
      (settings.resultThreshold.isFinite ∧ settings.resultThreshold ≥ 0.0) ∧
      settings.voteThreshold.isFinite ∧ settings.voteThreshold ≥ 1.0 := by
  unfold check
  -- the order of the times is checked only where both are given
  cases settings.start with
  | none => simp [require_bind_eq_ok_iff, require_eq_ok_iff]
  | some start =>
    cases settings.stop with
    | none => simp [require_bind_eq_ok_iff, require_eq_ok_iff]
    | some stop => simp [require_bind_eq_ok_iff, require_eq_ok_iff]

namespace EngineRules

variable {rules : EngineRules} {settings : Settings} {feed : Feed} {watch : Watcher} {stopAfter : Option Nat}

/-- **An engine is made when the settings pass their check and the feed has columns.** -/
theorem new_eq_ok_iff : EngineRules.new feed settings = .ok rules ↔
    settings.check = .ok () ∧ 0 < feed.columnCount ∧ rules = ofSettings settings feed := by
  constructor
  · intro h
    unfold EngineRules.new at h
    cases hs : settings.check with
    | error violation =>
      rw [hs] at h
      cases h
    | ok =>
      rw [hs] at h
      dsimp only at h
      split at h
      · cases h
      · rename_i hc
        cases h
        exact ⟨rfl, Nat.pos_of_ne_zero hc, rfl⟩
  · rintro ⟨hs, hc, rfl⟩
    exact new_eq_ok hs hc

/-- a bar of an engine comes about when all programs can be run, and leaves only such programs -/
theorem exists_runBar?_runnable (hs : settings.check = .ok ()) (hh : settings.population.Holdable) (bar : Nat)
    {e : EngineState} (hrun : e.population.Runnable) :
    ∃ summary events e', (ofSettings settings feed).runBar? bar e = some (summary, events, e') ∧
      e'.population.Runnable := by
  have hp : settings.population.check = .ok () := (Settings.check_eq_ok_iff.1 hs).1
  have hdraw : (ofSettings settings feed).bounds.Drawable :=
    PopulationSettings.drawable_of_check hp feed.columnCount hh.instructions
  have hregisters : (ofSettings settings feed).policy.breeding.bounds.maximumRegisters ≤ Program.mostRegisters :=
    hh.maximumRegisters_le feed.columnCount
  obtain ⟨summary, events, e', hbar⟩ :
      ∃ summary events e', (ofSettings settings feed).runBar? bar e = some (summary, events, e') :=
    exists_runBar? hdraw hrun
  refine ⟨summary, events, e', hbar, ?_⟩
  refine (runBar?_eq_some hbar).all_robots (BreedingRules.heritable_runnable hregisters) (fun r hr => ?_) hrun
  rw [program_foldl_robotAt]
  exact hr

/-- **A run comes about over a range with bars**, and over one without it does not start. -/
theorem run_comes_about (hs : settings.check = .ok ()) (hh : settings.population.Holdable) (e : EngineState)
    (hrun : e.population.Runnable) :
    ((ofSettings settings feed).range? = none ∧
        (ofSettings settings feed).run watch stopAfter e = .error .noBars) ∨
      (ofSettings settings feed).range?.isSome = true ∧
        ∃ report p, (ofSettings settings feed).run watch stopAfter e = .ok (report, p) := by
  refine exists_run (motive := fun e => e.population.Runnable) (fun bar e he => ?_) e fun _ => hrun
  obtain ⟨summary, events, e', hbar, hafter⟩ := exists_runBar?_runnable hs hh bar he
  exact ⟨summary, events, e', hbar, fun _ => hafter⟩

/-- the only error of such a run is that of a range without bars -/
theorem run_eq_error_iff (hs : settings.check = .ok ()) (hh : settings.population.Holdable) {e : EngineState}
    (hrun : e.population.Runnable) {defect : RunDefect} :
    (ofSettings settings feed).run watch stopAfter e = .error defect ↔
      defect = .noBars ∧ (ofSettings settings feed).range? = none := by
  rcases run_comes_about hs hh e hrun with ⟨hnone, hstops⟩ | ⟨hsome, report, p, hends⟩
  · rw [hstops]
    constructor
    · rintro ⟨⟩
      exact ⟨rfl, hnone⟩
    · rintro ⟨rfl, -⟩
      rfl
  · rw [hends]
    constructor
    · rintro ⟨⟩
    · rintro ⟨-, hnone⟩
      rw [hnone] at hsome
      cases hsome

end EngineRules

end TradingRobots
