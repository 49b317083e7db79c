/-
The books of an evolution cycle.

A cycle takes its dead away, fills the free places with a litter and then with newcomers. The places kept for newcomers
come out of the free ones, so births, places left empty and newcomers add up to the free places, and the population ends
at its desired size less the empty places, or keeps its survivors where they are more.

`size_reached_le`: over any number of cycles a population grows beyond neither its desired size nor its first.
`cycle_books`: the report of a cycle is exact, and what follows for its size.
-/
import TradingRobots.Cycle
import TradingRobots.Random.Sources
import TradingRobots.Proofs.Breeding.Births
import TradingRobots.Proofs.Population.Deaths

namespace TradingRobots.EvolutionPolicy

open TradingRobots.Random

variable {policy : EvolutionPolicy} {p : Population} {s : Stream} {c : CycleResult}

/-! ## One cycle -/

/-- who dies in a cycle, and the survivors, before any birth -/
def cull (policy : EvolutionPolicy) (p : Population) (s : Stream) : DeathRules.Deaths × Population × Stream :=
  policy.deaths.kill policy.weights p s

/-- the places that newcomers get in a cycle -/
def newcomers (policy : EvolutionPolicy) (p : Population) (s : Stream) : Nat :=
  policy.randomSlots p.desiredSize (policy.cull p s).2.1.freeCapacity

/-- the litter of a cycle: births into the free places that are not kept for newcomers -/
def litter (policy : EvolutionPolicy) (p : Population) (s : Stream) : Litter :=
  policy.breeding.breed policy.weights ((policy.cull p s).2.1.freeCapacity - policy.newcomers p s)
    ⟨(policy.cull p s).2.1, (policy.cull p s).2.2, []⟩

theorem newcomers_le (policy : EvolutionPolicy) (p : Population) (s : Stream) :
    policy.newcomers p s ≤ (policy.cull p s).2.1.freeCapacity :=
  Nat.min_le_right _ _

/-- a cycle is its deaths, its litter and its newcomers -/
theorem cycle?_eq_some (h : policy.cycle? p s = some c) :
    ∃ grown, policy.breeding.inject? (policy.newcomers p s) (policy.litter p s).growth = some grown ∧
      c.population = grown.population ∧
      c.report = ⟨p.size, (policy.cull p s).1.toll, (policy.litter p s).born, (policy.litter p s).starved,
        policy.newcomers p s, grown.population.size⟩ := by
  obtain ⟨grown, hgrown, h⟩ := Option.bind_eq_some_iff.1 h
  simp only [Option.some.injEq] at h
  subst h
  exact ⟨grown, hgrown, rfl, rfl⟩

/-- a cycle comes about when no newcomers are due, or their programs can be drawn -/
theorem exists_cycle? (h : 0 < policy.newcomers p s → policy.breeding.bounds.Drawable) :
    ∃ c, policy.cycle? p s = some c := by
  obtain ⟨grown, hgrown⟩ := BreedingRules.exists_inject? h (policy.litter p s).growth
  exact ⟨_, Option.bind_eq_some_iff.2 ⟨grown, hgrown, rfl⟩⟩

theorem size_cull_le (policy : EvolutionPolicy) (p : Population) (s : Stream) : (policy.cull p s).2.1.size ≤ p.size :=
  Population.size_removeAll_le _

/-- survivors, births and newcomers make up the population after a cycle -/
theorem size_cycle? (h : policy.cycle? p s = some c) :
    c.report.born + c.report.starved + c.report.injected = p.desiredSize - (policy.cull p s).2.1.size ∧
      c.population.size = (policy.cull p s).2.1.size + c.report.born + c.report.injected ∧
      c.population.desiredSize = p.desiredSize := by
  obtain ⟨grown, hgrown, hp, hr⟩ := cycle?_eq_some h
  obtain ⟨hslots, hlitter, hwanted⟩ := policy.breeding.breed_size policy.weights
    ((policy.cull p s).2.1.freeCapacity - policy.newcomers p s) ⟨(policy.cull p s).2.1, (policy.cull p s).2.2, []⟩
  obtain ⟨hsize, hwanted'⟩ := BreedingRules.inject?_size hgrown
  have hle := newcomers_le policy p s
  have hfree : (policy.cull p s).2.1.freeCapacity = p.desiredSize - (policy.cull p s).2.1.size := rfl
  rw [← litter] at hslots hlitter hwanted
  simp only at hlitter
  simp only [hr, hp]
  exact ⟨by omega, by omega, hwanted'.trans hwanted⟩

theorem size_cycle?_le (h : policy.cycle? p s = some c) : c.population.size ≤ max p.desiredSize p.size := by
  obtain ⟨hplaces, hsize, -⟩ := size_cycle? h
  have := size_cull_le policy p s
  omega

/-! ## Many cycles -/

/-- the populations that cycles lead to, on any streams; between cycles anything may be recorded about the robots -/
inductive Reached (policy : EvolutionPolicy) (p : Population) : Population → Prop where
  | start : Reached policy p p
  | cycle {q : Population} {s : Stream} {c : CycleResult} (hq : Reached policy p q)
    (hc : policy.cycle? q s = some c) : Reached policy p c.population
  | record {q : Population} (hq : Reached policy p q) (f : Robot → Robot) :
    Reached policy p { q with robots := q.robots.map f }

/-- over any number of cycles a population grows beyond neither its desired size nor the size it began with -/
theorem size_reached_le {q : Population} (h : policy.Reached p q) :
    q.size ≤ max p.desiredSize p.size ∧ q.desiredSize = p.desiredSize := by
  induction h with
  | start => exact ⟨Nat.le_max_right _ _, rfl⟩
  | cycle hq hc ih =>
    obtain ⟨hsize, hwanted⟩ := ih
    have hle := size_cycle?_le hc
    have hkept := (size_cycle? hc).2.2
    exact ⟨by omega, hkept.trans hwanted⟩
  | record hq f ih =>
    obtain ⟨hsize, hwanted⟩ := ih
    refine ⟨?_, hwanted⟩
    simpa only [Population.size, List.length_map] using hsize

/-- **The report of a cycle is exact.** The dead are distinct members and the survivors are what they leave. The
newcomers are the rounded share of the desired size, as far as places are free; births, empty places and newcomers
make up the free places; and the population ends with its survivors and all that came, which is the desired size less
the empty places, or the survivors where they are more. A cycle comes about unless newcomers are due that cannot be
drawn. A population within its desired size stays within it, however many cycles follow. Of streams on which a draw does
not end (`Stream.patience`) nothing is said. -/
theorem cycle_books (policy : EvolutionPolicy) (p : Population) (s : Stream) (hu : p.names.Nodup) :
    let dead := (policy.cull p s).1
    let left := p.size - dead.toll.total
    let injected := min (Binary64.nearestCount (policy.randomShare * Binary64.ofCount p.desiredSize))
      (p.desiredSize - left)
    (dead.names.Nodup ∧ (∀ n ∈ dead.names, n ∈ p.names) ∧ dead.names.length = dead.toll.total ∧
      dead.toll.total ≤ p.size ∧ (policy.cull p s).2.1 = p.removeAll dead.names ∧ (policy.cull p s).2.1.size = left) ∧
    ((0 < injected → policy.breeding.bounds.Drawable) → ∃ c, policy.cycle? p s = some c) ∧
    (∀ c, policy.cycle? p s = some c →
      c.report.sizeBefore = p.size ∧ c.report.toll = dead.toll ∧
      c.report.injected = injected ∧
      c.report.born + c.report.starved + c.report.injected = p.desiredSize - left ∧
      c.report.sizeAfter = left + c.report.born + c.report.injected ∧
      c.report.sizeAfter + c.report.starved = max p.desiredSize left ∧
      c.population.size = c.report.sizeAfter ∧ c.population.desiredSize = p.desiredSize ∧
      c.population.size ≤ max p.desiredSize p.size) ∧
    ∀ q, policy.Reached p q → p.size ≤ p.desiredSize → q.size ≤ q.desiredSize ∧ q.desiredSize = p.desiredSize := by
  intro dead left injected
  have hkill : (policy.cull p s).2.1.size + dead.toll.total = p.size := DeathRules.size_kill hu s
  have hleft : (policy.cull p s).2.1.size = left := by omega
  have hinjected : policy.newcomers p s = injected := by
    simp only [newcomers, randomSlots, Population.freeCapacity, hleft, injected]
    rfl
  refine ⟨⟨DeathRules.nodup_names_deaths hu s, fun n hn => DeathRules.names_deaths_subset hn,
    DeathRules.length_names_deaths dead, by omega, rfl, hleft⟩, ?_, ?_, ?_⟩
  · intro hdraw
    exact exists_cycle? (by rwa [hinjected])
  · intro c hc
    obtain ⟨grown, -, hp, hr⟩ := cycle?_eq_some hc
    obtain ⟨hplaces, hsize, hwanted⟩ := size_cycle? hc
    have hafter : c.report.sizeAfter = c.population.size := by rw [hr, hp]
    rw [hleft] at hplaces hsize
    have hmade : c.report.sizeAfter + c.report.starved = max p.desiredSize left := by omega
    exact ⟨by rw [hr], by rw [hr], by rw [hr, ← hinjected], hplaces, hafter.trans hsize, hmade, hafter.symm, hwanted,
      size_cycle?_le hc⟩
  · intro q hq hle
    obtain ⟨hsize, hwanted⟩ := size_reached_le hq
    exact ⟨by omega, hwanted⟩

/-- two robots with the same program where four are wanted, half of the places going to newcomers -/
theorem cycle_books_two :
    let program : Program := ⟨[.emit .long], 1⟩
    let p : Population := ((Population.empty 4).add program 0.0).2.add program 0.0 |>.2
    let e : EvolutionSettings := { randomRobots := 0.5 }
    let policy := e.policy ⟨1, 2, 1, 1, 1⟩
    p.names.Nodup ∧ ∃ c, policy.cycle? p (listed []) = some c ∧
      c.report.sizeAfter = c.population.size ∧ c.population.size ≤ 4 := by
  intro program p e policy
  have hu : p.names.Nodup := by decide
  obtain ⟨-, hcycle, hreport, -⟩ := cycle_books policy p (listed []) hu
  obtain ⟨c, hc⟩ := hcycle fun _ => ⟨by decide, by decide, by decide⟩
  obtain ⟨-, -, -, -, -, -, hsize, -, hle⟩ := hreport c hc
  exact ⟨hu, c, hc, hsize.symm, hle⟩

end TradingRobots.EvolutionPolicy
