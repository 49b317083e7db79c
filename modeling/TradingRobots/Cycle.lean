/-
An evolution cycle: deaths, then births into the free places, then random newcomers into the places kept for them.
-/
import TradingRobots.Breeding
import TradingRobots.Death

namespace TradingRobots

structure EvolutionPolicy where
  weights : WeightRule
  deaths : DeathRules
  breeding : BreedingRules
  /-- share of the desired size that is refilled with random robots -/
  randomShare : Float
deriving DecidableEq, Repr

def EvolutionSettings.policy (e : EvolutionSettings) (bounds : ProgramBounds) : EvolutionPolicy where
  weights := e.weightRule
  deaths := e.deathRules
  breeding := e.breedingRules bounds
  randomShare := e.randomRobots

/-- a population, its stream, and the events of a cycle in order -/
structure CycleResult where
  report : CycleReport
  population : Population
  stream : Random.Stream
  events : List Event

namespace EvolutionPolicy

/-- places kept for random robots out of the free ones -/
def randomSlots (policy : EvolutionPolicy) (desiredSize free : Nat) : Nat :=
  min (Binary64.nearestCount (policy.randomShare * Binary64.ofCount desiredSize)) free

/-- one cycle; there is none when random programs cannot be drawn -/
def cycle? (policy : EvolutionPolicy) (p : Population) (s : Random.Stream) : Option CycleResult := do
  let (dead, survivors, s) := policy.deaths.kill policy.weights p s
  let free := survivors.freeCapacity
  let random := policy.randomSlots survivors.desiredSize free
  let litter := policy.breeding.breed policy.weights (free - random) ⟨survivors, s, []⟩
  let grown ← policy.breeding.inject? random litter.growth
  some {
    report := ⟨p.size, dead.toll, litter.born, litter.starved, random, grown.population.size⟩
    population := grown.population
    stream := grown.stream
    events := dead.events ++ grown.noted.reverse }

end EvolutionPolicy

end TradingRobots
