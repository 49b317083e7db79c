/-
Breeding. Free slots are filled with children of parents picked on the wheel of weights, one at a time from one parent
or two at a time from two. The wheel picks a name, and the parent is whoever is found under it. Who may be a parent is looked
up again before every birth, so a parent waits between its children. When nobody is left, the remaining slots stay empty.
-/
import TradingRobots.Crossing
import TradingRobots.Journal
import TradingRobots.Mutation
import TradingRobots.Population
import TradingRobots.Wheel

namespace TradingRobots

structure BreedingRules where
  bounds : ProgramBounds
  rates : MutationRates
  inheritance : InheritanceRule
  minimumOutcomes : Nat
  outcomesBetween : Nat
  inPairs : Bool
deriving DecidableEq, Repr

def EvolutionSettings.breedingRules (e : EvolutionSettings) (bounds : ProgramBounds) : BreedingRules where
  bounds := bounds
  rates := e.mutationRates
  inheritance := e.inheritanceRule
  minimumOutcomes := e.outcomesToBreed
  outcomesBetween := e.outcomesBetweenChildren
  inPairs := e.requireSymmetry

/-- a population as it grows, with the stream it draws from and what has been noted down, latest first -/
structure Growth where
  population : Population
  stream : Random.Stream
  noted : List Event

/-- what breeding into a number of slots came to -/
structure Litter where
  growth : Growth
  born : Nat
  starved : Nat

namespace BreedingRules

open TradingRobots.Random

def isEligible (rules : BreedingRules) (r : Robot) : Bool :=
  rules.minimumOutcomes ≤ r.outcomes && rules.outcomesBetween ≤ r.outcomesSinceLastChild

/-- robots that may be parents, in population order -/
def eligible (rules : BreedingRules) (p : Population) : List Robot :=
  p.robots.filter rules.isEligible

/-- picks a robot by weight, with its position -/
def pick (rule : WeightRule) (robots : List Robot) (s : Stream) : Option (Nat × Robot) × Stream :=
  let (position, s) := Wheel.select (robots.map fun r => r.weight rule) s
  (position.bind fun k => (robots[k]?).map fun r => (k, r), s)

/-- the others after one was picked: the last takes its place -/
def others (robots : List Robot) (k : Nat) : List Robot :=
  match robots.getLast? with
  | some last => (robots.set k last).dropLast
  | none => []

/-- a mutated child of one parent; nothing without a parent, but the draws are spent -/
def breedOne (rules : BreedingRules) (rule : WeightRule) (g : Growth) : Bool × Growth :=
  let (picked, s) := pick rule (rules.eligible g.population) g.stream
  match picked with
  | none => (false, { g with stream := s })
  | some (_, chosen) =>
    match g.population.find? chosen.name with
    | none => (false, { g with stream := s })
    | some parent =>
      let (program, s) := Mutation.mutate rules.bounds rules.rates parent.program s
      let (child, p) := g.population.add program (rules.inheritance.inherit rule parent)
      (true, ⟨p.update parent.name Robot.bear, s, .born child parent.name :: g.noted⟩)

/-- two mutated children of two crossed parents -/
def breedPair (rules : BreedingRules) (rule : WeightRule) (g : Growth) : Bool × Growth :=
  let candidates := rules.eligible g.population
  let (picked, s) := pick rule candidates g.stream
  match picked with
  | none => (false, { g with stream := s })
  | some (k, first) =>
    let (picked, s) := pick rule (others candidates k) s
    match picked with
    | none => (false, { g with stream := s })
    | some (_, second) =>
      match g.population.find? first.name, g.population.find? second.name with
      | some first, some second =>
        let ((a, b), s) := Crossing.cross first.program second.program s
        let (a, s) := Mutation.mutate rules.bounds rules.rates a s
        let (b, s) := Mutation.mutate rules.bounds rules.rates b s
        let inherited := rules.inheritance.inheritFromPair rule first second
        let (firstChild, p) := g.population.add a inherited
        let (secondChild, p) := p.add b inherited
        let p := (p.update first.name Robot.bear).update second.name Robot.bear
        (true, ⟨p, s, .pairBorn firstChild secondChild first.name second.name :: g.noted⟩)
      | _, _ => (false, { g with stream := s })

/-- births into so many slots, one by one; gives the slots left -/
def fillSingly (rules : BreedingRules) (rule : WeightRule) : Nat → Growth → Nat × Growth
  | 0, g => (0, g)
  | slots + 1, g =>
    let (done, g) := rules.breedOne rule g
    if done then rules.fillSingly rule slots g else (slots + 1, g)

/-- births into so many slots, two by two; gives the slots left -/
def fillInPairs (rules : BreedingRules) (rule : WeightRule) : Nat → Growth → Nat × Growth
  | 0, g => (0, g)
  | 1, g => (1, g)
  | slots + 2, g =>
    let (done, g) := rules.breedPair rule g
    if done then rules.fillInPairs rule slots g else (slots + 2, g)

/-- births into up to so many slots -/
def breed (rules : BreedingRules) (rule : WeightRule) (slots : Nat) (g : Growth) : Litter :=
  let (left, g) := if rules.inPairs then rules.fillInPairs rule slots g else rules.fillSingly rule slots g
  let noted := if 0 < left then .starved left slots :: g.noted else g.noted
  ⟨{ g with noted := noted }, slots - left, left⟩

/-- adds a number of robots with random programs -/
def inject? (rules : BreedingRules) (count : Nat) (g : Growth) : Option Growth := do
  let (names, p, s) ← Population.addManyRandom? rules.bounds count g.population g.stream
  some ⟨p, s, (names.map Event.injected).reverse ++ g.noted⟩

end BreedingRules

end TradingRobots
