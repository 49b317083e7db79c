/-
The death rules. They run once over the population, in order: the oldest robots may die of age, the lightest of the rest
may die of weight, and robots that never said a direction are removed.

Young robots and the heaviest share of the population are protected from the first two rules. Each of these considers
robots in a fixed order, draws one number for each robot considered, and stays within a cap taken from the size at the
start.
-/
import TradingRobots.Journal
import TradingRobots.Population
import TradingRobots.Settings

namespace TradingRobots

structure DeathRules where
  maximumByAge : Float
  maximumByWeight : Float
  probabilityByAge : Float
  probabilityByWeight : Float
  protectUntilOutcomes : Nat
  protectBest : Float
  removeSilent : Bool
deriving DecidableEq, Repr

def EvolutionSettings.deathRules (e : EvolutionSettings) : DeathRules where
  maximumByAge := e.maximumDeathByAge
  maximumByWeight := e.maximumDeathByWeight
  probabilityByAge := e.probabilityOfDeathByAge
  probabilityByWeight := e.probabilityOfDeathByWeight
  protectUntilOutcomes := e.protectUntilOutcomes
  protectBest := e.protectBest
  removeSilent := e.killNonPredicting

/-- a robot's name and its weight -/
abbrev Weighed := RobotName × Float

namespace Weighed

/-- heaviest first, the lower name first among equals -/
def heavierFirst (a b : Weighed) : Bool :=
  a.2 > b.2 || (!(a.2 < b.2) && a.1.number ≤ b.1.number)

/-- lightest first, the lower name first among equals -/
def lighterFirst (a b : Weighed) : Bool :=
  a.2 < b.2 || (!(a.2 > b.2) && a.1.number ≤ b.1.number)

def ofRobots (rule : WeightRule) (robots : List Robot) : List Weighed :=
  robots.map fun r => (r.name, r.weight rule)

end Weighed

namespace DeathRules

open TradingRobots.Random

/-- the number of robots that a share of a size stands for, rounded -/
def cap (share : Float) (size : Nat) : Nat :=
  Binary64.nearestCount (share * Binary64.ofCount size)

/-- how many of the heaviest are protected, rounded up -/
def protectedCount (rules : DeathRules) (size : Nat) : Nat :=
  Binary64.ceilingCount (rules.protectBest * Binary64.ofCount size)

/-- robots that are too young to die -/
def young (rules : DeathRules) (robots : List Robot) : List RobotName :=
  (robots.filter fun r => r.outcomes < rules.protectUntilOutcomes).map Robot.name

/-- the heaviest share of the population -/
def best (rules : DeathRules) (weighed : List Weighed) : List RobotName :=
  ((weighed.mergeSort Weighed.heavierFirst).take (rules.protectedCount weighed.length)).map Prod.fst

/-- robots that cannot die of age or weight -/
def protectedNames (rules : DeathRules) (rule : WeightRule) (robots : List Robot) : List RobotName :=
  rules.young robots ++ rules.best (Weighed.ofRobots rule robots)

/-- oldest first, the lower name first among equals -/
def olderFirst (a b : Robot) : Bool :=
  b.outcomes < a.outcomes || (b.outcomes = a.outcomes && a.name.number ≤ b.name.number)

/-- goes through candidates and draws for each whether it dies, until so many have died -/
def deathsUpTo {α : Type} (probability : Float) : Nat → List α → Stream → List α × Stream
  | 0, _, s => ([], s)
  | _, [], s => ([], s)
  | room + 1, x :: rest, s =>
    let (u, s) := s.unit
    if u < probability then
      let (dead, s) := deathsUpTo probability room rest s
      (x :: dead, s)
    else deathsUpTo probability (room + 1) rest s

/-- draws for each candidate whether it dies -/
def deathsAmong {α : Type} (probability : Float) : List α → Stream → List α × Stream
  | [], s => ([], s)
  | x :: rest, s =>
    let (u, s) := s.unit
    let (dead, s) := deathsAmong probability rest s
    (if u < probability then x :: dead else dead, s)

/-- who died, by reason, in the order of their deaths -/
structure Deaths where
  byAge : List Robot
  byWeight : List Weighed
  silent : List Robot

namespace Deaths

def names (d : Deaths) : List RobotName :=
  d.byAge.map Robot.name ++ d.byWeight.map Prod.fst ++ d.silent.map Robot.name

def toll (d : Deaths) : DeathToll :=
  ⟨d.byAge.length, d.byWeight.length, d.silent.length⟩

def events (d : Deaths) : List Event :=
  (d.byAge.map fun r => .diedOfAge r.name r.outcomes) ++
  (d.byWeight.map fun w => .diedOfWeight w.1 w.2) ++
  d.silent.map fun r => .fellSilent r.name

end Deaths

/-- robots that the age rule looks at -/
def ageCandidates (rules : DeathRules) (rule : WeightRule) (robots : List Robot) : List Robot :=
  let safe := rules.protectedNames rule robots
  (robots.filter fun r => !safe.contains r.name).mergeSort olderFirst

/-- robots that the weight rule looks at, after deaths of age -/
def weightCandidates (rules : DeathRules) (rule : WeightRule) (robots : List Robot) (dead : List RobotName) :
    List Weighed :=
  let safe := rules.protectedNames rule robots
  let rest := (Weighed.ofRobots rule robots).filter fun w => !safe.contains w.1 && !dead.contains w.1
  (rest.mergeSort Weighed.lighterFirst).take (cap rules.maximumByWeight robots.length)

/-- robots never heard of, not dead already -/
def silentRobots (rules : DeathRules) (robots : List Robot) (dead : List RobotName) : List Robot :=
  if rules.removeSilent then robots.filter fun r => r.neverPredicted && !dead.contains r.name else []

/-- the deaths among some robots -/
def deaths (rules : DeathRules) (rule : WeightRule) (robots : List Robot) (s : Stream) : Deaths × Stream :=
  let (byAge, s) :=
    deathsUpTo rules.probabilityByAge (cap rules.maximumByAge robots.length) (rules.ageCandidates rule robots) s
  let aged := byAge.map Robot.name
  let (byWeight, s) := deathsAmong rules.probabilityByWeight (rules.weightCandidates rule robots aged) s
  (⟨byAge, byWeight, rules.silentRobots robots (aged ++ byWeight.map Prod.fst)⟩, s)

/-- runs the rules on a population -/
def kill (rules : DeathRules) (rule : WeightRule) (p : Population) (s : Stream) : Deaths × Population × Stream :=
  let (dead, s) := rules.deaths rule p.robots s
  (dead, p.removeAll dead.names, s)

end DeathRules

end TradingRobots
