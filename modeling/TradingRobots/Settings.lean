/-
The settings of a run in three sections, with their defaults and the bounds they keep.

`Settings.check` goes through the bounds in a fixed order and gives the first one broken.
-/
import TradingRobots.Program
import TradingRobots.Weight

namespace TradingRobots

/-- shape of the population and of its programs -/
structure PopulationSettings where
  desiredSize : Nat := 1000
  minimumInstructions : Nat := 16
  maximumInstructions : Nat := 1024
  processorFactor : Nat := 256
  maximumOffset : Nat := 256
  ignoredColumns : Nat := 0
  maximumRegisters : Nat := 8
deriving DecidableEq, Repr

/-- who dies, who breeds, and what a child is like -/
structure EvolutionSettings where
  maximumDeathByAge : Float := 0.01
  maximumDeathByWeight : Float := 0.1
  probabilityOfDeathByAge : Float := 0.5
  probabilityOfDeathByWeight : Float := 0.5
  weightMode : WeightMode := .winCount
  weightExponent : Float := 2.0
  inheritedWeight : Float := 0.0
  inheritedWeightMode : InheritedWeightMode := .ancestorsLog
  protectUntilOutcomes : Nat := 100
  newInstruction : Float := 0.01
  instructionMutation : Float := 0.01
  skipInstruction : Float := 0.01
  outcomesToBreed : Nat := 50
  outcomesBetweenChildren : Nat := 50
  killNonPredicting : Bool := true
  randomRobots : Float := 0.02
  protectBest : Float := 0.02
  requireSymmetry : Bool := true
deriving DecidableEq, Repr

/-- the range of a run, its cadence, its thresholds and its seed -/
structure EngineSettings where
  start : Option Int := none
  stop : Option Int := none
  performTraining : Bool := true
  barsBetweenUpdates : Nat := 1
  resultThreshold : Float := 0.0
  voteThreshold : Float := 1.0
  randomSeed : Option Nat := none
deriving DecidableEq, Repr

structure Settings where
  population : PopulationSettings := {}
  evolution : EvolutionSettings := {}
  engine : EngineSettings := {}
deriving DecidableEq, Repr

/-- a share or a probability that must lie between zero and one -/
inductive Share where
  | maximumDeathByAge
  | maximumDeathByWeight
  | probabilityOfDeathByAge
  | probabilityOfDeathByWeight
  | inheritedWeight
  | newInstruction
  | instructionMutation
  | skipInstruction
  | randomRobots
  | protectBest
deriving DecidableEq, Repr

namespace Share

/-- in the order they are checked -/
def all : List Share :=
  [maximumDeathByAge, maximumDeathByWeight, probabilityOfDeathByAge, probabilityOfDeathByWeight, inheritedWeight,
    newInstruction, instructionMutation, skipInstruction, randomRobots, protectBest]

def title : Share → String
  | maximumDeathByAge => "Maximum Death by Age"
  | maximumDeathByWeight => "Maximum Death by Weight"
  | probabilityOfDeathByAge => "Probability Death by Age"
  | probabilityOfDeathByWeight => "Probability Death by Weight"
  | inheritedWeight => "Inherited Child's Weight"
  | newInstruction => "New Instruction Probability"
  | instructionMutation => "Instruction Mutation Probability"
  | skipInstruction => "Skip Instruction Probability"
  | randomRobots => "Random Robots at Each Update"
  | protectBest => "Protect Best Robots"

def value (e : EvolutionSettings) : Share → Float
  | maximumDeathByAge => e.maximumDeathByAge
  | maximumDeathByWeight => e.maximumDeathByWeight
  | probabilityOfDeathByAge => e.probabilityOfDeathByAge
  | probabilityOfDeathByWeight => e.probabilityOfDeathByWeight
  | inheritedWeight => e.inheritedWeight
  | newInstruction => e.newInstruction
  | instructionMutation => e.instructionMutation
  | skipInstruction => e.skipInstruction
  | randomRobots => e.randomRobots
  | protectBest => e.protectBest

end Share

/-- a bound that settings break -/
inductive Violation where
  | noDesiredSize
  | noDataOffset
  | noMinimumInstructions
  | maximumInstructions (least : Nat)
  | noProcessorFactor
  | noRegisters
  | share (which : Share)
  | weightExponent
  | timeRange
  | noBarsBetweenUpdates
  | resultThreshold
  | voteThreshold
deriving DecidableEq, Repr

def Violation.message : Violation → String
  | noDesiredSize => "Population desired size must be greater than 0"
  | noDataOffset => "Maximum Data Offset must be greater than 0"
  | noMinimumInstructions => "Minimum robot instructions must be greater than 0"
  | maximumInstructions least => "Maximum robot instructions must be greater than " ++ toString least
  | noProcessorFactor => "Maximum processor instruction factor must be greater than 0"
  | noRegisters => "Maximum registers must be greater than 0"
  | share which => which.title ++ " must be between 0.0 and 1.0"
  | weightExponent => "Weight exponent must be greater than 0"
  | timeRange => "End Time Point must be higher or equal Start Time Point"
  | noBarsBetweenUpdates => "Bars between updates must be greater than 0"
  | resultThreshold => "Result threshold must be at least 0"
  | voteThreshold => "Vote threshold must be at least 1"

/-- passes when the condition holds -/
def require (condition : Prop) [Decidable condition] (violation : Violation) : Except Violation Unit :=
  if condition then .ok () else .error violation

def PopulationSettings.check (p : PopulationSettings) : Except Violation Unit := do
  require (0 < p.desiredSize) .noDesiredSize
  require (0 < p.maximumOffset) .noDataOffset
  require (0 < p.minimumInstructions) .noMinimumInstructions
  require (p.minimumInstructions < p.maximumInstructions) (.maximumInstructions p.minimumInstructions)
  require (0 < p.processorFactor) .noProcessorFactor
  require (0 < p.maximumRegisters) .noRegisters

/-- between zero and one, both included; NaN is not -/
def isShare (x : Float) : Prop :=
  0.0 ≤ x ∧ x ≤ 1.0

instance (x : Float) : Decidable (isShare x) :=
  inferInstanceAs (Decidable (_ ∧ _))

def EvolutionSettings.check (e : EvolutionSettings) : Except Violation Unit := do
  for which in Share.all do
    require (isShare (which.value e)) (.share which)
  require (e.weightExponent.isFinite ∧ e.weightExponent > 0.0) .weightExponent

def EngineSettings.check (e : EngineSettings) : Except Violation Unit := do
  match e.start, e.stop with
  | some start, some stop => require (start ≤ stop) .timeRange
  | _, _ => pure ()
  require (0 < e.barsBetweenUpdates) .noBarsBetweenUpdates
  require (e.resultThreshold.isFinite ∧ e.resultThreshold ≥ 0.0) .resultThreshold
  require (e.voteThreshold.isFinite ∧ e.voteThreshold ≥ 1.0) .voteThreshold

/-- the sections in order -/
def Settings.check (s : Settings) : Except Violation Unit := do
  s.population.check
  s.evolution.check
  s.engine.check

/-- the bounds of programs under the settings, on data of so many columns -/
def PopulationSettings.programBounds (p : PopulationSettings) (columns : Nat) : ProgramBounds where
  minimumLength := p.minimumInstructions
  maximumLength := p.maximumInstructions
  maximumRegisters := max p.maximumRegisters 1
  maximumOffset := p.maximumOffset
  columns := columns

def EvolutionSettings.weightRule (e : EvolutionSettings) : WeightRule :=
  ⟨e.weightMode, e.weightExponent⟩

def EvolutionSettings.inheritanceRule (e : EvolutionSettings) : InheritanceRule :=
  ⟨e.inheritedWeightMode, e.inheritedWeight⟩

end TradingRobots
