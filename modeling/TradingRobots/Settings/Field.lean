/-
The fields of the settings, as a table: for each field its name, what it is for, what kind of value it holds, and how it
is read from the settings and put into them. Listings, settings files and whatever changes settings by name go through
this table.

`get_put`: what was put into a field is what the field then holds.
-/
import TradingRobots.Settings

namespace TradingRobots

/-- what a field holds -/
inductive SettingKind where
  | flag
  | count
  | real
  | optionalWhole
  | optionalCount
  | weightMode
  | inheritedWeightMode
deriving DecidableEq, Repr

/-- the values of a kind -/
abbrev SettingKind.Value : SettingKind → Type
  | flag => Bool
  | count => Nat
  | real => Float
  | optionalWhole => Option Int
  | optionalCount => Option Nat
  | weightMode => WeightMode
  | inheritedWeightMode => InheritedWeightMode

/-- one field of a part of the settings -/
structure SettingField (σ : Type) where
  name : String
  description : String
  kind : SettingKind
  get : σ → kind.Value
  put : kind.Value → σ → σ
  get_put : ∀ value s, get (put value s) = value

namespace SettingField

variable {σ τ : Type}

/-- a field of a part, as a field of the whole -/
def within (f : SettingField σ) (part : τ → σ) (replace : σ → τ → τ) (part_replace : ∀ s t, part (replace s t) = s) :
    SettingField τ where
  name := f.name
  description := f.description
  kind := f.kind
  get t := f.get (part t)
  put value t := replace (f.put value (part t)) t
  get_put value t := by rw [part_replace, f.get_put]

end SettingField

/-- the fields of a section, in order -/
def PopulationSettings.fields : List (SettingField PopulationSettings) := [
  ⟨"desired_size", "Number of robots the population is refilled to", .count,
    desiredSize, fun v p => { p with desiredSize := v }, fun _ _ => rfl⟩,
  ⟨"minimum_robot_instructions", "Shortest allowed program", .count,
    minimumInstructions, fun v p => { p with minimumInstructions := v }, fun _ _ => rfl⟩,
  ⟨"maximum_robot_instructions", "Longest allowed program", .count,
    maximumInstructions, fun v p => { p with maximumInstructions := v }, fun _ _ => rfl⟩,
  ⟨"maximum_processor_instruction_factor", "Dispatch budget per program instruction", .count,
    processorFactor, fun v p => { p with processorFactor := v }, fun _ _ => rfl⟩,
  ⟨"maximum_data_offset", "How many bars back a program may read", .count,
    maximumOffset, fun v p => { p with maximumOffset := v }, fun _ _ => rfl⟩,
  ⟨"ignore_columns", "Leading data columns hidden from programs", .count,
    ignoredColumns, fun v p => { p with ignoredColumns := v }, fun _ _ => rfl⟩,
  ⟨"maximum_registers", "Upper bound for a program's register count", .count,
    maximumRegisters, fun v p => { p with maximumRegisters := v }, fun _ _ => rfl⟩]

/-- the fields of a section, in order -/
def EvolutionSettings.fields : List (SettingField EvolutionSettings) := [
  ⟨"maximum_death_by_age", "Largest share of the population that can die of age in one cycle", .real,
    maximumDeathByAge, fun v e => { e with maximumDeathByAge := v }, fun _ _ => rfl⟩,
  ⟨"maximum_death_by_weight", "Share of the lightest robots considered for death in one cycle", .real,
    maximumDeathByWeight, fun v e => { e with maximumDeathByWeight := v }, fun _ _ => rfl⟩,
  ⟨"probability_of_death_by_age", "Chance that an old robot considered for death dies", .real,
    probabilityOfDeathByAge, fun v e => { e with probabilityOfDeathByAge := v }, fun _ _ => rfl⟩,
  ⟨"probability_of_death_by_weight", "Chance that a light robot considered for death dies", .real,
    probabilityOfDeathByWeight, fun v e => { e with probabilityOfDeathByWeight := v }, fun _ _ => rfl⟩,
  ⟨"weight_mode", "Formula turning prediction counts into earned weight", .weightMode,
    weightMode, fun v e => { e with weightMode := v }, fun _ _ => rfl⟩,
  ⟨"weight_exponent", "Power applied to the earned weight", .real,
    weightExponent, fun v e => { e with weightExponent := v }, fun _ _ => rfl⟩,
  ⟨"inherited_child_weight", "Fraction of parent weight passed to a child", .real,
    inheritedWeight, fun v e => { e with inheritedWeight := v }, fun _ _ => rfl⟩,
  ⟨"inherited_child_weight_mode", "Which parent weight a child inherits from", .inheritedWeightMode,
    inheritedWeightMode, fun v e => { e with inheritedWeightMode := v }, fun _ _ => rfl⟩,
  ⟨"protect_robots_until_outcomes", "Robots with fewer outcomes cannot die of age or weight", .count,
    protectUntilOutcomes, fun v e => { e with protectUntilOutcomes := v }, fun _ _ => rfl⟩,
  ⟨"new_instruction_probability", "Chance of inserting a random instruction at each slot", .real,
    newInstruction, fun v e => { e with newInstruction := v }, fun _ _ => rfl⟩,
  ⟨"instruction_mutation_probability", "Chance of replacing each inherited instruction", .real,
    instructionMutation, fun v e => { e with instructionMutation := v }, fun _ _ => rfl⟩,
  ⟨"skip_instruction_probability", "Chance of dropping each inherited instruction", .real,
    skipInstruction, fun v e => { e with skipInstruction := v }, fun _ _ => rfl⟩,
  ⟨"minimum_outcomes_to_allow_breeding", "Outcomes a robot needs before it can parent", .count,
    outcomesToBreed, fun v e => { e with outcomesToBreed := v }, fun _ _ => rfl⟩,
  ⟨"minimum_outcomes_between_breeding", "Outcomes a parent waits between children", .count,
    outcomesBetweenChildren, fun v e => { e with outcomesBetweenChildren := v }, fun _ _ => rfl⟩,
  ⟨"kill_non_predicting_robots", "Remove robots that never emitted Long or Short", .flag,
    killNonPredicting, fun v e => { e with killNonPredicting := v }, fun _ _ => rfl⟩,
  ⟨"random_robots_at_each_update", "Share of the desired size refilled with random robots", .real,
    randomRobots, fun v e => { e with randomRobots := v }, fun _ _ => rfl⟩,
  ⟨"protect_best_robots", "Share of the heaviest robots exempt from death", .real,
    protectBest, fun v e => { e with protectBest := v }, fun _ _ => rfl⟩,
  ⟨"require_symmetrical_robots", "Breed complementary pairs by crossover", .flag,
    requireSymmetry, fun v e => { e with requireSymmetry := v }, fun _ _ => rfl⟩]

/-- the fields of a section, in order -/
def EngineSettings.fields : List (SettingField EngineSettings) := [
  ⟨"start_time_point", "First time point to process (clamped to data)", .optionalWhole,
    start, fun v e => { e with start := v }, fun _ _ => rfl⟩,
  ⟨"end_time_point", "Last time point to process (clamped to data)", .optionalWhole,
    stop, fun v e => { e with stop := v }, fun _ _ => rfl⟩,
  ⟨"perform_training", "Run evolution cycles", .flag,
    performTraining, fun v e => { e with performTraining := v }, fun _ _ => rfl⟩,
  ⟨"bars_between_updates", "Bars between evolution cycles", .count,
    barsBetweenUpdates, fun v e => { e with barsBetweenUpdates := v }, fun _ _ => rfl⟩,
  ⟨"result_threshold", "Neutral band for realized changes", .real,
    resultThreshold, fun v e => { e with resultThreshold := v }, fun _ _ => rfl⟩,
  ⟨"vote_threshold", "Winning weight ratio for population votes", .real,
    voteThreshold, fun v e => { e with voteThreshold := v }, fun _ _ => rfl⟩,
  ⟨"random_seed", "Seed for reproducible evolution", .optionalCount,
    randomSeed, fun v e => { e with randomSeed := v }, fun _ _ => rfl⟩]

/-- a section of the settings: its name in files, its title in listings, its fields -/
structure SettingsSection where
  name : String
  title : String
  fields : List (SettingField Settings)

namespace Settings

def populationSection : SettingsSection where
  name := "population"
  title := "Population"
  fields := PopulationSettings.fields.map fun f =>
    f.within population (fun p s => { s with population := p }) fun _ _ => rfl

def evolutionSection : SettingsSection where
  name := "evolution"
  title := "Evolution"
  fields := EvolutionSettings.fields.map fun f =>
    f.within evolution (fun e s => { s with evolution := e }) fun _ _ => rfl

def engineSection : SettingsSection where
  name := "engine"
  title := "Engine"
  fields := EngineSettings.fields.map fun f =>
    f.within engine (fun e s => { s with engine := e }) fun _ _ => rfl

def sections : List SettingsSection :=
  [populationSection, evolutionSection, engineSection]

end Settings

end TradingRobots
