/-
A session of the command line: settings are loaded and listed, the price files of a folder become a market, a population
goes through it, and the report of the run and the heaviest robots are printed. What was printed before a fault stays
printed.

A session reads from a disk and gives what it would write; the seed it takes when the settings name none comes from
outside.
-/
import TradingRobots.CommandLine.Options
import TradingRobots.Fault
import TradingRobots.Random.Sources
import TradingRobots.Settings.Listing

namespace TradingRobots.CommandLine

/-- what a session is run with -/
structure Surroundings where
  disk : Disk
  environment : List (String × String)
  /-- seed of a run whose settings name none -/
  entropy : UInt64

/-- what a session came to: exit status, text printed, a file to write, and the fault that ended it -/
structure Outcome where
  status : Nat
  printed : String
  saved : Option (String × String)
  fault : Option Fault

namespace Outcome

def failed (printed : String) (fault : Fault) : Outcome :=
  ⟨if fault.isBreakdown then 101 else 1, printed, none, some fault⟩

/-- writes the file of an outcome; where that fails, so does the session -/
def written (o : Outcome) (disk : Disk) : Outcome × Disk :=
  match o.saved with
  | none => (o, disk)
  | some (path, text) =>
    match disk.write? path text with
    | some disk => (o, disk)
    | none => (.failed o.printed (.populationFile (.unwritable path)), disk)

end Outcome

/-- fewest rows of a price file -/
def leastRows : Nat := 2

/-- the ending of settings files -/
def settingsEnding : String := ".toml"

/-- the text of the settings file: at its path, or with the ending after its name -/
def settingsText? (disk : Disk) (path : String) : Option String :=
  match disk.read? path with
  | some text => some text
  | none => (Path.withEnding? path settingsEnding).bind disk.read?

/-- the settings of a session -/
def loadSettings (around : Surroundings) (o : Options) : Except Fault Settings :=
  let store : SettingsStore := {}
  match store.load ⟨o.settings.map (settingsText? around.disk), around.environment⟩ with
  | (.error e, _) => .error (.settings e)
  | (.ok (), store) => .ok store.current

/-- an engine on the market data of a folder -/
def loadEngine (disk : Disk) (folder : String) (s : Settings) : Except Fault EngineRules :=
  match PriceFile.loadFolder disk folder leastRows with
  | .error e => .error (.priceFile e)
  | .ok datasets =>
    match Market.new datasets s.population with
    | .error e => .error (.market e)
    | .ok market =>
      match EngineRules.new market.feed s with
      | .error e => .error (.run e)
      | .ok rules => .ok rules

/-- a population read from a file -/
def loadPopulation (disk : Disk) (bounds : ProgramBounds) (path : String) : Except Fault Population :=
  match disk.read? path with
  | none => .error (.populationFile (.missing path))
  | some text =>
    match Population.ofFileText bounds text with
    | .error e => .error (.populationFile e)
    | .ok p => .ok p

/-- the population that a run starts with, and the stream after it -/
def startPopulation (disk : Disk) (rules : EngineRules) (desiredSize : Nat) (o : Options) (s : Random.Stream) :
    Except Fault (Population × Random.Stream) :=
  match o.loadFrom with
  | some path =>
    match loadPopulation disk rules.bounds path with
    | .error e => .error e
    | .ok p => .ok ({ p with desiredSize := desiredSize }, s)
  | none =>
    match Population.random? desiredSize rules.bounds s with
    | none => .error (.run .breakdown)
    | some r => .ok r

/-- robots in order of weight, the heaviest first -/
def ranking (rule : WeightRule) (robots : List Robot) : List Robot :=
  ((robots.map fun r => (r, r.weight rule)).mergeSort fun a b =>
    Weighed.heavierFirst (a.1.name, a.2) (b.1.name, b.2)).map Prod.fst

/-- the reports of the heaviest robots, each after an empty line -/
def bestText (rule : WeightRule) (count : Nat) (robots : List Robot) : String :=
  String.join (((ranking rule robots).take count).map fun r => "\n" ++ r.report rule)

/-- the run itself: what it prints, and the population after it -/
def runText (around : Surroundings) (o : Options) (s : Settings) : Except Fault (String × Population) := do
  let rules ← loadEngine around.disk o.folder s
  let seed := match s.engine.randomSeed with
    | some seed => UInt64.ofNat seed
    | none => around.entropy
  let (p, stream) ← startPopulation around.disk rules s.population.desiredSize o (Random.seeded seed)
  match rules.run (.console o.reportEvery) none (rules.start p stream) with
  | .error e => .error (.run e)
  | .ok (report, progress) =>
    let p := progress.state.population
    .ok (report.text ++ bestText rules.policy.weights o.showBest p.robots, p)

def run (around : Surroundings) (o : Options) : Outcome :=
  match loadSettings around o with
  | .error e => .failed "" e
  | .ok s =>
    match runText around o s with
    | .error e => .failed s.listing e
    | .ok (text, p) => ⟨0, s.listing ++ text, o.saveTo.map fun path => (path, p.fileText), none⟩

/-- the outcome of a list of arguments -/
def answer (around : Surroundings) (arguments : List String) : Outcome :=
  match Request.ofArguments arguments with
  | .error _ => ⟨2, "", none, none⟩
  | .ok .help => ⟨0, usage, none, none⟩
  | .ok (.run o) => run around o

end TradingRobots.CommandLine
