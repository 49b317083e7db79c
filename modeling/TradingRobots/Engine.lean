/-
The engine: it takes a population through the bars of a feed. At each bar every robot runs on every dataset that has a
row there; its signal is recorded, its earlier signal scored, and the population's vote held until the dataset's next
row. On update bars an evolution cycle follows.

Weights in a vote are those from before the bar. Cycles alone draw from the stream. A run stops before a bar when its
flag has been raised, never within one.
-/
import TradingRobots.Cycle
import TradingRobots.Execution
import TradingRobots.Ledger
import TradingRobots.Market
import TradingRobots.Summary
import TradingRobots.Vote

namespace TradingRobots

/-- the vote on one dataset at one bar -/
structure DatasetVote where
  dataset : String
  tally : Tally
  signal : Signal
deriving DecidableEq, Repr

/-- what happened at one bar -/
structure BarSummary where
  bar : Nat
  votes : List DatasetVote
  /-- runs of programs that used up their budget -/
  exhausted : Nat
  cycle : Option CycleReport
deriving DecidableEq, Repr

/-- what a run tells those who watch it -/
inductive Message where
  | started (bar : Nat)
  | cycled (bar : Nat) (report : CycleReport)
  | completed (summary : BarSummary)
deriving DecidableEq, Repr

/-- what a watcher puts into the journal for a message -/
abbrev Watcher := Message → List Event

namespace Watcher

/-- puts down nothing -/
def silent : Watcher := fun _ => []

/-- puts down every so many bars how they ended, and cycles that left slots empty -/
def console (every : Nat) : Watcher
  | .started _ => []
  | .cycled bar report => if 0 < report.starved then [.unfilled bar report.starved] else []
  | .completed summary =>
    if (summary.bar + 1) % max every 1 = 0 then
      [.completed summary.bar (summary.votes.map fun v => (v.dataset, v.signal)) summary.exhausted]
    else []

end Watcher

/-- what stays fixed through a run -/
structure EngineRules where
  feed : Feed
  settings : EngineSettings
  policy : EvolutionPolicy
  processorFactor : Nat

/-- what a run changes -/
structure EngineState where
  population : Population
  ledgers : NameTable Ledger
  stream : Random.Stream
  /-- the flag that stops a run before its next bar -/
  cancelled : Bool

namespace EngineRules

/-- a robot's part in a bar: what its program gave, its weight before, and the robot after -/
def robotBar (rules : EngineRules) (dataset : String) (w : Window) (r : Robot) : Execution × Float × Robot :=
  let run := r.program.execute rules.processorFactor w
  let after := r.predict dataset run.signal
  let after :=
    match w.change with
    | some change => (after.resolve dataset change rules.settings.resultThreshold).2
    | none => after
  (run, r.weight rules.policy.weights, after)

/-- one dataset at one bar: all robots, then the vote -/
def datasetBar (rules : EngineRules) (bar : Nat) (dataset : String) (w : Window) (e : EngineState) :
    DatasetVote × Nat × EngineState :=
  let results := e.population.robots.map (rules.robotBar dataset w)
  let tally := Tally.ofVotes (results.map fun x => (x.1.signal, x.2.1))
  let signal := tally.decide rules.settings.voteThreshold
  let ledger := (e.ledgers.find? dataset).getD .empty
  let ledger :=
    match w.change with
    | some change => (ledger.resolve bar change rules.settings.resultThreshold).2
    | none => ledger
  (⟨dataset, tally, signal⟩,
    results.countP fun x => x.1.termination = .budgetExhausted,
    { e with
      population := { e.population with robots := results.map fun x => x.2.2 }
      ledgers := e.ledgers.insert dataset (ledger.hold signal) })

/-- all datasets that have a row at a bar, in the feed's order -/
def datasetsBar (rules : EngineRules) (bar : Nat) : List String → EngineState → List DatasetVote × Nat × EngineState
  | [], e => ([], 0, e)
  | name :: rest, e =>
    match rules.feed.window? name bar with
    | none => rules.datasetsBar bar rest e
    | some w =>
      let (vote, exhausted, e) := rules.datasetBar bar name w e
      let (votes, others, e) := rules.datasetsBar bar rest e
      (vote :: votes, exhausted + others, e)

/-- some dataset has a row at a bar -/
def hasRows (rules : EngineRules) (bar : Nat) : Bool :=
  rules.feed.names.any fun name => (rules.feed.window? name bar).isSome

/-- a program would run at a bar that cannot -/
def isStuck (rules : EngineRules) (bar : Nat) (e : EngineState) : Bool :=
  (e.population.robots.any fun r => !r.program.isRunnable) && rules.hasRows bar

/-- an evolution cycle follows the bar -/
def isUpdateBar (rules : EngineRules) (bar : Nat) : Bool :=
  rules.settings.performTraining && (bar + 1) % rules.settings.barsBetweenUpdates = 0

/-- no bar can be counted after it, so it cannot be told whether a cycle follows -/
def isBeyond (rules : EngineRules) (bar : Nat) : Bool :=
  rules.settings.performTraining && Binary64.wordLimit ≤ bar + 1

/-- one bar; there is none when a program cannot run, or a cycle has no random programs to draw -/
def runBar? (rules : EngineRules) (bar : Nat) (e : EngineState) : Option (BarSummary × List Event × EngineState) :=
  if rules.isStuck bar e then none
  else do
    let (votes, exhausted, e) := rules.datasetsBar bar rules.feed.names e
    if rules.isUpdateBar bar then
      let c ← rules.policy.cycle? e.population e.stream
      some (⟨bar, votes, exhausted, some c.report⟩, c.events ++ [.cycled bar c.report],
        { e with population := c.population, stream := c.stream })
    else some (⟨bar, votes, exhausted, none⟩, [], e)

end EngineRules

/-- the part of a run that is behind it -/
structure Progress where
  state : EngineState
  bars : Nat
  lastBar : Option Nat
  cycles : Nat
  stopped : Bool
  messages : List Message
  events : List Event

/-- what a run came to -/
structure RunReport where
  bars : Nat
  lastBar : Option Nat
  cancelled : Bool
  cycles : Nat
  ledgers : NameTable Ledger
  population : Summary

namespace RunReport

/-- the lines of a dataset: its votes, then its figures -/
def datasetLines (name : String) (l : Ledger) : List String :=
  ("dataset " ++ name ++ " correct " ++ toString l.correct ++ " wrong " ++ toString l.wrong ++ " out " ++
    toString l.out ++ " profit " ++ Number.fixed 4 l.totalProfit) ::
  l.figures.map fun f => "  " ++ f.1 ++ " " ++ Number.fixed 4 f.2

def text (r : RunReport) : String :=
  "bars_processed " ++ toString r.bars ++ "\n" ++
  "cancelled " ++ Robot.boolText r.cancelled ++ "\n" ++
  "cycles " ++ toString r.cycles ++ "\n" ++
  r.population.text ++
  String.join ((r.ledgers.entries.flatMap fun e => datasetLines e.1 e.2).map (· ++ "\n"))

end RunReport

/-- why a run does not start, or breaks off -/
inductive RunDefect where
  | settings (violation : Violation)
  | noColumns
  | noBars
  /-- a program could not be run, or a random one not be drawn -/
  | breakdown
deriving DecidableEq, Repr

def RunDefect.message : RunDefect → String
  | settings violation => violation.message
  | noColumns => "Market data exposes no usable columns"
  | noBars => "No bars in the configured time range"
  | breakdown => "A program could not be drawn or run"

namespace EngineRules

/-- one bar of a run: start, the bar, its cycle if there was one, completion; then the flag may be raised -/
def stepRun? (rules : EngineRules) (watch : Watcher) (stopAfter : Option Nat) (bar : Nat) (p : Progress) :
    Option Progress := do
  let (summary, events, state) ← rules.runBar? bar p.state
  let cycle := summary.cycle.toList.map (Message.cycled bar)
  let told := cycle ++ [.completed summary]
  some {
    state := { state with cancelled := state.cancelled || stopAfter = some (p.bars + 1) }
    bars := p.bars + 1
    lastBar := some bar
    cycles := p.cycles + cycle.length
    stopped := p.stopped
    messages := p.messages ++ .started bar :: told
    events := p.events ++ watch (.started bar) ++ events ++ told.flatMap watch }

/-- runs bars in ascending order, until the flag is seen before one -/
def runBars? (rules : EngineRules) (watch : Watcher) (stopAfter : Option Nat) :
    Nat → Nat → Progress → Option Progress
  | 0, _, p => some p
  | left + 1, bar, p =>
    if p.state.cancelled then some { p with stopped := true, events := p.events ++ [.cancelled bar] }
    else do
      let p ← rules.stepRun? watch stopAfter bar p
      rules.runBars? watch stopAfter left (bar + 1) p

def report (rules : EngineRules) (p : Progress) : RunReport :=
  ⟨p.bars, p.lastBar, p.stopped, p.cycles, p.state.ledgers, .ofPopulation p.state.population rules.policy.weights⟩

/-- what the journal says before the first bar -/
def opening (rules : EngineRules) (first last : Nat) (e : EngineState) : List Event :=
  (if e.population.robots.isEmpty then [.startedEmpty] else []) ++
    [.started first last rules.feed.names.length e.population.size]

/-- runs the bars of the configured range; the flag is raised after so many bars, if a number is given -/
def run (rules : EngineRules) (watch : Watcher) (stopAfter : Option Nat) (e : EngineState) :
    Except RunDefect (RunReport × Progress) :=
  match rules.feed.range? rules.settings.start rules.settings.stop with
  | none => .error .noBars
  | some (first, last) =>
    let e := { e with cancelled := e.cancelled || stopAfter = some 0 }
    match rules.runBars? watch stopAfter (last + 1 - first) first
        ⟨e, 0, none, 0, false, [], rules.opening first last e⟩ with
    | none => .error .breakdown
    | some p => .ok (rules.report p, p)

/-- the rules of an engine on a feed; settings that break a bound are refused first -/
def new (feed : Feed) (settings : Settings) : Except RunDefect EngineRules :=
  match settings.check with
  | .error violation => .error (.settings violation)
  | .ok () =>
    if feed.columnCount = 0 then .error .noColumns
    else
      .ok {
        feed := feed
        settings := settings.engine
        policy := settings.evolution.policy (settings.population.programBounds feed.columnCount)
        processorFactor := settings.population.processorFactor }

/-- the bounds of the population's programs -/
def bounds (rules : EngineRules) : ProgramBounds :=
  rules.policy.breeding.bounds

/-- the state before the first run: nothing voted yet -/
def start (rules : EngineRules) (p : Population) (s : Random.Stream) : EngineState :=
  ⟨p, .ofList (rules.feed.names.map fun name => (name, .empty)), s, false⟩

end EngineRules

end TradingRobots
