/-
What happens during a run, as events. Every event has a level of importance and one line of text; a run's journal is the
list of its events in order, and readers keep those from some level on.
-/
import TradingRobots.Robot

namespace TradingRobots

/-- robots removed by one pass of the death rules, by reason -/
structure DeathToll where
  byAge : Nat
  byWeight : Nat
  silent : Nat
deriving DecidableEq, Repr

def DeathToll.none : DeathToll := ⟨0, 0, 0⟩

def DeathToll.total (t : DeathToll) : Nat :=
  t.byAge + t.byWeight + t.silent

/-- what one cycle did to the population -/
structure CycleReport where
  sizeBefore : Nat
  toll : DeathToll
  born : Nat
  /-- slots left empty because no parent was eligible -/
  starved : Nat
  injected : Nat
  sizeAfter : Nat
deriving DecidableEq, Repr

def CycleReport.text (r : CycleReport) : String :=
  "size " ++ toString r.sizeBefore ++ " -> " ++ toString r.sizeAfter ++ ", died age=" ++ toString r.toll.byAge ++
    " weight=" ++ toString r.toll.byWeight ++ " silent=" ++ toString r.toll.silent ++ ", born=" ++ toString r.born ++
    ", injected=" ++ toString r.injected ++ ", starved=" ++ toString r.starved

inductive Level where
  | debug
  | info
  | warning
deriving DecidableEq, Repr

namespace Level

def rank : Level → Nat
  | debug => 0
  | info => 1
  | warning => 2

def name : Level → String
  | debug => "DEBUG"
  | info => "INFO"
  | warning => "WARN"

end Level

inductive Event where
  | diedOfAge (name : RobotName) (outcomes : Nat)
  | diedOfWeight (name : RobotName) (weight : Float)
  | fellSilent (name : RobotName)
  | born (child parent : RobotName)
  | pairBorn (firstChild secondChild firstParent secondParent : RobotName)
  | injected (name : RobotName)
  | starved (left slots : Nat)
  | created (size : Nat)
  | cycled (bar : Nat) (report : CycleReport)
  | startedEmpty
  | started (first last datasets robots : Nat)
  | cancelled (bar : Nat)
  | completed (bar : Nat) (votes : List (String × Signal)) (exhausted : Nat)
  | unfilled (bar slots : Nat)
deriving DecidableEq

namespace Event

def level : Event → Level
  | diedOfAge .. => .debug
  | diedOfWeight .. => .debug
  | fellSilent _ => .debug
  | born .. => .debug
  | pairBorn .. => .debug
  | injected _ => .debug
  | starved .. => .warning
  | created _ => .info
  | cycled .. => .info
  | startedEmpty => .warning
  | started .. => .info
  | cancelled _ => .warning
  | completed .. => .info
  | unfilled .. => .warning

/-- votes as name=signal, separated by commas -/
def votesText (votes : List (String × Signal)) : String :=
  ", ".intercalate (votes.map fun v => v.1 ++ "=" ++ v.2.name)

def text : Event → String
  | diedOfAge name outcomes => "Robot " ++ name.text ++ " died of age (" ++ toString outcomes ++ " outcomes)"
  | diedOfWeight name weight => "Robot " ++ name.text ++ " died of weight (" ++ Number.fixed 4 weight ++ ")"
  | fellSilent name => "Robot " ++ name.text ++ " removed, never predicted"
  | born child parent => "Robot " ++ child.text ++ " born from " ++ parent.text
  | pairBorn firstChild secondChild firstParent secondParent =>
    "Robots " ++ firstChild.text ++ " and " ++ secondChild.text ++ " born from " ++ firstParent.text ++ " and " ++
      secondParent.text
  | injected name => "Robot " ++ name.text ++ " injected"
  | starved left slots => "Breeding starved: " ++ toString left ++ " of " ++ toString slots ++ " slots left empty"
  | created size => "Created " ++ toString size ++ " random robots"
  | cycled bar report => "Cycle at bar " ++ toString bar ++ ": " ++ report.text
  | startedEmpty => "Starting with an empty population"
  | started first last datasets robots =>
    "Processing bars " ++ toString first ++ "..=" ++ toString last ++ " for " ++ toString datasets ++
      " datasets with " ++ toString robots ++ " robots"
  | cancelled bar => "Run cancelled before bar " ++ toString bar
  | completed bar votes exhausted =>
    "Bar " ++ toString bar ++ " complete. Votes: [" ++ votesText votes ++ "], budget exhausted: " ++
      toString exhausted
  | unfilled bar slots => "Bar " ++ toString bar ++ ": " ++ toString slots ++ " breeding slots unfilled"

/-- level and text, as a line of the journal -/
def line (e : Event) : String :=
  e.level.name ++ " " ++ e.text

end Event

/-- the lines of the events from a level on -/
def journalFrom (least : Level) (events : List Event) : List String :=
  (events.filter fun e => least.rank ≤ e.level.rank).map Event.line

end TradingRobots
