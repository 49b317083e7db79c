/-
Populations: robots in the order they came in, the size wanted, and the counter that names newborns. The counter is a
machine word, so after the last name it begins again.

`Population.check` gives the first fault of a population that was not made by these operations: names must be unique and
below the counter, counters must be ordered, and programs must keep the bounds.
-/
import TradingRobots.Robot

namespace TradingRobots

structure Population where
  desiredSize : Nat
  nextName : Nat
  robots : List Robot
deriving DecidableEq

/-- what is wrong with a population -/
inductive PopulationDefect where
  | duplicateName (name : RobotName)
  | nameAhead (name : RobotName) (counter : Nat)
  | counters (name : RobotName) (correct predictions outcomes : Nat)
  | program (name : RobotName) (defect : ProgramDefect)
  | taken (name : RobotName)
  /-- no name can be counted after it -/
  | last (name : RobotName)
deriving DecidableEq, Repr

/-- how a validation error begins -/
def validationLead : String := "Validation error: "

def PopulationDefect.message : PopulationDefect → String
  | duplicateName name => "Duplicate robot name " ++ name.text
  | nameAhead name counter =>
    "Robot " ++ name.text ++ " was named after the population counter (" ++ toString counter ++ ")"
  | counters name correct predictions outcomes =>
    "Robot " ++ name.text ++ " has " ++ toString correct ++ " correct of " ++ toString predictions ++
      " predictions over " ++ toString outcomes ++ " outcomes"
  | program name defect => "Robot " ++ name.text ++ ": " ++ validationLead ++ defect.message
  | taken name => "Robot " ++ name.text ++ " already in population"
  | last name => "No name follows that of robot " ++ name.text

namespace Population

def empty (desiredSize : Nat) : Population :=
  ⟨desiredSize, 0, []⟩

def size (p : Population) : Nat :=
  p.robots.length

def freeCapacity (p : Population) : Nat :=
  p.desiredSize - p.size

def names (p : Population) : List RobotName :=
  p.robots.map Robot.name

/-- the robot of a name -/
def find? (p : Population) (name : RobotName) : Option Robot :=
  p.robots.find? fun r => r.name = name

/-- changes the first robot of a list that has the name -/
def updateFirst (name : RobotName) (f : Robot → Robot) : List Robot → List Robot
  | [] => []
  | r :: rest => if r.name = name then f r :: rest else r :: updateFirst name f rest

/-- changes the robot of a name -/
def update (p : Population) (name : RobotName) (f : Robot → Robot) : Population :=
  { p with robots := updateFirst name f p.robots }

/-- the counter after so many names were handed out; after the last word it begins again -/
def counterAfter (p : Population) (count : Nat) : Nat :=
  (p.nextName + count) % Binary64.wordLimit

/-- the counter has names for so many newborns, and is ahead of them afterwards; a machine that checks its words breaks
down where it has not -/
def HasNames (p : Population) (count : Nat) : Prop :=
  p.nextName + count < Binary64.wordLimit

instance (p : Population) (count : Nat) : Decidable (p.HasNames count) :=
  inferInstanceAs (Decidable (_ < _))

/-- adds a newborn under the name that the counter shows -/
def add (p : Population) (program : Program) (inheritedWeight : Float) : RobotName × Population :=
  let name : RobotName := ⟨p.nextName⟩
  (name, { p with nextName := p.counterAfter 1, robots := p.robots ++ [.new name program inheritedWeight] })

/-- adds a robot that has a name, and moves the counter past it; this gives the population after it, and why the robot is
turned away -/
def insert (p : Population) (r : Robot) : Except PopulationDefect Unit × Population :=
  match p.find? r.name with
  | some _ => (.error (.taken r.name), p)
  | none =>
    if r.name.number + 1 < Binary64.wordLimit then
      (.ok (), { p with nextName := max p.nextName (r.name.number + 1), robots := p.robots ++ [r] })
    else (.error (.last r.name), p)

/-- removes every robot named -/
def removeAll (p : Population) (dead : List RobotName) : Population :=
  { p with robots := p.robots.filter fun r => !dead.contains r.name }

/-- the first fault of a robot, given the names before it -/
def robotDefect? (bounds : ProgramBounds) (counter : Nat) (seen : List RobotName) (r : Robot) :
    Option PopulationDefect :=
  if seen.contains r.name then some (.duplicateName r.name)
  else if counter ≤ r.name.number then some (.nameAhead r.name counter)
  else if r.predictions < r.correct ∨ r.outcomes < r.predictions then
    some (.counters r.name r.correct r.predictions r.outcomes)
  else
    match bounds.check r.program with
    | .error defect => some (.program r.name defect)
    | .ok () => none

def firstDefect? (bounds : ProgramBounds) (counter : Nat) : List RobotName → List Robot → Option PopulationDefect
  | _, [] => none
  | seen, r :: rest =>
    match robotDefect? bounds counter seen r with
    | some defect => some defect
    | none => firstDefect? bounds counter (r.name :: seen) rest

/-- the first fault of a population -/
def check (p : Population) (bounds : ProgramBounds) : Except PopulationDefect Unit :=
  match firstDefect? bounds p.nextName [] p.robots with
  | some defect => .error defect
  | none => .ok ()

open TradingRobots.Random

/-- adds a robot with a random program -/
def addRandom? (p : Population) (bounds : ProgramBounds) (s : Stream) : Option (RobotName × Population × Stream) := do
  let (program, s) ← bounds.randomProgram? s
  let (name, p) := p.add program 0.0
  some (name, p, s)

/-- adds a number of robots with random programs; the new names come with it -/
def addManyRandom? (bounds : ProgramBounds) :
    Nat → Population → Stream → Option (List RobotName × Population × Stream)
  | 0, p, s => some ([], p, s)
  | n + 1, p, s => do
    let (name, p, s) ← p.addRandom? bounds s
    let (names, p, s) ← addManyRandom? bounds n p s
    some (name :: names, p, s)

/-- a population of random programs, filled to its desired size -/
def random? (desiredSize : Nat) (bounds : ProgramBounds) (s : Stream) : Option (Population × Stream) := do
  let (_, p, s) ← addManyRandom? bounds desiredSize (.empty desiredSize) s
  some (p, s)

end Population

end TradingRobots
