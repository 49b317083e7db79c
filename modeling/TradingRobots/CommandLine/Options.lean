/-
The arguments of the command line: one folder of price files, and options that each take one value, after an equals sign
or as the next argument. An option is given once. After a bare `--` everything is a folder. Arguments are taken from left
to right; the first one that does not fit ends the reading, and so does a wish for help.
-/
import TradingRobots.Number.Reading

namespace TradingRobots.CommandLine

structure Options where
  /-- folder of price files, one dataset each -/
  folder : String
  /-- settings file -/
  settings : Option String
  /-- population to go on with, instead of a random one -/
  loadFrom : Option String
  /-- where the population is written to after the run -/
  saveTo : Option String
  /-- how many of the heaviest robots are shown -/
  showBest : Nat
  /-- bars between two lines of progress -/
  reportEvery : Nat
deriving DecidableEq, Repr

/-- an option with a value -/
inductive Flag where
  | settings
  | loadFrom
  | saveTo
  | showBest
  | reportEvery
deriving DecidableEq, Repr

namespace Flag

def all : List Flag := [settings, loadFrom, saveTo, showBest, reportEvery]

def name : Flag → String
  | settings => "config"
  | loadFrom => "load-population"
  | saveTo => "save-population"
  | showBest => "show-best"
  | reportEvery => "report-every"

def ofName? (s : String) : Option Flag :=
  all.find? fun f => f.name = s

end Flag

/-- why arguments are refused -/
inductive UsageDefect where
  | unknown (argument : String)
  | noValue (flag : Flag)
  | badValue (flag : Flag) (value : String)
  | repeated (flag : Flag)
  | emptyFolder
  | secondFolder (folder : String)
  | noFolder
deriving DecidableEq, Repr

def UsageDefect.message : UsageDefect → String
  | unknown argument => "unexpected argument " ++ argument
  | noValue flag => "no value for --" ++ flag.name
  | badValue flag value => "invalid value " ++ value ++ " for --" ++ flag.name
  | repeated flag => "--" ++ flag.name ++ " is given twice"
  | emptyFolder => "the folder has no name"
  | secondFolder folder => "unexpected argument " ++ folder
  | noFolder => "no folder of price files is given"

/-- what was read so far -/
structure Given where
  folder : Option String := none
  settings : Option String := none
  loadFrom : Option String := none
  saveTo : Option String := none
  showBest : Option Nat := none
  reportEvery : Option Nat := none

namespace Given

def addFolder (g : Given) (folder : String) : Except UsageDefect Given :=
  if folder.isEmpty then .error .emptyFolder
  else
    match g.folder with
    | some _ => .error (.secondFolder folder)
    | none => .ok { g with folder := some folder }

def addFolders (g : Given) : List String → Except UsageDefect Given
  | [] => .ok g
  | folder :: rest => do (← g.addFolder folder).addFolders rest

def has (g : Given) : Flag → Bool
  | .settings => g.settings.isSome
  | .loadFrom => g.loadFrom.isSome
  | .saveTo => g.saveTo.isSome
  | .showBest => g.showBest.isSome
  | .reportEvery => g.reportEvery.isSome

/-- a value for an option: a path is not empty, a number is a count of a machine word -/
def put? (g : Given) (flag : Flag) (value : String) : Option Given :=
  match flag with
  | .settings => if value.isEmpty then none else some { g with settings := some value }
  | .loadFrom => if value.isEmpty then none else some { g with loadFrom := some value }
  | .saveTo => if value.isEmpty then none else some { g with saveTo := some value }
  | .showBest => (Reading.count? value).map fun n => { g with showBest := some n }
  | .reportEvery => (Reading.count? value).map fun n => { g with reportEvery := some n }

def addValue (g : Given) (flag : Flag) (value : String) : Except UsageDefect Given :=
  match g.put? flag value with
  | none => .error (.badValue flag value)
  | some g' => if g.has flag then .error (.repeated flag) else .ok g'

def options (g : Given) : Except UsageDefect Options :=
  match g.folder with
  | none => .error .noFolder
  | some folder =>
    .ok {
      folder := folder
      settings := g.settings
      loadFrom := g.loadFrom
      saveTo := g.saveTo
      showBest := g.showBest.getD 1
      reportEvery := g.reportEvery.getD 100 }

end Given

/-- what the arguments ask for -/
inductive Request where
  | help
  | run (options : Options)
deriving DecidableEq, Repr

/-- an argument that begins as an option does; a single stroke is a name -/
def looksLikeOption (argument : String) : Bool :=
  match argument.toList with
  | '-' :: _ :: _ => true
  | _ => false

/-- what follows the two strokes of a long option: its name, and its value after an equals sign -/
def longOption? (argument : String) : Option (String × Option String) :=
  match argument.toList with
  | '-' :: '-' :: body =>
    let name := String.ofList (body.takeWhile (· ≠ '='))
    match body.dropWhile (· ≠ '=') with
    | '=' :: value => some (name, some (String.ofList value))
    | _ => some (name, none)
  | _ => none

/-- the short form of a wish for help, alone or before other letters -/
def isShortHelp (argument : String) : Bool :=
  match argument.toList with
  | '-' :: 'h' :: _ => true
  | _ => false

/-- what one argument is -/
inductive Part where
  | endOfOptions
  | help
  | valued (flag : Flag) (value : String)
  /-- the value is the next argument -/
  | awaiting (flag : Flag)
  | folder (name : String)
  | unknown
deriving DecidableEq, Repr

def Part.of (argument : String) : Part :=
  if argument = "--" then .endOfOptions
  else
    match longOption? argument with
    | some (name, value) =>
      if name = "help" then (if value.isNone then .help else .unknown)
      else
        match Flag.ofName? name, value with
        | some flag, some value => .valued flag value
        | some flag, none => .awaiting flag
        | none, _ => .unknown
    | none =>
      if isShortHelp argument then .help
      else if looksLikeOption argument then .unknown
      else .folder argument

/-- reads the arguments after those already read -/
def readFrom (g : Given) : List String → Except UsageDefect Request
  | [] => do .ok (.run (← g.options))
  | argument :: rest =>
    match Part.of argument with
    | .endOfOptions => do .ok (.run (← (← g.addFolders rest).options))
    | .help => .ok .help
    | .valued flag value => do readFrom (← g.addValue flag value) rest
    | .awaiting flag =>
      match rest with
      | [] => .error (.noValue flag)
      | value :: rest =>
        if looksLikeOption value then .error (.noValue flag)
        else do readFrom (← g.addValue flag value) rest
    | .folder name => do readFrom (← g.addFolder name) rest
    | .unknown => .error (.unknown argument)

/-- what a list of arguments asks for -/
def Request.ofArguments (arguments : List String) : Except UsageDefect Request :=
  readFrom {} arguments

/-- how the command line is used -/
def usage : String :=
  "Evolve trading robots against historical market data\n\n" ++
  "  --config <FILE>             settings file; variables override it\n" ++
  "  --load-population <FILE>    go on with a saved population\n" ++
  "  --save-population <FILE>    write the population after the run\n" ++
  "  --show-best <N>             number of robots shown after the run\n" ++
  "  --report-every <N>          bars between two lines of progress\n"

end TradingRobots.CommandLine
