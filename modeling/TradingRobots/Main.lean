/-
The command line itself: it reads the files that the arguments name into a disk, runs a session, prints what the session
printed and writes the file it would write. Everything that decides something is in `CommandLine.answer`.
-/
import TradingRobots.CommandLine.Session

namespace TradingRobots.CommandLine

/-- the text of a file, if it can be read -/
def readText? (path : String) : IO (Option String) := do
  try
    return some (← IO.FS.readFile path)
  catch _ => return none

/-- tells whether a path leads to a folder -/
def leadsToFolder (path : String) : IO Bool := do
  try
    return ← (← IO.FS.realPath path).isDir
  catch _ => return false

/-- puts the folders that a path leads through onto a disk -/
def withWay (disk : Disk) (path : String) : IO Disk := do
  let mut disk := disk
  let pieces := Path.pieces path
  for count in List.range pieces.length do
    let way := "/".intercalate (pieces.take (count + 1))
    if ← leadsToFolder way then
      disk := { disk with folders := Path.names way :: disk.folders }
  return disk

/-- puts a file onto a disk, if it can be read -/
def withFile (disk : Disk) (path : String) : IO Disk := do
  let disk ← withWay disk path
  match ← readText? path with
  | some text => return { disk with files := (Path.names path, text) :: disk.files }
  | none => return disk

/-- puts a folder and what lies in it onto a disk, if it is there -/
def withFolder (disk : Disk) (path : String) : IO Disk := do
  try
    let mut disk ← withWay disk path
    for entry in ← (← IO.FS.realPath path).readDir do
      disk ← withFile disk (Path.join path entry.fileName)
    return disk
  catch _ => return disk

/-- the disk that the options look at -/
def gather (o : Options) : IO Disk := do
  let mut disk ← withFolder ⟨[], []⟩ o.folder
  for path in o.settings.toList do
    disk ← withFile disk path
    for other in (Path.withEnding? path settingsEnding).toList do
      disk ← withFile disk other
  for path in o.loadFrom.toList do
    disk ← withFile disk path
  return disk

/-- variables that belong to the settings, under the names of their fields -/
def environment : IO (List (String × String)) := do
  let mut found := []
  for part in Settings.sections do
    for f in part.fields do
      let name := (String.ofList Layers.lead ++ part.name ++ "__" ++ f.name).map Char.toUpper
      for key in [name, name.map Char.toLower] do
        if let some text ← IO.getEnv key then
          found := (key, text) :: found
  return found

/-- a seed from the system -/
def entropy : IO UInt64 := do
  let bytes ← IO.getRandomBytes 8
  return bytes.toList.foldl (fun n b => n * 256 + b.toUInt64) 0

/-- the surroundings of a session -/
def surroundings (arguments : List String) : IO Surroundings := do
  let disk ← match Request.ofArguments arguments with
    | .ok (.run o) => gather o
    | _ => pure ⟨[], []⟩
  return ⟨disk, ← environment, ← entropy⟩

/-- writes the file of an outcome and tells whether it could be written -/
def store (o : Outcome) : IO Bool := do
  match o.saved with
  | none => return true
  | some (path, text) =>
    try
      IO.FS.writeFile path text
      return true
    catch _ => return false

end TradingRobots.CommandLine

open TradingRobots TradingRobots.CommandLine in
def main (arguments : List String) : IO UInt32 := do
  let outcome := answer (← surroundings arguments) arguments
  IO.print outcome.printed
  if let some fault := outcome.fault then
    IO.eprintln fault.message
  if let .error defect := Request.ofArguments arguments then
    IO.eprintln defect.message
  if ← store outcome then
    return outcome.status.toUInt32
  else
    return 1
