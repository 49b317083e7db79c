/-
The settings in force, and the ways to change them: put others in place, change some, or load them from a file and the
environment. Settings that break a bound are refused, and so is a file that cannot be read; then nothing changes. A load
starts from the defaults.

Settings are saved as a file of three sections. A value that is not given is left out.
-/
import TradingRobots.Settings.Conversion
import TradingRobots.Settings.Layers
import TradingRobots.Toml.Reading

namespace TradingRobots

/-- why settings are not taken, or cannot be saved -/
inductive SettingsDefect where
  /-- a file that is missing or is no document -/
  | unreadable
  /-- a value for a place that no list reaches -/
  | unreachable
  /-- a value that a field cannot take -/
  | unfit
  | violation (violation : Violation)
  /-- a count that a file cannot hold -/
  | unwritable
deriving DecidableEq, Repr

def SettingsDefect.message : SettingsDefect → String
  | unreadable => "Failed to read config"
  | unreachable => "A list cannot be that long"
  | unfit => "Failed to parse config"
  | violation v => v.message
  | unwritable => "Failed to serialize"

/-- where settings are loaded from -/
structure SettingsSources where
  /-- the text of the file, if one is named; a file that is named may be missing -/
  file : Option (Option String)
  /-- variables with their texts -/
  environment : List (String × String)

namespace SettingsSources

/-- the entries of the file; without a file there are none -/
def fileEntries? (sources : SettingsSources) : Option (List (String × Toml.Value)) :=
  match sources.file with
  | none => some []
  | some none => none
  | some (some text) => Toml.parse? text

/-- the settings that the sources give; their bounds are not looked at -/
def settings (sources : SettingsSources) : Except SettingsDefect Settings :=
  match sources.fileEntries? with
  | none => .error .unreadable
  | some file =>
    match Layers.combined? file sources.environment with
    | none => .error .unreachable
    | some entries =>
      match Settings.ofEntries? entries with
      | none => .error .unfit
      | some s => .ok s

end SettingsSources

namespace SettingKind

/-- what a file holds for a value: nothing for one that is not given, and no count above the signed machine word -/
def saved? : (kind : SettingKind) → kind.Value → Option (Option Toml.Scalar)
  | flag, b => some (some (.flag b))
  | count, n => if n < 2 ^ 63 then some (some (.whole n)) else none
  | real, x => some (some (.real x))
  | optionalWhole, i => some (i.map .whole)
  | optionalCount, none => some none
  | optionalCount, some n => if n < 2 ^ 63 then some (some (.whole n)) else none
  | weightMode, mode => some (some (.text mode.name))
  | inheritedWeightMode, mode => some (some (.text mode.name))

end SettingKind

namespace Settings

/-- what a file holds for a section -/
def savedEntries? (s : Settings) (part : SettingsSection) : Option (List (String × Toml.Scalar)) := do
  let entries ← part.fields.mapM fun f => (f.kind.saved? (f.get s)).map fun v => v.map fun v => (f.name, v)
  some (entries.filterMap id)

/-- the text of a file that holds the settings -/
def fileText? (s : Settings) : Option String := do
  let parts ← sections.mapM fun part => (s.savedEntries? part).map (Toml.sectionText part.name)
  some ("\n".intercalate parts)

end Settings

/-- the settings in force -/
structure SettingsStore where
  current : Settings := {}

namespace SettingsStore

/-- puts settings in place of those in force; this gives the store after it, and why they are refused -/
def replace (store : SettingsStore) (s : Settings) : Except SettingsDefect Unit × SettingsStore :=
  match s.check with
  | .error v => (.error (.violation v), store)
  | .ok () => (.ok (), { store with current := s })

/-- changes the settings in force -/
def update (store : SettingsStore) (change : Settings → Settings) : Except SettingsDefect Unit × SettingsStore :=
  store.replace (change store.current)

/-- loads settings over the defaults -/
def load (store : SettingsStore) (sources : SettingsSources) : Except SettingsDefect Unit × SettingsStore :=
  match sources.settings with
  | .error e => (.error e, store)
  | .ok s => store.replace s

/-- the text that saves the settings in force -/
def save (store : SettingsStore) : Except SettingsDefect String :=
  match store.current.fileText? with
  | none => .error .unwritable
  | some text => .ok text

end SettingsStore

end TradingRobots
