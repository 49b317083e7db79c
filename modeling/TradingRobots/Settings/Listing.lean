/-
The listing of settings: one line per field, its name and its value. A manifest of a section gives the same with what
each field is for; there the names of modes stand in quotation marks.
-/
import TradingRobots.Json.Value
import TradingRobots.Settings.Field

namespace TradingRobots

namespace SettingKind

/-- a value as JSON; an optional one that is not given is null -/
def json : (kind : SettingKind) → kind.Value → Json
  | flag, b => .bool b
  | count, n => .count n
  | real, x => .real x
  | optionalWhole, i => i.elim .null .whole
  | optionalCount, n => n.elim .null .count
  | weightMode, mode => .string mode.name
  | inheritedWeightMode, mode => .string mode.name

/-- a value in a listing: its JSON text, the name of a mode without quotation marks -/
def listed (kind : SettingKind) (value : kind.Value) : String :=
  match kind.json value with
  | .string s => s
  | v => v.compact

end SettingKind

/-- name, value and purpose of a field -/
structure ManifestEntry where
  name : String
  value : Json
  description : String

/-- the fields of a section with their values -/
structure Manifest where
  title : String
  entries : List ManifestEntry

namespace Settings

def fieldLine (s : Settings) (f : SettingField Settings) : String :=
  f.name ++ " " ++ f.kind.listed (f.get s)

/-- the listing, line by line -/
def lines (s : Settings) : List String :=
  sections.flatMap fun part => part.fields.map s.fieldLine

/-- the listing as a text -/
def listing (s : Settings) : String :=
  String.join (s.lines.map (· ++ "\n"))

/-- lines of the listing that differ from those of other settings -/
def linesUnlike (s other : Settings) : List String :=
  ((s.lines.zip other.lines).filter fun pair => pair.1 ≠ pair.2).map Prod.fst

def manifests (s : Settings) : List Manifest :=
  sections.map fun part =>
    ⟨part.title, part.fields.map fun f => ⟨f.name, f.kind.json (f.get s), f.description⟩⟩

end Settings

end TradingRobots
