/-
Values given for the fields of the settings. A field takes what can be made into its kind: numbers and truth values from
text that reads as one, whole numbers from decimals by rounding to the nearest (halves away from zero), numbers from
truth values and back. The name of a mode is exact. A gap gives a field that may be left empty no value, and nothing else
takes it.
-/
import TradingRobots.Number.Reading
import TradingRobots.Settings.Field
import TradingRobots.Toml.Value

namespace TradingRobots

namespace Toml.Scalar

/-- words for yes -/
def isYes (s : String) : Bool :=
  s = "true" || s = "on" || s = "yes"

/-- words for no -/
def isNo (s : String) : Bool :=
  s = "false" || s = "off" || s = "no"

/-- reads a text as a number: a word for yes is one, a word for no is zero -/
def numeral? {α : Type} (one zero : α) (read : String → Option α) (s : String) : Option α :=
  let word := Reading.lower s.toList
  if isYes word then some one
  else if isNo word then some zero
  else read s

def toFlag? : Scalar → Option Bool
  | flag b => some b
  | whole i => some (i ≠ 0)
  | real x => some (x != 0.0)
  | text s =>
    let word := Reading.lower s.toList
    if word = "1" || isYes word then some true
    else if word = "0" || isNo word then some false
    else none

/-- a count of a machine word; decimals out of range become the nearest count -/
def toCount? : Scalar → Option Nat
  | flag b => some (if b then 1 else 0)
  | whole i => if i < 0 then none else some i.toNat
  | real x => some (Binary64.nearestCount x)
  | text s => numeral? 1 0 Reading.count? s

/-- a whole number of the signed machine word; decimals out of range become the nearest one -/
def toWhole? : Scalar → Option Int
  | flag b => some (if b then 1 else 0)
  | whole i => some i
  | real x => some (Binary64.nearestWhole x)
  | text s => numeral? 1 0 Reading.whole? s

def toReal? : Scalar → Option Float
  | flag b => some (if b then 1.0 else 0.0)
  | whole i => some (Binary64.ofWhole i)
  | real x => some x
  | text s => numeral? 1.0 0.0 Reading.float? s

end Toml.Scalar

namespace Toml.Value

def scalar? : Value → Option Scalar
  | scalar s => some s
  | _ => none

/-- a name: a text, or the one name of a table -/
def name? : Value → Option String
  | scalar (.text s) => some s
  | table [(name, _)] => some name
  | _ => none

end Toml.Value

namespace SettingKind

/-- a value that may be missing: a gap is none -/
def optional? {α : Type} (read : Toml.Scalar → Option α) : Toml.Value → Option (Option α)
  | .gap => some none
  | v => (v.scalar?.bind read).map some

/-- the value that a field of a kind takes from a given one -/
def ofValue? (v : Toml.Value) : (kind : SettingKind) → Option kind.Value
  | flag => v.scalar?.bind Toml.Scalar.toFlag?
  | count => v.scalar?.bind Toml.Scalar.toCount?
  | real => v.scalar?.bind Toml.Scalar.toReal?
  | optionalWhole => optional? Toml.Scalar.toWhole? v
  | optionalCount => optional? Toml.Scalar.toCount? v
  | weightMode => v.name?.bind WeightMode.ofName?
  | inheritedWeightMode => v.name?.bind InheritedWeightMode.ofName?

end SettingKind

namespace SettingField

variable {σ : Type}

/-- puts a given value into a field -/
def take? (f : SettingField σ) (v : Toml.Value) (s : σ) : Option σ :=
  (f.kind.ofValue? v).map fun value => f.put value s

/-- puts given values into the fields they name; other names are passed over -/
def takeNamed? (fields : List (SettingField σ)) (entries : List (String × Toml.Value)) (s : σ) : Option σ :=
  fields.foldlM (fun s f =>
    match entries.lookup f.name with
    | some v => f.take? v s
    | none => some s) s

/-- puts given values into the fields in order -/
def takeInOrder? (fields : List (SettingField σ)) (items : List Toml.Value) (s : σ) : Option σ :=
  (fields.zip items).foldlM (fun s e => e.1.take? e.2 s) s

end SettingField

/-- puts what is given for a section into the settings: a table by names, a list in order -/
def SettingsSection.take? (part : SettingsSection) (v : Toml.Value) (s : Settings) : Option Settings :=
  match v with
  | .table entries => SettingField.takeNamed? part.fields entries s
  | .list items => SettingField.takeInOrder? part.fields items s
  | _ => none

/-- the default settings with given values put in; sections of other names are passed over -/
def Settings.ofEntries? (entries : List (String × Toml.Value)) : Option Settings :=
  Settings.sections.foldlM (fun s part =>
    match entries.lookup part.name with
    | some v => part.take? v s
    | none => some s) {}

end TradingRobots
