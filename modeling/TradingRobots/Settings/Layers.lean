/-
Layers of given values: a settings file, and over it the environment.

A variable of the environment belongs to the settings when its name begins with the lead, in any case; two underscores
stand between the names of section and field. Its text is taken as a truth value, a whole number or a decimal if it
reads as one. The names at the top of a file and those of the variables stand for routes.
-/
import TradingRobots.Settings.Route

namespace TradingRobots

namespace Layers

open Toml

/-- lays named values over a table, unless the route of one of them cannot be reached -/
def lay? (values : List (String × Value)) (under : Value) : Option Value :=
  if values.all fun e => Route.isReachable (Route.ofName e.1) then
    some (values.foldl (fun root e => Route.lay (Route.ofName e.1) e.2 root) under)
  else none

/-- how the names of variables begin that belong to the settings, in lower case -/
def lead : List Char := "tickbreed__".toList

/-- every two underscores in a row become a point -/
def dotted : List Char → List Char
  | '_' :: '_' :: rest => '.' :: dotted rest
  | c :: rest => c :: dotted rest
  | [] => []

/-- what follows a text at the front -/
def after? : List Char → List Char → Option (List Char)
  | [], s => some s
  | c :: more, d :: s => if c = d then after? more s else none
  | _ :: _, [] => none

/-- a character in lower case; of those beyond ASCII only the Kelvin sign becomes a letter of the settings' names -/
def lowerCase (c : Char) : Char :=
  if c.toNat = 0x212A then 'k' else c.toLower

/-- the dotted name that a variable stands for -/
def variableName? (name : String) : Option String :=
  (after? lead (name.toList.map lowerCase)).map fun rest => String.ofList (dotted rest)

/-- what the text of a variable is taken for -/
def variableValue (s : String) : Scalar :=
  let word := Reading.lower s.toList
  if word = "true" then .flag true
  else if word = "false" then .flag false
  else
    match Reading.whole? s with
    | some i => .whole i
    | none =>
      match Reading.float? s with
      | some x => .real x
      | none => .text s

/-- the values that variables give, each a name with its text -/
def ofEnvironment (pairs : List (String × String)) : List (String × Value) :=
  pairs.filterMap fun v => (variableName? v.1).map fun name => (name, .scalar (variableValue v.2))

/-- the values of a file with those of the environment over them -/
def combined? (file : List (String × Value)) (pairs : List (String × String)) : Option (List (String × Value)) :=
  (lay? (file ++ ofEnvironment pairs) (.table [])).map Value.entries

end Layers

end TradingRobots
