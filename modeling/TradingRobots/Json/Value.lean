/-
JSON values and how they are written: compact, or indented by two blanks per level.

Numbers are kept as their text, so nothing is lost between reading and a later decision what they are; objects keep the
order and the repetitions of their fields. Text that was read may hold a part that means nothing: it can be passed over,
and it is taken for no value.
-/
import TradingRobots.Number.Text

namespace TradingRobots

inductive Json where
  | null
  | bool (b : Bool)
  | number (text : String)
  | string (s : String)
  | array (items : List Json)
  | object (fields : List (String × Json))
  /-- a string that spells no text, or an object with such a name; written like what has no number -/
  | meaningless

namespace Json

def count (n : Nat) : Json :=
  number (toString n)

def whole (i : Int) : Json :=
  number (toString i)

/-- a double; what is not finite has no number -/
def real (x : Float) : Json :=
  if x.isFinite then number (Number.stored.text x) else null

/-! ## Writing -/

def hexDigit (n : Nat) : Char :=
  ("0123456789abcdef".toList[n]?).getD '0'

/-- a character inside a string: the two marks, control characters by their short names or as four digits -/
def escape (c : Char) : String :=
  if c = '"' then "\\\""
  else if c = '\\' then "\\\\"
  else if c = '\n' then "\\n"
  else if c = '\r' then "\\r"
  else if c = '\t' then "\\t"
  else if c.toNat = 8 then "\\b"
  else if c.toNat = 12 then "\\f"
  else if c.toNat < 32 then "\\u00" ++ String.ofList [hexDigit (c.toNat / 16), hexDigit (c.toNat % 16)]
  else c.toString

def quoted (s : String) : String :=
  "\"" ++ String.join (s.toList.map escape) ++ "\""

def boolText (b : Bool) : String :=
  if b then "true" else "false"

mutual

/-- without blanks -/
def compact : Json → String
  | null => "null"
  | bool b => boolText b
  | number text => text
  | string s => quoted s
  | array items => "[" ++ ",".intercalate (compactItems items) ++ "]"
  | object fields => "\x7b" ++ ",".intercalate (compactFields fields) ++ "\x7d"
  | meaningless => "null"

def compactItems : List Json → List String
  | [] => []
  | v :: rest => v.compact :: compactItems rest

def compactFields : List (String × Json) → List String
  | [] => []
  | (name, v) :: rest => (quoted name ++ ":" ++ v.compact) :: compactFields rest

end

def indent (depth : Nat) : String :=
  "\n" ++ String.ofList (List.replicate (2 * depth) ' ')

/-- brackets around items, one to a line; nothing between them stays on one line -/
def block (opening closing : String) (depth : Nat) (items : List String) : String :=
  if items.isEmpty then opening ++ closing
  else opening ++ ",".intercalate (items.map (indent (depth + 1) ++ ·)) ++ indent depth ++ closing

mutual

/-- indented, at a depth -/
def prettyAt : Nat → Json → String
  | _, null => "null"
  | _, bool b => boolText b
  | _, number text => text
  | _, string s => quoted s
  | depth, array items => block "[" "]" depth (prettyItems (depth + 1) items)
  | depth, object fields => block "\x7b" "\x7d" depth (prettyFields (depth + 1) fields)
  | _, meaningless => "null"

def prettyItems : Nat → List Json → List String
  | _, [] => []
  | depth, v :: rest => v.prettyAt depth :: prettyItems depth rest

def prettyFields : Nat → List (String × Json) → List String
  | _, [] => []
  | depth, (name, v) :: rest => (quoted name ++ ": " ++ v.prettyAt depth) :: prettyFields depth rest

end

def pretty (v : Json) : String :=
  v.prettyAt 0

end Json

end TradingRobots
