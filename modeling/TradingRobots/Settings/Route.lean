/-
Routes into given values. A route starts at an entry of the outermost table and goes on by names after points and by
positions between brackets; a position below zero counts from the end of a list. A value is laid over what stands at the
end of a route: tables are merged entry by entry, and anything else takes the place of what was there.

Lists are filled up to a position that lies outside of them, so a route whose positions no list can reach leads nowhere.
-/
import TradingRobots.Number.Reading
import TradingRobots.Toml.Value

namespace TradingRobots

namespace Toml

/-- puts a value under a name, in place of the one there -/
def setEntry (name : String) (v : Value) : List (String × Value) → List (String × Value)
  | [] => [(name, v)]
  | e :: rest => if e.1 = name then (name, v) :: rest else e :: setEntry name v rest

namespace Value

/-- the entries of a table; anything else has none -/
def entries : Value → List (String × Value)
  | table entries => entries
  | _ => []

/-- the items of a list; anything else has none -/
def items : Value → List Value
  | list items => items
  | _ => []

end Value

mutual

/-- lays a value over another -/
def Value.over : Value → Value → Value
  | .table entries, old => .table (entriesOver entries old.entries)
  | v, _ => v

/-- lays entries over others, one after the other -/
def entriesOver : List (String × Value) → List (String × Value) → List (String × Value)
  | [], old => old
  | (name, v) :: rest, old => entriesOver rest (setEntry name (v.over ((old.lookup name).getD .gap)) old)

end

end Toml

namespace Route

open Toml

inductive Step where
  | entry (name : String)
  | item (position : Int)
deriving DecidableEq, Repr

/-! ## What a name stands for -/

/-- a character of a name in a route -/
def isNameChar (c : Char) : Bool :=
  c.isAlphanum || c = '_' || c = '-'

/-- a name, and what follows -/
def name? (s : List Char) : Option (String × List Char) :=
  let name := s.takeWhile isNameChar
  if name.isEmpty then none else some (String.ofList name, s.dropWhile isNameChar)

/-- a position and the bracket that closes it, with blanks around the number, and what follows -/
def position? (s : List Char) : Option (Int × List Char) := do
  let blank (c : Char) : Bool := c = ' ' || c = '\t'
  let (sign, s) := match s.dropWhile blank with
    | '-' :: s => (['-'], s)
    | s => ([], s)
  let position ← Reading.whole? (String.ofList (sign ++ s.takeWhile Reading.isDigit))
  match (s.dropWhile Reading.isDigit).dropWhile blank with
  | ']' :: s => some (position, s)
  | _ => none

/-- the steps after the first -/
def steps? : Nat → List Char → Option (List Step)
  | _, [] => some []
  | 0, _ => none
  | fuel + 1, '.' :: s => do
    let (name, s) ← name? s
    some (.entry name :: (← steps? fuel s))
  | fuel + 1, '[' :: s => do
    let (position, s) ← position? s
    some (.item position :: (← steps? fuel s))
  | _, _ => none

def ofChars? (s : List Char) : Option (List Step) := do
  let (name, s) ← name? s
  some (.entry name :: (← steps? s.length s))

/-- the route that a name stands for; a name that is no route stands for itself -/
def ofName (name : String) : List Step :=
  (ofChars? name.toList).getD [.entry name]

/-! ## Laying a value at the end of a route -/

/-- the position farthest from either end that a list is filled up to -/
def farthest : Nat := 2 ^ 24

/-- all positions of a route can be reached -/
def isReachable (route : List Step) : Bool :=
  route.all fun
    | .entry _ => true
    | .item position => position.natAbs ≤ farthest

/-- where a position lies in a list, and the list with gaps filled in for all that is missing up to there -/
def reach (position : Int) (items : List Value) : Nat × List Value :=
  let distance := position.natAbs
  if 0 ≤ position then (distance, items ++ List.replicate (distance + 1 - items.length) .gap)
  else (items.length - distance, List.replicate (distance - items.length) .gap ++ items)

/-- lays a value at the end of a route; what is no table or list on the way becomes one -/
def lay : List Step → Value → Value → Value
  | [], v, old => v.over old
  | .entry name :: more, v, old =>
    .table (setEntry name (lay more v ((old.entries.lookup name).getD .gap)) old.entries)
  | .item position :: more, v, old =>
    let (place, items) := reach position old.items
    .list (items.set place (lay more v ((items[place]?).getD .gap)))

end Route

end TradingRobots
