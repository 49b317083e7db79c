/-
Portions of a price file. Lines are read in portions: a portion takes as many whole lines as its room holds, and room that
holds not even one line is doubled until it does, for all portions from there on. What follows the last line feed is a
portion of its own.

A portion is cut into records by itself and must have one to each of its lines, so a mark that opens inside of a cell can
do harm within its portion only.

`flatten_grouped`: portions keep every line, in order. `le_widened`: a line fits into the room made for it.
-/
import TradingRobots.PriceFile.CellValue

namespace TradingRobots.PriceFile

/-- text that is read by itself -/
structure Portion where
  text : List Char
  lines : Nat
deriving DecidableEq, Repr

namespace Portion

/-! ## Lines in portions -/

/-- the bytes of a line and its line feed -/
def lineSize (line : List Char) : Nat :=
  line.foldl (fun n c => n + c.utf8Size) 1

/-- room for so many bytes, doubled no more often than it must be -/
def widened (room bytes : Nat) : Nat :=
  let times := (bytes - 1) / room
  if times = 0 then room else room * 2 ^ (times.log2 + 1)

theorem le_widened {room bytes : Nat} (h : 0 < room) : bytes ≤ widened room bytes := by
  simp only [widened]
  have lt : bytes - 1 < room * ((bytes - 1) / room + 1) := Nat.lt_mul_div_succ _ h
  split
  next h0 =>
    rw [h0] at lt
    omega
  next =>
    have le : (bytes - 1) / room + 1 ≤ 2 ^ (((bytes - 1) / room).log2 + 1) := Nat.lt_log2_self
    have := Nat.mul_le_mul_left room le
    omega

/-- lines by portions, from a portion on whose lines are given with the latest first and whose room has some bytes left -/
def grouped : Nat → Nat → List (List Char) → List (List Char) → List (List (List Char))
  | _, _, portion, [] => [portion.reverse]
  | room, left, portion, line :: rest =>
    if lineSize line ≤ left then grouped room (left - lineSize line) (line :: portion) rest
    else
      let room := widened room (lineSize line)
      portion.reverse :: grouped room (room - lineSize line) [line] rest

theorem flatten_grouped (room left : Nat) (portion lines : List (List Char)) :
    (grouped room left portion lines).flatten = portion.reverse ++ lines := by
  fun_induction grouped room left portion lines with
  | case1 => simp
  | case2 room left portion line rest _ ih => simp [ih]
  | case3 room left portion line rest _ room' ih => simp [room', ih]

/-- the bytes that the first portion has room for -/
def leastRoom : Nat := 64

/-- the portions of lines that end, and of what follows the last of them -/
def ofLines (lines : List (List Char)) (last : List Char) : List Portion :=
  (grouped leastRoom leastRoom [] lines).map (fun group => ⟨group.flatMap (· ++ ['\n']), group.length⟩) ++
    if last.isEmpty then [] else [⟨last, 1⟩]

/-! ## Rows -/

/-- the rows of a portion; there must be one to each line -/
def rows (kinds : List CellKind) (p : Portion) : Except TextDefect (List (List CellValue)) := do
  let (records, whole) := records kinds.length p.text
  let rows ← records.mapM (CellValue.readRow kinds)
  if whole ∧ rows.length = p.lines then .ok rows else .error .unreadable

/-- reading broke off at a mark alone in its cell -/
def brokeOff {α : Type} : Except TextDefect α → Bool
  | .error .loneMark => true
  | _ => false

/-- the rows of all portions. None of them waits for another, so where one broke off the others count no more -/
def allRows (kinds : List CellKind) (portions : List Portion) : Except TextDefect (List (List CellValue)) :=
  let parts := portions.map (rows kinds)
  if parts.any brokeOff then .error .loneMark else List.flatten <$> parts.mapM id

end Portion

end TradingRobots.PriceFile
