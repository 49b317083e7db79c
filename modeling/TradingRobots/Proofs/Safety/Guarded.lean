/-
Operations that may have no result.

The functions of a run are total here: a cell beyond the end reads nothing, a difference below zero is zero, a remainder
by zero is the number itself. On a machine such an operation fails. `Guarded` has each of them with its failure, so that
the same functions, written with guarded operations, tell whether any of them is ever reached in that way.

`sub_eq`, `rem_eq`, `clamp_eq`, `index_eq`, `below_eq` and the others: when a guarded operation has a result.
-/
import TradingRobots.Proofs.Random.Draw

namespace TradingRobots

open TradingRobots.Random

/-- an operation without a result -/
inductive Failure where
  /-- a place outside a list or a file of registers -/
  | index
  /-- a part of a list that the list does not have -/
  | slice
  /-- a draw from a range without numbers -/
  | emptyRange
  | belowZero
  | remainderByZero
  /-- a clamp between limits that cross -/
  | crossedLimits
  /-- a sort of numbers that do not compare -/
  | disorder
  /-- a request that memory cannot meet -/
  | memory
deriving DecidableEq, Repr

/-- a result, or the operation that had none -/
abbrev Guarded (α : Type) := Except Failure α

namespace Guarded

variable {α β : Type}

def index (xs : List α) (i : Nat) : Guarded α :=
  match xs[i]? with
  | some x => .ok x
  | none => .error .index

def sub (a b : Nat) : Guarded Nat :=
  if b ≤ a then .ok (a - b) else .error .belowZero

def rem (a b : Nat) : Guarded Nat :=
  if b = 0 then .error .remainderByZero else .ok (a % b)

def clamp (x low high : Nat) : Guarded Nat :=
  if high < low then .error .crossedLimits else .ok (max low (min x high))

/-- what a list holds from a position on -/
def suffix (xs : List α) (i : Nat) : Guarded (List α) :=
  if i ≤ xs.length then .ok (xs.drop i) else .error .slice

/-- what a list holds before a position -/
def front (xs : List α) (i : Nat) : Guarded (List α) :=
  if i ≤ xs.length then .ok (xs.take i) else .error .slice

/-- both parts of a list -/
def split (xs : List α) (i : Nat) : Guarded (List α × List α) := do
  .ok (← front xs i, ← suffix xs i)

/-- a whole number below a bound -/
def below (n : Nat) (s : Stream) : Guarded (Nat × Stream) :=
  if n = 0 then .error .emptyRange else .ok (s.below n)

/-- a whole number of a closed range -/
def between (low high : Nat) (s : Stream) : Guarded (Nat × Stream) :=
  match s.between? low high with
  | some drawn => .ok drawn
  | none => .error .emptyRange

/-- a constant of the fixed range of constants -/
def constant (s : Stream) : Guarded (Float × Stream) :=
  if -Stream.constantBound < Stream.constantBound then .ok s.constant else .error .emptyRange

theorem index_eq {xs : List α} {i : Nat} {x : α} (h : xs[i]? = some x) : index xs i = .ok x := by
  rw [index, h]

theorem sub_eq {a b : Nat} (h : b ≤ a) : sub a b = .ok (a - b) :=
  if_pos h

theorem rem_eq {a b : Nat} (h : 0 < b) : rem a b = .ok (a % b) :=
  if_neg (Nat.ne_of_gt h)

theorem clamp_eq {x low high : Nat} (h : low ≤ high) : clamp x low high = .ok (max low (min x high)) :=
  if_neg (Nat.not_lt.2 h)

theorem suffix_eq {xs : List α} {i : Nat} (h : i ≤ xs.length) : suffix xs i = .ok (xs.drop i) :=
  if_pos h

theorem front_eq {xs : List α} {i : Nat} (h : i ≤ xs.length) : front xs i = .ok (xs.take i) :=
  if_pos h

theorem split_eq {xs : List α} {i : Nat} (h : i ≤ xs.length) : split xs i = .ok (xs.take i, xs.drop i) := by
  rw [split, front_eq h, suffix_eq h]
  rfl

theorem below_eq {n : Nat} (h : 0 < n) (s : Stream) : below n s = .ok (s.below n) :=
  if_neg (Nat.ne_of_gt h)

/-- a bound of at least one always leaves something to draw -/
@[simp]
theorem below_max_one (n : Nat) (s : Stream) : below (max n 1) s = .ok (s.below (max n 1)) :=
  below_eq (Nat.lt_of_lt_of_le Nat.one_pos (Nat.le_max_right n 1)) s

theorem between_eq {low high : Nat} {s : Stream} {drawn : Nat × Stream} (h : s.between? low high = some drawn) :
    between low high s = .ok drawn := by
  rw [between, h]

/-- the range of constants is not empty -/
@[simp]
theorem constant_eq (s : Stream) : constant s = .ok s.constant :=
  if_pos (by decide +kernel)

@[simp]
theorem ok_bind (x : α) (f : α → Guarded β) : (Except.ok x >>= f) = f x := rfl

/-- a guarded function that never fails on the members of a list gives the list of its results -/
theorem mapM_eq {f : α → Guarded β} {g : α → β} {xs : List α} (h : ∀ x ∈ xs, f x = .ok (g x)) :
    xs.mapM f = .ok (xs.map g) := by
  induction xs with
  | nil => rfl
  | cons x rest ih =>
    obtain ⟨hx, hrest⟩ := List.forall_mem_cons.1 h
    rw [List.mapM_cons, hx, ih hrest]
    rfl

end Guarded

end TradingRobots
