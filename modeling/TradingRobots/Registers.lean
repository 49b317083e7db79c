/-
Register files. A register that was never written holds zero, so a file keeps only what was written, however many
registers it counts. Registers are taken modulo the count, and a result that is not finite is written as zero, so a
register always holds a number; a file without registers reads zero and stays empty.

`numberAt_write`, `read_write`: a write shows at the register that was written, and nowhere else.
-/

namespace TradingRobots

/-- the registers of a running program -/
structure Registers where
  size : Nat
  /-- what was written, one number to a register -/
  written : List (Nat × Float)
deriving DecidableEq, Repr

namespace Registers

def blank (count : Nat) : Registers :=
  ⟨count, []⟩

/-- the number in a register of the file -/
def numberAt (r : Registers) (place : Nat) : Float :=
  (r.written.lookup place).getD 0.0

/-- the register's number -/
def read (r : Registers) (register : Nat) : Float :=
  r.numberAt (register % r.size)

/-- what a register holds after a write: numbers that are not finite collapse to zero -/
def settled (x : Float) : Float :=
  if x.isFinite then x else 0.0

/-- puts a number in place of the one that was written before -/
def put (place : Nat) (x : Float) : List (Nat × Float) → List (Nat × Float)
  | [] => [(place, x)]
  | e :: rest => if e.1 = place then (place, x) :: rest else e :: put place x rest

/-- writes a register -/
def write (r : Registers) (register : Nat) (x : Float) : Registers :=
  if r.size = 0 then r else { r with written := put (register % r.size) (settled x) r.written }

/-- the numbers of all registers in order -/
def numbers (r : Registers) : List Float :=
  (List.range r.size).map r.numberAt

@[simp]
theorem size_write (r : Registers) (register : Nat) (x : Float) : (r.write register x).size = r.size := by
  unfold write
  split <;> rfl

theorem lookup_put (place other : Nat) (x : Float) (written : List (Nat × Float)) :
    (put place x written).lookup other = if other = place then some x else written.lookup other := by
  induction written with
  | nil => by_cases h : other = place <;> grind [put]
  | cons e rest ih =>
    rw [put]
    split
    next he => by_cases h : other = place <;> grind
    next he => by_cases h : other = e.1 <;> grind

/-- a write shows in the register's place, if the file has any, and nowhere else -/
theorem numberAt_write (r : Registers) (register place : Nat) (x : Float) :
    (r.write register x).numberAt place =
      if 0 < r.size ∧ place = register % r.size then settled x else r.numberAt place := by
  rw [write]
  by_cases h : r.size = 0
  · rw [if_pos h, if_neg (by omega)]
  · simp only [numberAt, if_neg h, lookup_put, Nat.pos_of_ne_zero h, true_and]
    split <;> rfl

theorem read_write (r : Registers) (register other : Nat) (x : Float) (h : 0 < r.size) :
    (r.write register x).read other = if other % r.size = register % r.size then settled x else r.read other := by
  rw [read, size_write, numberAt_write]
  simp only [h, true_and, read]

end Registers

end TradingRobots
