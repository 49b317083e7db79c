/-
What is drawn from a stream: a number of [0, 1), a whole number below a bound, a number of a closed range, a number of
[-100, 100).

A whole number below n is the high half of the 128-bit product of a word with n; words whose low half lies above the
last full zone are passed over, so every number is equally likely. A word is taken even when n is 1.
-/
import TradingRobots.Random.Stream
import TradingRobots.Number.Binary64

namespace TradingRobots.Random.Stream

/-- the bound on words passed over in a row; no sequence in use comes near it. A draw as such has no bound, and goes on
for as long as words are passed over. -/
def patience : Nat := 2 ^ 62

/-- what the first word that is accepted stands for. The fallback, when the fuel is used up, stands for a draw that may
never end; what is said of draws says nothing of those. -/
def firstAccepted {α : Type} (accept : UInt64 → Option α) (fallback : α) : Nat → Stream → α × Stream
  | 0, s => (fallback, s)
  | fuel + 1, s =>
    let (w, s) := s.next
    match accept w with
    | some a => (a, s)
    | none => firstAccepted accept fallback fuel s

/-- the number of [0, 1) that a word stands for: its upper 53 bits as a fraction -/
def unitOf (w : UInt64) : Float :=
  (w >>> 11).toFloat * Float.ofBits 0x3CA0000000000000

/-- a number of [0, 1) -/
def unit (s : Stream) : Float × Stream :=
  let (w, s) := s.next
  (unitOf w, s)

/-- the last low half that is accepted for a bound: the bound shifted up as far as it goes, minus one -/
def zone (n : Nat) : Nat :=
  n * 2 ^ (63 - n.log2) - 1

/-- the number below n that a word stands for, if it is accepted -/
def belowOf (n : Nat) (w : UInt64) : Option Nat :=
  let product := w.toNat * n
  if product % 2 ^ 64 ≤ zone n then some (product / 2 ^ 64) else none

/-- a whole number below n, for n above 0 -/
def below (n : Nat) (s : Stream) : Nat × Stream :=
  if n < 2 ^ 64 then firstAccepted (belowOf n) 0 patience s
  else
    let (w, s) := s.next
    (w.toNat, s)

/-- a whole number of low … high; nothing can be drawn from an empty range -/
def between? (low high : Nat) (s : Stream) : Option (Nat × Stream) :=
  if low ≤ high then
    let (k, s) := s.below (high - low + 1)
    some (low + k, s)
  else none

/-- the bound of drawn constants -/
def constantBound : Float := 100.0

/-- the constant of [-100, 100) that a word stands for -/
def constantOf (w : UInt64) : Option Float :=
  let x := Float.ofBits ((w >>> 12) ||| 0x3FF0000000000000) - 1.0
  let c := x * (constantBound + constantBound) + -constantBound
  if c < constantBound then some c else none

/-- a number of [-100, 100) -/
def constant (s : Stream) : Float × Stream :=
  firstAccepted constantOf 0.0 patience s

end TradingRobots.Random.Stream
