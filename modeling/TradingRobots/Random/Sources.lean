/-
The two sequences of words that a run can use.

`seeded` is the keystream of the ChaCha cipher with twelve rounds: the key is spread from a 64-bit seed, the block
counter starts at 0, and two 32-bit words, low half first, make a 64-bit word. `listed` gives the listed words and then
the SplitMix sequence from state 0.
-/
import TradingRobots.Number.Rounding
import TradingRobots.Random.Stream

namespace TradingRobots.Random

namespace Cipher

/-- sixteen 32-bit words -/
abbrev Block := Vector UInt32 16

def rotate (x : UInt32) (k : UInt32) : UInt32 :=
  (x <<< k) ||| (x >>> (32 - k))

/-- the quarter round on four places of the block -/
def quarter (s : Block) (a b c d : Fin 16) : Block :=
  let s := s.set a (s[a] + s[b])
  let s := s.set d (rotate (s[d] ^^^ s[a]) 16)
  let s := s.set c (s[c] + s[d])
  let s := s.set b (rotate (s[b] ^^^ s[c]) 12)
  let s := s.set a (s[a] + s[b])
  let s := s.set d (rotate (s[d] ^^^ s[a]) 8)
  let s := s.set c (s[c] + s[d])
  s.set b (rotate (s[b] ^^^ s[c]) 7)

/-- a round down the columns and a round along the diagonals -/
def doubleRound (s : Block) : Block :=
  let s := quarter s 0 4 8 12
  let s := quarter s 1 5 9 13
  let s := quarter s 2 6 10 14
  let s := quarter s 3 7 11 15
  let s := quarter s 0 5 10 15
  let s := quarter s 1 6 11 12
  let s := quarter s 2 7 8 13
  quarter s 3 4 9 14

/-- constants, key, 64-bit counter, and a stream number of zero -/
def start (key : Vector UInt32 8) (counter : Nat) : Block :=
  #v[0x61707865, 0x3320646e, 0x79622d32, 0x6b206574, key[0], key[1], key[2], key[3], key[4], key[5], key[6], key[7],
    UInt32.ofNat counter, UInt32.ofNat (counter / 2 ^ 32), 0, 0]

/-- one block of the keystream -/
def block (key : Vector UInt32 8) (counter : Nat) : Block :=
  let input := start key counter
  let mixed := (List.range 6).foldl (fun s _ => doubleRound s) input
  Vector.zipWith (· + ·) mixed input

/-- a block as eight words, low half first -/
def page (key : Vector UInt32 8) (counter : Nat) : Page :=
  let b := block key counter
  Vector.ofFn fun k => (b[2 * k.val]).toUInt64 ||| ((b[2 * k.val + 1]).toUInt64 <<< 32)

/-- the next state of the generator that spreads a seed -/
def spread (state : UInt64) : UInt64 :=
  state * 6364136223846793005 + 11634580027462260723

/-- the 32-bit output for a state -/
def output (state : UInt64) : UInt32 :=
  let x := (((state >>> 18) ^^^ state) >>> 27).toUInt32
  let turn := (state >>> 59).toUInt32
  (x >>> turn) ||| (x <<< ((32 - turn) % 32))

/-- the key spread from a seed: eight outputs in a row -/
def key (seed : UInt64) : Vector UInt32 8 :=
  Vector.ofFn fun k => output ((k.val + 1).repeat spread seed)

end Cipher

/-- the stream of a seed -/
def seeded (seed : UInt64) : Stream :=
  let key := Cipher.key seed
  Stream.ofPages (Cipher.page key)

/-- the SplitMix word at a position, counted from a state of 0 -/
def splitMix (i : Nat) : UInt64 :=
  let z := UInt64.ofNat (i + 1) * 0x9E3779B97F4A7C15
  let z := (z ^^^ (z >>> 30)) * 0xBF58476D1CE4E5B9
  let z := (z ^^^ (z >>> 27)) * 0x94D049BB133111EB
  z ^^^ (z >>> 31)

/-- the listed words, then SplitMix words -/
def listed (words : List UInt64) : Stream :=
  let given := words.toArray
  Stream.ofWords fun i => if h : i < given.size then given[i] else splitMix (i - given.size)

end TradingRobots.Random
