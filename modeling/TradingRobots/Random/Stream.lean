/-
A stream of random words: an endless sequence of 64-bit words and the number already taken. The words come in pages of
eight; the stream keeps the page it stands on.

`word_next`: taking a word gives the word at the position and moves on by one, on the same sequence.
-/

namespace TradingRobots.Random

/-- eight consecutive words -/
abbrev Page := Vector UInt64 8

/-- an endless sequence of words, read from the start -/
structure Stream where
  page : Nat → Page
  drawn : Nat
  current : Page
  current_eq : current = page (drawn / 8)

namespace Stream

/-- a sequence of pages, nothing taken yet -/
def ofPages (page : Nat → Page) : Stream :=
  ⟨page, 0, page 0, rfl⟩

/-- the sequence of the words at the positions 0, 1, 2, … -/
def ofWords (word : Nat → UInt64) : Stream :=
  ofPages fun i => Vector.ofFn fun k => word (8 * i + k)

/-- the word at a position of the sequence -/
def word (s : Stream) (i : Nat) : UInt64 :=
  (s.page (i / 8))[i % 8]

/-- the next word, and the stream after it -/
def next (s : Stream) : UInt64 × Stream :=
  let taken := s.current[s.drawn % 8]
  if h : (s.drawn + 1) / 8 = s.drawn / 8 then
    (taken, { s with drawn := s.drawn + 1, current_eq := by rw [s.current_eq, h] })
  else
    (taken, { s with drawn := s.drawn + 1, current := s.page ((s.drawn + 1) / 8), current_eq := rfl })

theorem next_fst (s : Stream) : s.next.1 = s.word s.drawn := by
  unfold next word
  split <;> simp [s.current_eq]

theorem drawn_next (s : Stream) : s.next.2.drawn = s.drawn + 1 := by
  unfold next
  split <;> rfl

theorem page_next (s : Stream) : s.next.2.page = s.page := by
  unfold next
  split <;> rfl

theorem word_next (s : Stream) : s.next.2.word = s.word := by
  funext i
  simp [word, page_next]

end Stream

end TradingRobots.Random
