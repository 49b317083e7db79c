/-
What draws give, whatever the stream.

A draw passes words over until one is accepted. If one is among the next `patience` words, it alone decides, and the
fallback does not come into it. A property of all accepted values, and of the fallback, is a property of the draw. From
this a whole number lies below its bound, a number of a range lies in the range, and a constant is finite. The fallback
stands for a draw that would go on, so on a stream that has no word for it a theorem about drawn values is not about any
draw that ended.

`firstAccepted_eq`: the draw of a stream that has a word for it.
`below_lt`, `between?_eq_some`, `isFinite_constant`: the ranges of the draws.
-/
import TradingRobots.Proofs.Random.Constant

namespace TradingRobots.Random.Stream

/-- **The first word that is accepted decides**, and the draw ends right after it, whatever the fallback. -/
theorem firstAccepted_eq {α : Type} {accept : UInt64 → Option α} {a : α} {k fuel : Nat} {s : Stream} (hk : k < fuel)
    (hpassed : ∀ j < k, accept (s.word (s.drawn + j)) = none) (ha : accept (s.word (s.drawn + k)) = some a)
    (fallback : α) : (firstAccepted accept fallback fuel s).1 = a ∧
      (firstAccepted accept fallback fuel s).2.drawn = s.drawn + k + 1 := by
  induction k generalizing s fuel with
  | zero =>
    obtain ⟨fuel, rfl⟩ := Nat.exists_eq_succ_of_ne_zero (Nat.ne_of_gt hk)
    rw [Nat.add_zero, ← next_fst] at ha
    simp only [firstAccepted, ha, drawn_next, Nat.add_zero, and_self]
  | succ k ih =>
    obtain ⟨fuel, rfl⟩ := Nat.exists_eq_succ_of_ne_zero (Nat.ne_of_gt (Nat.zero_lt_of_lt hk))
    have hfirst : accept s.next.1 = none := by
      rw [next_fst]
      exact hpassed 0 (Nat.succ_pos k)
    have hposition : ∀ j, s.next.2.word (s.next.2.drawn + j) = s.word (s.drawn + (j + 1)) := by
      intro j
      rw [word_next, drawn_next, Nat.add_assoc, Nat.add_comm 1 j]
    obtain ⟨hvalue, hdrawn⟩ := ih (s := s.next.2) (Nat.lt_of_succ_lt_succ hk)
      (fun j hj => by rw [hposition]; exact hpassed (j + 1) (Nat.succ_lt_succ hj)) (by rw [hposition]; exact ha)
    simp only [firstAccepted, hfirst]
    refine ⟨hvalue, ?_⟩
    rw [hdrawn, drawn_next]
    omega

/-- what holds of the fallback and of every accepted value holds of the draw -/
theorem firstAccepted_holds {α : Type} {P : α → Prop} {accept : UInt64 → Option α} {fallback : α} (hf : P fallback)
    (ha : ∀ w a, accept w = some a → P a) (fuel : Nat) (s : Stream) : P (firstAccepted accept fallback fuel s).1 := by
  induction fuel generalizing s with
  | zero => exact hf
  | succ fuel ih =>
    simp only [firstAccepted]
    split
    · rename_i a h
      exact ha _ a h
    · exact ih _

theorem belowOf_lt {n k : Nat} {w : UInt64} (hn : 0 < n) (h : belowOf n w = some k) : k < n := by
  simp only [belowOf] at h
  split at h
  · simp only [Option.some.injEq] at h
    rw [← h, Nat.div_lt_iff_lt_mul (by decide), Nat.mul_comm n]
    exact Nat.mul_lt_mul_of_pos_right w.toNat_lt hn
  · cases h

/-- a whole number drawn below a bound is below it -/
theorem below_lt {n : Nat} (hn : 0 < n) (s : Stream) : (s.below n).1 < n := by
  unfold below
  split
  · exact firstAccepted_holds (P := (· < n)) hn (fun _ _ h => belowOf_lt hn h) _ s
  · rename_i hlarge
    have hw : s.next.1.toNat < 2 ^ 64 := s.next.1.toNat_lt
    show s.next.1.toNat < n
    omega

theorem below_max_one_lt {n : Nat} (hn : 0 < n) (s : Stream) : (s.below (max n 1)).1 < n := by
  rw [Nat.max_eq_left hn]
  exact below_lt hn s

/-- a number drawn from a range lies in it -/
theorem between?_eq_some {low high k : Nat} {s s' : Stream} (h : s.between? low high = some (k, s')) :
    low ≤ k ∧ k ≤ high := by
  unfold between? at h
  split at h
  · rename_i hle
    simp only [Option.some.injEq, Prod.mk.injEq] at h
    have := below_lt (n := high - low + 1) (by omega) s
    omega
  · cases h

/-- a number can be drawn from a range that is not empty -/
theorem exists_between? {low high : Nat} (h : low ≤ high) (s : Stream) : ∃ k s', s.between? low high = some (k, s') :=
  ⟨_, _, if_pos h⟩

theorem isFinite_constant (s : Stream) : s.constant.1.isFinite = true :=
  firstAccepted_holds (P := fun c : Float => c.isFinite = true) (by decide) (fun _ _ h => isFinite_of_constantOf h) _ s

end TradingRobots.Random.Stream
