/-
The numbers that a stream gives one after the other, and that they lie in [0, 1).

A word's upper 53 bits make a whole number that a double holds exactly, and so is its quotient by 2^53. The largest one
is a place below one.

A stream that has moved on is told by how many words were taken, so what some draws give is told by positions alone.

`unitOf_lt_one`, `zero_le_unitOf`: the range of the numbers.
`unit_eq`, `skip_skip`: a draw gives the number at the position, and leaves the stream one further on.
-/
import TradingRobots.Proofs.Number.Rounding
import TradingRobots.Proofs.Random.Draw

namespace TradingRobots.Random.Stream

open Binary64 Float.Model

/-! ## The range -/

theorem value_unit_place : value (Float.ofBits 0x3CA0000000000000) = .finite .positive (2 ^ 52) (-105) (by decide) := rfl

/-- whole numbers of 53 bits are doubles -/
theorem value_toFloat {w : UInt64} (hw : w.toNat < 2 ^ 53) :
    Amount (value w.toFloat) ∧ size (value w.toFloat) = w.toNat := by
  have hround := nearest_normalize w.toNat 0
  rw [zpow_zero, mul_one] at hround
  have hpos : NonNegative (UnpackedFloat.normalize format w.toNat 0 .positive) :=
    nonNegative_normalize 0 (Int.natCast_nonneg _)
  have hwhole : Representable (w.toNat : ℚ) := ⟨w.toNat, 0, hw.le, by decide, by rw [zpow_zero, mul_one]⟩
  have hsize : size (UnpackedFloat.normalize format w.toNat 0 .positive) = w.toNat := hround.exact hwhole
  have hfits : Fits (UnpackedFloat.normalize format w.toNat 0 .positive) := by
    have hbound : Rounded (.finite .positive (2 ^ 52) 1 (by decide)) := ⟨by decide, by decide, .inl (le_refl _)⟩
    refine fits_of_size_le hround.rounded hbound (show (1 : Int) < 972 by decide) ?_
    rw [hsize, size_finite, zpow_one]
    have hcast : (w.toNat : ℚ) < 2 ^ 53 := by exact_mod_cast hw
    push_cast
    linarith
  have hvalue : value w.toFloat = UnpackedFloat.normalize format w.toNat 0 .positive := by
    show stored (UnpackedFloat.normalize format w.toNat 0 .positive) = _
    exact stored_of_fits hround.rounded hfits
  rw [hvalue]
  exact ⟨⟨hround.rounded, hpos⟩, hsize⟩

/-- the number of a word is not negative, and at most the largest quotient of 53 bits by 2^53 -/
theorem value_unitOf (w : UInt64) :
    Amount (value (unitOf w)) ∧ size (value (unitOf w)) ≤ ((2 ^ 53 - 1 : Nat) : ℚ) * 2 ^ (-53 : Int) := by
  have hshort : (w >>> 11).toNat < 2 ^ 53 := by
    have hword := w.toNat_lt
    have hshift : (w >>> 11).toNat = w.toNat / 2 ^ 11 := by
      rw [UInt64.toNat_shiftRight, Nat.shiftRight_eq_div_pow]
      rfl
    omega
  obtain ⟨hword, hsize⟩ := value_toFloat hshort
  have hunit : Amount (.finite .positive (2 ^ 52) (-105) (by decide)) := ⟨⟨by decide, by decide, .inl le_rfl⟩, rfl⟩
  obtain ⟨hround, hpos⟩ := nearest_mul hword hunit
  rw [size_finite] at hround
  have hlargest : Rounded (.finite .positive (2 ^ 53 - 1) (-53) (by decide)) := ⟨by decide, by decide, .inl (by decide)⟩
  have hbelow : size (UnpackedFloat.mul format (value (w >>> 11).toFloat) (.finite .positive (2 ^ 52) (-105) (by decide))) ≤
      ((2 ^ 53 - 1 : Nat) : ℚ) * 2 ^ (-53 : Int) := by
    refine hround.below _ hlargest.representable ?_
    have hcast : ((w >>> 11).toNat : ℚ) ≤ (2 ^ 53 - 1 : Nat) := by
      exact_mod_cast Nat.le_sub_one_of_lt hshort
    have hplace : (((2 ^ 52 : Nat) : ℚ) * 2 ^ (-105 : Int)) = 2 ^ (-53 : Int) := by
      norm_num
    rw [hsize, hplace]
    exact mul_le_mul_of_nonneg_right hcast (two_zpow_pos _).le
  have hfits := fits_of_size_le hround.rounded hlargest (show (-53 : Int) < 972 by decide) hbelow
  have hvalue : value (unitOf w) =
      UnpackedFloat.mul format (value (w >>> 11).toFloat) (.finite .positive (2 ^ 52) (-105) (by decide)) := by
    rw [unitOf, value_mul, value_unit_place]
    exact stored_of_fits hround.rounded hfits
  rw [hvalue]
  exact ⟨⟨hround.rounded, hpos⟩, hbelow⟩

/-- the number of a word is below one, -/
theorem unitOf_lt_one (w : UInt64) : unitOf w < 1.0 := by
  obtain ⟨hamount, hbound⟩ := value_unitOf w
  have hone : Rounded (value 1.0) := ⟨by decide, by decide, .inl (by decide)⟩
  rw [lt_iff]
  refine lt_of_size_lt hamount.rounded hone hamount.nonNegative rfl (lt_of_le_of_lt hbound ?_)
  rw [value_one, size_finite]
  norm_num

/-- and not below zero. -/
theorem zero_le_unitOf (w : UInt64) : 0.0 ≤ unitOf w :=
  zero_le_of_nonNegative (value_unitOf w).1.nonNegative

/-! ## Positions -/

/-- the stream after so many words -/
def skip (s : Stream) (k : Nat) : Stream where
  page := s.page
  drawn := s.drawn + k
  current := s.page ((s.drawn + k) / 8)
  current_eq := rfl

/-- the number of [0, 1) that the word so many places ahead stands for -/
def number (s : Stream) (i : Nat) : Float :=
  unitOf (s.word (s.drawn + i))

/-- streams with the same words, of which as many were taken, are the same -/
theorem ext_drawn {s t : Stream} (hpage : s.page = t.page) (hdrawn : s.drawn = t.drawn) : s = t := by
  obtain ⟨page, drawn, current, hcurrent⟩ := s
  obtain ⟨page', drawn', current', hcurrent'⟩ := t
  subst hpage hdrawn hcurrent hcurrent'
  rfl

theorem next_snd (s : Stream) : s.next.2 = s.skip 1 :=
  ext_drawn (page_next s) (drawn_next s)

theorem skip_zero (s : Stream) : s.skip 0 = s :=
  ext_drawn rfl rfl

theorem skip_skip (s : Stream) (j k : Nat) : (s.skip j).skip k = s.skip (j + k) :=
  ext_drawn rfl (Nat.add_assoc _ _ _)

theorem number_skip (s : Stream) (j i : Nat) : (s.skip j).number i = s.number (j + i) := by
  show unitOf (s.word (s.drawn + j + i)) = unitOf (s.word (s.drawn + (j + i)))
  rw [Nat.add_assoc]

/-- **Numbers are below one**, -/
theorem number_lt_one (s : Stream) (i : Nat) : s.number i < 1.0 :=
  unitOf_lt_one _

/-- and not below zero. -/
theorem zero_le_number (s : Stream) (i : Nat) : 0.0 ≤ s.number i :=
  zero_le_unitOf _

/-- what a number lies below is above zero -/
theorem pos_of_number_lt {s : Stream} {i : Nat} {x : Float} (h : s.number i < x) : 0.0 < x := by
  have hpos : NonNegative (value (s.number i)) := (value_unitOf _).1.nonNegative
  rw [lt_iff] at h ⊢
  rw [value_zero]
  generalize value (s.number i) = u at h hpos
  generalize value x = v at h
  cases u with
  | notANumber => cases hpos
  | infinity t =>
    cases hpos
    cases v with
    | infinity r => cases r <;> cases h
    | _ => cases h
  | zero t =>
    cases hpos
    exact h
  | finite t m e hm =>
    cases hpos
    cases v with
    | infinity r =>
      cases r with
      | positive => rfl
      | negative => cases h
    | finite r k f hk =>
      cases r with
      | positive => rfl
      | negative => cases h
    | _ => cases h

/-- **A draw gives the number at the position**, and leaves the stream one further on. -/
theorem unit_eq (s : Stream) : s.unit = (s.number 0, s.skip 1) := by
  show (unitOf s.next.1, s.next.2) = _
  rw [next_fst, next_snd]
  rfl

end TradingRobots.Random.Stream
