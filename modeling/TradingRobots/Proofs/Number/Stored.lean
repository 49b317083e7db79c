/-
Finite doubles that are not negative, and what the operations store for them. A result is stored as it was rounded if the
exact number is at most some double, and then it is known by the exact number alone: larger exact numbers give doubles
that are not smaller. The clamp at zero turns a difference into the larger of the exact difference and zero.

`roundedTo_add`, `roundedTo_sub`, `roundedTo_clamped`, `roundedTo_div`, `roundedTo_double`: the operations.
`RoundedTo.mono`: they keep order.
`sub_le_zero_iff`: the sign of a difference is exact.
`ofCount_mono`, `plain_ofCount`: counts as doubles.
-/
import TradingRobots.Proofs.Number.Monotone

namespace TradingRobots.Binary64

open Float.Model
open Random.Stream (value value_add value_sub value_mul value_one)

/-! ## Results that are stored -/

/-- a finite double that is not negative -/
structure Plain (x : Float) : Prop where
  isFinite : x.isFinite = true
  nonNegative : NonNegative (value x)

variable {x y : Float} {r s : ℚ}

theorem Plain.amount (h : Plain x) : Amount (value x) :=
  amount_value h.isFinite h.nonNegative

/-- what is rounded is finite -/
theorem Amount.plain (h : Amount (value x)) : Plain x := by
  refine ⟨?_, h.nonNegative⟩
  have hround := h.rounded
  rw [isFinite_eq]
  generalize value x = u at hround
  cases u with
  | zero s => rfl
  | finite s m e hm => rfl
  | _ => exact absurd hround id

/-- a finite double is an exact number, rounded -/
structure RoundedTo (x : Float) (r : ℚ) : Prop where
  plain : Plain x
  nearest : Nearest (value x) r

theorem RoundedTo.mono (hx : RoundedTo x r) (hy : RoundedTo y s) (h : r ≤ s) : size (value x) ≤ size (value y) :=
  hx.nearest.mono hy.nearest h

theorem Plain.roundedTo (h : Plain x) : RoundedTo x (size (value x)) :=
  ⟨h, nearest_self h.amount.rounded⟩

/-- a result is stored as it was rounded if it is at most some double -/
theorem roundedTo_of_le {u : UnpackedFloat} (hvalue : value x = stored u) (hu : Nearest u r ∧ NonNegative u)
    (hy : Plain y) (hle : r ≤ size (value y)) : RoundedTo x r := by
  have hlimit := hu.1.mono hy.roundedTo.nearest hle
  have hfits := fits_of_size_le hu.1.rounded hy.amount.rounded (rounded_value hy.isFinite).2 hlimit
  rw [stored_of_fits hu.1.rounded hfits] at hvalue
  refine ⟨⟨?_, ?_⟩, ?_⟩
  · rw [isFinite_eq, hvalue, ← stored_of_fits hu.1.rounded hfits]
    exact isFinite_stored hfits
  · rw [hvalue]
    exact hu.2
  · rw [hvalue]
    exact hu.1

/-- a sum that is too large is stored as infinity -/
theorem value_sum_large (hx : Amount (value x)) (hy : Amount (value y))
    (hlarge : ¬Fits (UnpackedFloat.add format (value x) (value y))) : value (x + y) = .infinity .positive := by
  rw [value_add]
  exact stored_of_not_fits (nearest_add hx hy).rounded (nonNegative_add (.inl hx.2) hy.2) hlarge

theorem finite_iff_fits_sum (hx : Amount (value x)) (hy : Amount (value y)) :
    (x + y).isFinite = true ↔ Fits (UnpackedFloat.add format (value x) (value y)) := by
  constructor
  · intro hfinite
    by_contra hlarge
    rw [isFinite_eq, value_sum_large hx hy hlarge] at hfinite
    cases hfinite
  · intro hfits
    rw [isFinite_eq, value_add]
    exact isFinite_stored hfits

/-- a finite sum is stored as it was rounded -/
theorem value_sum (hx : Amount (value x)) (hy : Amount (value y)) (hfinite : (x + y).isFinite = true) :
    value (x + y) = UnpackedFloat.add format (value x) (value y) := by
  rw [value_add]
  exact stored_of_fits (nearest_add hx hy).rounded ((finite_iff_fits_sum hx hy).1 hfinite)

theorem roundedTo_add (hx : Plain x) (hy : Plain y) (h : (x + y).isFinite = true) :
    RoundedTo (x + y) (size (value x) + size (value y)) := by
  have hsum := nearest_add hx.amount hy.amount
  rw [← value_sum hx.amount hy.amount h] at hsum
  exact ⟨⟨h, (nonNegative_add (.inl hx.nonNegative) hy.nonNegative).stored⟩, hsum⟩

theorem roundedTo_sub (hx : Plain x) (hy : Plain y) (h : size (value y) ≤ size (value x)) :
    RoundedTo (x - y) (size (value x) - size (value y)) :=
  roundedTo_of_le (value_sub x y) (nearest_sub hx.amount hy.amount h) hx (sub_le_self _ (size_nonneg _))

theorem roundedTo_div (hx : Plain x) (hy : Plain y) (hpos : 0 < size (value y)) {z : Float} (hz : Plain z)
    (hle : size (value x) / size (value y) ≤ size (value z)) : RoundedTo (x / y) (size (value x) / size (value y)) :=
  roundedTo_of_le (value_div x y) (nearest_div hx.amount hy.amount hpos) hz hle

theorem plain_two : Plain 2.0 := ⟨rfl, rfl⟩

theorem plain_one : Plain 1.0 := ⟨rfl, rfl⟩

theorem plain_zero : Plain 0.0 := ⟨rfl, rfl⟩

theorem size_one : size (value 1.0) = 1 := by
  rw [value_one, size_finite]
  norm_num

/-- twice a number is exact -/
theorem roundedTo_double (hx : Plain x) {z : Float} (hz : Plain z) (hle : 2 * size (value x) ≤ size (value z)) :
    RoundedTo (2.0 * x) (2 * size (value x)) ∧ size (value (2.0 * x)) = 2 * size (value x) := by
  have hproduct := nearest_mul plain_two.amount hx.amount
  rw [size_two] at hproduct
  have hdouble := roundedTo_of_le (value_mul 2.0 x) hproduct hz hle
  exact ⟨hdouble, hdouble.nearest.exact hx.amount.rounded.representable.double⟩

/-- the clamp leaves nothing of what has a negative sign -/
theorem nonNegative_of_negative (h : signOf? (value x) = some .negative) : nonNegative x = 0.0 := by
  unfold nonNegative
  refine if_neg fun hpos => ?_
  have hlt : (value 0.0).lt (value x) = true := (lt_iff 0.0 x).1 hpos
  rw [value_zero] at hlt
  generalize value x = u at h hlt
  cases u with
  | notANumber => cases h
  | zero s => cases hlt
  | _ =>
    cases h
    cases hlt

/-- **A difference, clamped at zero.** -/
theorem roundedTo_clamped (hx : Plain x) (hy : Plain y) :
    RoundedTo (nonNegative (x - y)) (max (size (value x) - size (value y)) 0) := by
  rcases le_or_gt (size (value y)) (size (value x)) with hle | hlt
  · have hsub := roundedTo_sub hx hy hle
    rw [nonNegative_eq hsub.plain.nonNegative, max_eq_left (sub_nonneg.2 hle)]
    exact hsub
  · have hsign : signOf? (value (x - y)) = some .negative := by
      rw [value_sub, signOf?_stored]
      exact signOf?_sub hx.amount hy.amount hlt
    rw [nonNegative_of_negative hsign, max_eq_right (sub_nonpos.2 hlt.le)]
    exact plain_zero.roundedTo

/-! ## Order -/

/-- what is not above a finite double is finite -/
theorem plain_of_le (hpos : NonNegative (value x)) (h : x ≤ y) (hy : y.isFinite = true) : Plain x := by
  refine ⟨?_, hpos⟩
  rw [isFinite_eq] at hy ⊢
  rw [le_iff] at h
  generalize value x = u at hpos h
  generalize value y = v at hy h
  cases u with
  | notANumber => cases hpos
  | infinity s =>
    cases hpos
    cases v with
    | notANumber => cases hy
    | infinity t => cases hy
    | _ => cases h
  | _ => rfl

theorem size_le_of_le (hx : Plain x) (hy : Plain y) (h : x ≤ y) : size (value x) ≤ size (value y) := by
  obtain ⟨hu, hpu⟩ := hx.amount
  obtain ⟨hv, hpv⟩ := hy.amount
  rw [le_iff] at h
  generalize value x = u at h hu hpu
  generalize value y = v at h hv hpv
  cases u with
  | zero s => exact size_nonneg v
  | finite s m e hm =>
    cases hpu
    cases v with
    | zero t => cases h
    | finite t k f hk =>
      cases hpv
      have hcompare : ¬(compare e f).then (compare m k) = .gt := Ordering.ne_gt_iff_isLE.2 h
      rw [Ordering.then_eq_gt, compare_gt_iff_gt, compare_eq_iff_eq, compare_gt_iff_gt] at hcompare
      rw [size_finite, size_finite]
      rcases lt_or_ge e f with hlt | hge
      · have hfull := hv.2.2.resolve_right (by have := hu.2.1; omega)
        exact (size_lt_of_exponent_lt hu.1 hfull hlt).le
      · obtain rfl : e = f := by omega
        have hle : (m : ℚ) ≤ k := by
          have : m ≤ k := by omega
          exact_mod_cast this
        exact mul_le_mul_of_nonneg_right hle (two_zpow_pos e).le
    | _ => exact absurd hv id
  | _ => exact absurd hu id

/-- a number that is not negative, and not finite, is infinity -/
theorem eq_infinity (hpos : NonNegative (value x)) (h : x.isFinite = false) : x = infinity := by
  apply eq_of_value
  rw [value_infinity]
  rw [isFinite_eq] at h
  generalize value x = u at hpos h
  cases u with
  | notANumber => cases hpos
  | infinity s =>
    cases hpos
    rfl
  | _ => cases h

/-- larger counts are not smaller doubles -/
theorem ofCount_mono {m n : Nat} (h : m ≤ n) : ofCount m ≤ ofCount n := by
  refine ofRatio_mono (by decide) (by decide) ?_
  have hcast : (m : ℚ) ≤ n := by exact_mod_cast h
  simpa using hcast

theorem ofCount_largest : ofCount (wordLimit - 1) = Float.ofBits 0x43F0000000000000 := by decide +kernel

/-- a count of a word is a finite double -/
theorem plain_ofCount {n : Nat} (h : n < wordLimit) : Plain (ofCount n) := by
  refine plain_of_le (nonNegative_ofRatio n 1) (ofCount_mono (Nat.le_sub_one_of_lt h)) ?_
  rw [ofCount_largest]
  rfl

theorem size_ofCount_mono {m n : Nat} (h : m ≤ n) (hn : n < wordLimit) :
    size (value (ofCount m)) ≤ size (value (ofCount n)) :=
  size_le_of_le (plain_ofCount (h.trans_lt hn)) (plain_ofCount hn) (ofCount_mono h)

theorem size_ofCount_pos {n : Nat} (hpos : 0 < n) (hn : n < wordLimit) : 0 < size (value (ofCount n)) := by
  have hone : ofCount 1 = 1.0 := by decide +kernel
  have hle := size_ofCount_mono hpos hn
  rw [hone, size_one] at hle
  linarith

/-! ## Zero -/

/-- equal doubles have equal sizes -/
theorem size_eq_of_beq (h : x == y) (hx : x.isFinite = true) : size (value x) = size (value y) := by
  have hequal : (value x).compare (value y) = some .eq := beq_iff_eq.1 h
  have hfinite : (value x).isFinite = true := hx
  generalize value x = u at hequal hfinite
  generalize value y = v at hequal
  cases u with
  | zero s =>
    cases v with
    | zero t => rfl
    | finite t k f hk => cases t <;> cases hequal
    | infinity t => cases t <;> cases hequal
    | notANumber => cases hequal
  | finite s m e hm =>
    cases v with
    | finite t k f hk =>
      -- of one sign, or the negative one would be less
      have hsame : e = f ∧ m = k := by
        cases s <;> cases t <;> simp [UnpackedFloat.compare, Ordering.then_eq_eq] at hequal
        · exact hequal
        · exact hequal
      rw [size_finite, size_finite, hsame.1, hsame.2]
    | zero t => cases s <;> cases hequal
    | infinity t => cases s <;> cases t <;> cases hequal
    | notANumber => cases hequal
  | _ => cases hfinite

/-- what is above zero is not equal to it -/
theorem not_beq_zero (h : 0.0 < x) : ¬x == 0.0 := by
  intro hzero
  have hequal : (value x).compare (value 0.0) = some .eq := beq_iff_eq.1 hzero
  rw [lt_iff, value_zero] at h
  rw [value_zero] at hequal
  generalize value x = u at h hequal
  cases u with
  | zero s => cases h
  | finite s m e hm => cases s <;> cases hequal
  | infinity s => cases s <;> cases hequal
  | notANumber => cases h

/-- zero is the only double without a size that is not negative -/
theorem eq_zero_of_size (hx : Amount (value x)) (h : size (value x) = 0) : x = 0.0 := by
  apply eq_of_value
  rw [value_zero]
  obtain ⟨hround, hpos⟩ := hx
  generalize value x = u at hround hpos h
  cases u with
  | zero s =>
    cases hpos
    rfl
  | finite s m e hm =>
    have hsome : (0 : ℚ) < m * 2 ^ e := mul_pos (by exact_mod_cast hm) (two_zpow_pos e)
    exact absurd h hsome.ne'
  | _ => exact absurd hround id

/-- what is above zero is not at or below it -/
theorem not_le_zero_of_pos (h : 0.0 < x) : ¬x ≤ 0.0 := by
  rw [lt_iff, value_zero] at h
  rw [le_iff, value_zero]
  generalize value x = u at h
  cases u with
  | notANumber => cases h
  | zero s => cases h
  | infinity s =>
    cases s with
    | positive => exact Bool.false_ne_true
    | negative => cases h
  | finite s m e hm =>
    cases s with
    | positive => exact Bool.false_ne_true
    | negative => cases h

/-- a finite double that is not at or below zero is above it -/
theorem pos_of_not_le_zero (hx : x.isFinite = true) (h : ¬x ≤ 0.0) : 0.0 < x := by
  rw [le_iff, value_zero] at h
  rw [lt_iff, value_zero]
  rw [isFinite_eq] at hx
  generalize value x = u at h hx
  cases u with
  | notANumber => cases hx
  | zero s => exact absurd rfl h
  | infinity s => cases hx
  | finite s m e hm =>
    cases s with
    | positive => rfl
    | negative => exact absurd rfl h

theorem plain_of_pos (hx : x.isFinite = true) (h : 0.0 < x) : Plain x := by
  refine ⟨hx, ?_⟩
  rw [lt_iff, value_zero] at h
  generalize value x = u at h
  cases u with
  | notANumber => cases h
  | zero s => cases h
  | infinity s =>
    cases s with
    | positive => rfl
    | negative => cases h
  | finite s m e hm =>
    cases s with
    | positive => rfl
    | negative => cases h

theorem Plain.le_zero_iff (hx : Plain x) : x ≤ 0.0 ↔ size (value x) = 0 := by
  constructor
  · intro hle
    have hzero := size_le_of_le hx plain_zero hle
    rw [value_zero, size_zero] at hzero
    exact le_antisymm hzero (size_nonneg _)
  · intro hsize
    rw [eq_zero_of_size hx.amount hsize]
    decide

theorem Plain.pos_iff (hx : Plain x) : 0.0 < x ↔ 0 < size (value x) := by
  rw [(size_nonneg (value x)).lt_iff_ne', Ne, ← hx.le_zero_iff]
  exact ⟨not_le_zero_of_pos, pos_of_not_le_zero hx.isFinite⟩

/-- what has a negative sign is at or below zero -/
theorem le_zero_of_negative (h : signOf? (value x) = some .negative) : x ≤ 0.0 := by
  rw [le_iff, value_zero]
  generalize value x = u at h
  cases u with
  | notANumber => cases h
  | zero s => rfl
  | _ =>
    cases h
    rfl

/-- doubles are whole numbers of the least place -/
theorem Representable.exists_units {r : ℚ} (h : Representable r) : ∃ k : Nat, r = k * 2 ^ (-1074 : Int) := by
  obtain ⟨m, e, -, he, rfl⟩ := h
  obtain ⟨d, rfl⟩ : ∃ d : Nat, e = d + (-1074) := ⟨(e + 1074).toNat, by omega⟩
  refine ⟨m * 2 ^ d, ?_⟩
  rw [zpow_add₀ two_ne_zero, zpow_natCast, Nat.cast_mul, Nat.cast_pow, Nat.cast_ofNat, mul_assoc]

/-- **The sign of a difference is exact**: doubles that differ, differ by the least double at least. -/
theorem sub_le_zero_iff (hx : Plain x) (hy : Plain y) : x - y ≤ 0.0 ↔ size (value x) ≤ size (value y) := by
  rcases lt_or_ge (size (value x)) (size (value y)) with hlt | hge
  · refine iff_of_true (le_zero_of_negative ?_) hlt.le
    rw [value_sub, signOf?_stored]
    exact signOf?_sub hx.amount hy.amount hlt
  · have hsub := roundedTo_sub hx hy hge
    rw [hsub.plain.le_zero_iff]
    constructor
    · intro hzero
      obtain ⟨m, hm⟩ := hx.amount.rounded.representable.exists_units
      obtain ⟨k, hk⟩ := hy.amount.rounded.representable.exists_units
      by_contra hmore
      have hpos := two_zpow_pos (-1074)
      have hunits : (k : ℚ) < m := by
        rw [hm, hk, not_le] at hmore
        exact lt_of_mul_lt_mul_right hmore hpos.le
      have hleast : (1 : ℚ) * 2 ^ (-1074 : Int) ≤ size (value x) - size (value y) := by
        rw [hm, hk, ← sub_mul]
        refine mul_le_mul_of_nonneg_right ?_ hpos.le
        have : k + 1 ≤ m := by exact_mod_cast hunits
        have : (k : ℚ) + 1 ≤ m := by exact_mod_cast this
        linarith
      have habove := hsub.nearest.above _ ⟨1, -1074, by decide, le_rfl, by norm_num⟩ hleast
      rw [hzero] at habove
      linarith
    · intro hle
      have hexact : size (value x) - size (value y) = 0 := by linarith
      rw [hexact] at hsub
      exact hsub.nearest.exact ⟨0, 0, Nat.zero_le _, by decide, by norm_num⟩

end TradingRobots.Binary64
