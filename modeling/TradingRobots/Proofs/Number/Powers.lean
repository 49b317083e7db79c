/-
Powers keep order. A power is computed by roots and products, each cut down to a fixed number of bits; of all numbers with
so many bits, a step gives the largest that is not above the exact root or product. So a step of larger numbers gives no
smaller one, however much is cut off, and so do all the steps together and the double that the last one is rounded to.

One is its own root and product, so a power of one is one, computed or not.

`Root.floor_eq_sqrt`: Newton's steps end at the whole part of the square root.
`Power.Magnitude.le_times_iff`, `Power.Magnitude.le_root_iff`: what a product and a root give.
`Power.real_eq`: the power of a positive number is the computed one.
`Power.real_mono`: larger numbers have no smaller powers, when the exponent is positive.
-/
import TradingRobots.Proofs.Number.Plain
import TradingRobots.Proofs.Number.Stored
import TradingRobots.Proofs.Weight.Sound

namespace TradingRobots

/-! ## Whole square roots -/

namespace Root

/-- a step from above the root does not pass it, and at least halves the way -/
theorem step_near {n x : Nat} (hpos : 0 < x) :
    n.sqrt ≤ (x + n / x) / 2 ∧ (n.sqrt < x → (x + n / x) / 2 ≤ (x + n.sqrt) / 2) := by
  have hle := Nat.sqrt_le n
  have hlt := Nat.lt_succ_sqrt n
  constructor
  · rw [Nat.le_div_iff_mul_le (by decide)]
    rcases Nat.le_total (2 * n.sqrt) x with hfar | hnear
    · exact le_trans (by omega) (Nat.le_add_right x _)
    · have hquotient : 2 * n.sqrt - x ≤ n / x := by
        rw [Nat.le_div_iff_mul_le hpos]
        obtain ⟨k, hk⟩ := Nat.exists_eq_add_of_le hnear
        have hsub : 2 * n.sqrt - x = k := by omega
        rw [hsub]
        nlinarith [Nat.le_total x n.sqrt, sq_nonneg ((x : ℤ) - n.sqrt)]
      omega
  · intro hfar
    have hquotient : n / x ≤ n.sqrt := by
      rw [← Nat.lt_succ_iff, Nat.div_lt_iff_lt_mul hpos]
      calc n < (n.sqrt + 1) * (n.sqrt + 1) := hlt
        _ ≤ (n.sqrt + 1) * x := Nat.mul_le_mul_left _ hfar
    omega

/-- Newton's steps reach the root when there are enough of them for the way -/
theorem descend_eq_sqrt {n fuel x : Nat} (hx : n.sqrt ≤ x) (hway : x < n.sqrt + 2 ^ fuel) : descend n fuel x = n.sqrt := by
  induction fuel generalizing x with
  | zero =>
    rw [descend]
    omega
  | succ fuel ih =>
    rw [descend]
    rcases Nat.eq_zero_or_pos x with rfl | hpos
    · have hzero : n.sqrt = 0 := by omega
      rw [if_neg (by omega), hzero]
    obtain ⟨hlow, hhigh⟩ := step_near (n := n) hpos
    by_cases hdown : (x + n / x) / 2 < x
    · rw [if_pos hdown]
      apply ih hlow
      have := hhigh (by omega)
      rw [Nat.pow_succ] at hway
      omega
    · rw [if_neg hdown]
      rcases Nat.lt_or_eq_of_le hx with hlt | heq
      · have := hhigh hlt
        omega
      · exact heq.symm

/-- **The steps end at the whole part of the square root.** -/
theorem floor_eq_sqrt (n : Nat) : floor n = n.sqrt := by
  have hsize : n < 2 ^ (n.log2 / 2 + 1) * 2 ^ (n.log2 / 2 + 1) := by
    rw [← Nat.pow_add]
    exact Nat.lt_log2_self.trans_le (Nat.pow_le_pow_right (by decide) (by omega))
  have hstart : 2 ^ (n.log2 / 2 + 1) < 2 ^ (n.log2 + 2) := Nat.pow_lt_pow_right (by decide) (by omega)
  exact descend_eq_sqrt (Nat.sqrt_lt.2 hsize).le (by omega)

end Root

namespace Power

/-! ## Steps on short numbers -/

namespace Magnitude

/-- the number that a magnitude stands for -/
def size (v : Magnitude) : ℚ :=
  v.mantissa * 2 ^ v.exponent

theorem size_nonneg (v : Magnitude) : 0 ≤ v.size :=
  mul_nonneg (Nat.cast_nonneg _) (zpow_pos (by norm_num) _).le

/-- a number of so many bits -/
def Short (bits : Nat) (y : ℚ) : Prop :=
  ∃ (m : Nat) (e : Int), m < 2 ^ bits ∧ y = m * 2 ^ e

variable {bits : Nat} {v w : Magnitude} {y : ℚ}

/-- a property of all numbers up to some bound, known for the whole numbers of a place: if the largest of these has enough
bits, no shorter number lies between it and the bound -/
theorem short_le_iff {P : ℚ → Prop} {n : Nat} {p : Int} (hdown : ∀ x y, 0 ≤ x → x ≤ y → P y → P x)
    (hwhole : ∀ k : Nat, P (k * 2 ^ p) ↔ k ≤ n) (hfull : 2 ^ bits ≤ 2 * n) (hy : Short bits y) :
    y ≤ n * 2 ^ p ↔ P y := by
  obtain ⟨m, e, hm, rfl⟩ := hy
  have hpos : (0 : ℚ) < 2 ^ p := zpow_pos (by norm_num) p
  have hplace : (0 : ℚ) < 2 ^ e := zpow_pos (by norm_num) e
  constructor
  · intro hle
    exact hdown _ _ (by positivity) hle ((hwhole n).2 le_rfl)
  · intro hP
    rcases le_or_gt p e with hle | hlt
    · -- it is a whole number of the place
      obtain ⟨j, rfl⟩ : ∃ j : Nat, e = p + j := ⟨(e - p).toNat, by omega⟩
      have hunits : (m : ℚ) * 2 ^ (p + j : Int) = (m * 2 ^ j : Nat) * 2 ^ p := by
        rw [zpow_add₀ (by norm_num), zpow_natCast]
        push_cast
        ring
      rw [hunits] at hP ⊢
      have hk : ((m * 2 ^ j : Nat) : ℚ) ≤ n := by exact_mod_cast (hwhole _).1 hP
      exact mul_le_mul_of_nonneg_right hk hpos.le
    · -- it is below the largest with all its bits
      have hmcast : (m : ℚ) ≤ 2 ^ bits := by exact_mod_cast hm.le
      have hn : (2 : ℚ) ^ bits ≤ 2 * n := by exact_mod_cast hfull
      have hstep : (2 : ℚ) ^ (e + 1) ≤ 2 ^ p := zpow_le_zpow_right₀ (by norm_num) (by omega)
      rw [zpow_add₀ (by norm_num), zpow_one] at hstep
      calc (m : ℚ) * 2 ^ e ≤ 2 * n * 2 ^ e := by gcongr; exact hmcast.trans hn
        _ = n * (2 ^ e * 2) := by ring
        _ ≤ n * 2 ^ p := by gcongr

/-- a magnitude cut down is short, -/
theorem short_cut (bits : Nat) (v : Magnitude) : Short bits (cut bits v).size := by
  refine ⟨(cut bits v).mantissa, (cut bits v).exponent, ?_, rfl⟩
  show v.mantissa >>> (v.mantissa.log2 + 1 - bits) < 2 ^ bits
  rw [Nat.shiftRight_eq_div_pow, Nat.div_lt_iff_lt_mul (by positivity), ← Nat.pow_add]
  exact Nat.lt_log2_self.trans_le (Nat.pow_le_pow_right (by decide) (by omega))

/-- and no shorter number lies between the two. -/
theorem le_cut_iff (hbits : 0 < bits) (hy : Short bits y) : y ≤ (cut bits v).size ↔ y ≤ v.size := by
  by_cases hlong : v.mantissa.log2 + 1 ≤ bits
  · have hsame : (cut bits v).size = v.size := by
      simp [cut, size, Nat.sub_eq_zero_of_le hlong]
    rw [hsame]
  generalize hextra : v.mantissa.log2 + 1 - bits = extra
  have hpos : (0 : ℚ) < 2 ^ (v.exponent + extra : Int) := zpow_pos (by norm_num) _
  have hcut : (cut bits v).size = (v.mantissa / 2 ^ extra : Nat) * 2 ^ (v.exponent + extra : Int) := by
    simp only [cut, size, hextra, Nat.shiftRight_eq_div_pow]
  have hsize : v.size = v.mantissa / 2 ^ extra * 2 ^ (v.exponent + extra : Int) := by
    rw [size, zpow_add₀ (by norm_num), zpow_natCast]
    field_simp
  rw [hcut]
  refine short_le_iff (P := (· ≤ v.size)) (fun x y _ hxy hy => hxy.trans hy) (fun k => ?_) ?_ hy
  · rw [hsize, mul_le_mul_iff_left₀ hpos, le_div_iff₀ (by positivity), Nat.le_div_iff_mul_le (by positivity)]
    exact_mod_cast Iff.rfl
  · have hm : v.mantissa ≠ 0 := by
      intro hzero
      rw [hzero, Nat.log2_zero] at hlong
      omega
    have hlow : 2 ^ (bits - 1) ≤ v.mantissa / 2 ^ extra := by
      rw [Nat.le_div_iff_mul_le (by positivity), ← Nat.pow_add]
      exact (Nat.pow_le_pow_right (by decide) (by omega)).trans (Nat.log2_self_le hm)
    have hdouble : 2 ^ bits = 2 * 2 ^ (bits - 1) := by
      rw [← Nat.pow_succ']
      congr 1
      omega
    omega

theorem short_times (bits : Nat) (v w : Magnitude) : Short bits (times bits v w).size :=
  short_cut bits _

/-- a product cut down -/
theorem le_times_iff (hbits : 0 < bits) (hy : Short bits y) : y ≤ (times bits v w).size ↔ y ≤ v.size * w.size := by
  have hproduct : Magnitude.size ⟨v.mantissa * w.mantissa, v.exponent + w.exponent⟩ = v.size * w.size := by
    simp only [size]
    rw [zpow_add₀ (by norm_num), Nat.cast_mul]
    ring
  rw [times, le_cut_iff hbits hy, hproduct]

theorem short_root (bits : Nat) (v : Magnitude) : Short bits (root bits v).size :=
  short_cut bits _

/-- **A root cut down**: of all short numbers the largest whose square is not above. -/
theorem le_root_iff (hbits : 0 < bits) (hy : Short bits y) (hpos : 0 ≤ y) :
    y ≤ (root bits v).size ↔ y * y ≤ v.size := by
  by_cases hv : v.mantissa = 0
  · have hnone : v.size = 0 ∧ (root bits v).size = 0 := by
      simp [size, root, cut, Root.floor_eq_sqrt, hv]
    rw [hnone.1, hnone.2]
    constructor
    · intro hle
      rw [le_antisymm hle hpos, mul_zero]
    · intro hsquare
      exact (mul_self_eq_zero.1 (le_antisymm hsquare (mul_self_nonneg y))).le
  generalize hwide : 2 * bits - v.mantissa.log2 = wide
  obtain ⟨shift, hshift⟩ : ∃ shift, (if (v.exponent - wide) % 2 = 0 then wide else wide + 1) = shift := ⟨_, rfl⟩
  obtain ⟨p, hp⟩ : ∃ p : Int, v.exponent = p + p + shift := by
    refine ⟨(v.exponent - shift) / 2, ?_⟩
    split_ifs at hshift <;> omega
  have hroot : (root bits v) = cut bits ⟨(v.mantissa <<< shift).sqrt, p⟩ := by
    simp only [root, hwide, hshift, Root.floor_eq_sqrt]
    congr 2
    omega
  have hplace : (0 : ℚ) < 2 ^ p := zpow_pos (by norm_num) p
  have hsize : v.size = (v.mantissa <<< shift : Nat) * (2 ^ p * 2 ^ p) := by
    rw [size, hp, zpow_add₀ (by norm_num), zpow_add₀ (by norm_num), zpow_natCast, Nat.shiftLeft_eq]
    push_cast
    ring
  rw [hroot, le_cut_iff hbits hy]
  refine short_le_iff (P := fun x => x * x ≤ v.size) ?_ (fun k => ?_) ?_ hy
  · exact fun x z hx hxz hz => (mul_le_mul hxz hxz hx (hx.trans hxz)).trans hz
  · rw [hsize, Nat.le_sqrt, mul_mul_mul_comm, mul_le_mul_iff_left₀ (mul_pos hplace hplace)]
    exact_mod_cast Iff.rfl
  · have hwidened : 2 ^ bits * 2 ^ bits ≤ v.mantissa <<< shift := by
      rw [Nat.shiftLeft_eq, ← Nat.pow_add]
      calc 2 ^ (bits + bits) ≤ 2 ^ (v.mantissa.log2 + shift) :=
            Nat.pow_le_pow_right (by decide) (by split_ifs at hshift <;> omega)
        _ = 2 ^ v.mantissa.log2 * 2 ^ shift := Nat.pow_add _ _ _
        _ ≤ v.mantissa * 2 ^ shift := Nat.mul_le_mul_right _ (Nat.log2_self_le hv)
    exact (Nat.le_sqrt.2 hwidened).trans (Nat.le_mul_of_pos_left _ (by decide))

/-! ## Every step keeps order -/

theorem times_mono {v' w' : Magnitude} (hbits : 0 < bits) (hv : v.size ≤ v'.size) (hw : w.size ≤ w'.size) :
    (times bits v w).size ≤ (times bits v' w').size := by
  have hproduct := (le_times_iff hbits (short_times bits v w)).1 le_rfl
  rw [le_times_iff hbits (short_times bits v w)]
  exact hproduct.trans (mul_le_mul hv hw (size_nonneg w) (size_nonneg v'))

theorem root_mono {v' : Magnitude} (hbits : 0 < bits) (hv : v.size ≤ v'.size) :
    (root bits v).size ≤ (root bits v').size := by
  have hsquare := (le_root_iff hbits (short_root bits v) (size_nonneg _)).1 le_rfl
  rw [le_root_iff hbits (short_root bits v) (size_nonneg _)]
  exact hsquare.trans hv

theorem roots_mono {v' : Magnitude} (hbits : 0 < bits) (k : Nat) (hv : v.size ≤ v'.size) :
    (k.repeat (root bits) v).size ≤ (k.repeat (root bits) v').size := by
  induction k with
  | zero => exact hv
  | succ k ih => exact root_mono hbits ih

theorem power_mono {v' : Magnitude} (hbits : 0 < bits) (hv : v.size ≤ v'.size) (fuel n : Nat) :
    (power bits v fuel n).size ≤ (power bits v' fuel n).size := by
  induction fuel generalizing n with
  | zero => exact le_rfl
  | succ fuel ih =>
    simp only [power]
    have hsquare := times_mono hbits (ih (n / 2)) (ih (n / 2))
    split
    · exact le_rfl
    · split
      · exact hsquare
      · exact times_mono hbits hsquare hv

/-! ## Powers of one -/

theorem short_one (hbits : 0 < bits) : Short bits 1 :=
  ⟨1, 0, Nat.one_lt_two_pow (Nat.ne_of_gt hbits), by norm_num⟩

theorem size_one : one.size = 1 := by
  simp [size, one]

theorem times_one (hbits : 0 < bits) (hv : v.size = 1) (hw : w.size = 1) : (times bits v w).size = 1 := by
  have hproduct : v.size * w.size = 1 := by rw [hv, hw, mul_one]
  apply le_antisymm
  · rw [← hproduct, ← le_times_iff hbits (short_times bits v w)]
  · rw [le_times_iff hbits (short_one hbits), hproduct]

theorem root_one (hbits : 0 < bits) (hv : v.size = 1) : (root bits v).size = 1 := by
  apply le_antisymm
  · have hsquare := (le_root_iff hbits (short_root bits v) (size_nonneg _)).1 le_rfl
    nlinarith
  · rw [le_root_iff hbits (short_one hbits) zero_le_one, hv, mul_one]

theorem roots_one (hbits : 0 < bits) (k : Nat) (hv : v.size = 1) : (k.repeat (root bits) v).size = 1 := by
  induction k with
  | zero => exact hv
  | succ k ih => exact root_one hbits ih

theorem power_one (hbits : 0 < bits) (hv : v.size = 1) (fuel n : Nat) : (power bits v fuel n).size = 1 := by
  induction fuel generalizing n with
  | zero => exact size_one
  | succ fuel ih =>
    simp only [power]
    have hsquare := times_one hbits (ih (n / 2)) (ih (n / 2))
    split
    · exact size_one
    · split
      · exact hsquare
      · exact times_one hbits hsquare hv

end Magnitude

open Magnitude

variable {v w : Magnitude}

theorem ofDyadic_mono (h : v.size ≤ w.size) (n k : Nat) : (ofDyadic v n k).size ≤ (ofDyadic w n k).size :=
  power_mono (Nat.add_pos_right _ (by decide)) (roots_mono (Nat.add_pos_right _ (by decide)) k h) _ _

theorem ofDyadic_one (h : v.size = 1) (n k : Nat) : (ofDyadic v n k).size = 1 :=
  power_one (Nat.add_pos_right _ (by decide)) (roots_one (Nat.add_pos_right _ (by decide)) k h) _ _

/-! ## The nearest double -/

open Binary64 Float.Model
open Random.Stream (value)

/-- the double made of a magnitude is the nearest one, also where it is decided without powers -/
theorem Magnitude.toFloat_eq (hv : v.mantissa ≠ 0) :
    v.toFloat = ofRatio (Dyadic.ratio ⟨false, v.mantissa, v.exponent⟩).1 (Dyadic.ratio ⟨false, v.mantissa, v.exponent⟩).2 := by
  have hn : 0 < (Dyadic.ratio ⟨false, v.mantissa, v.exponent⟩).1 := Dyadic.ratio_fst_pos hv
  have hd := Dyadic.ratio_snd_pos ⟨false, v.mantissa, v.exponent⟩
  have hratio := Dyadic.ratio_eq ⟨false, v.mantissa, v.exponent⟩
  have hplace := two_zpow_pos v.exponent
  unfold Magnitude.toFloat
  rw [if_neg hv]
  split
  next hlarge =>
    refine (ofRatio_large hn hd ?_).symm
    rw [hratio, ← zpow_natCast, ← zpow_add₀ (by norm_num)]
    have hone : (1 : ℚ) ≤ v.mantissa := by exact_mod_cast Nat.pos_of_ne_zero hv
    calc (2 : ℚ) ^ ((53 : Nat) + 971 : Int) ≤ 2 ^ v.exponent := zpow_le_zpow_right₀ (by norm_num) (by omega)
      _ ≤ v.mantissa * 2 ^ v.exponent := le_mul_of_one_le_left hplace.le hone
  next =>
    split
    next hsmall =>
      refine (ofRatio_small hn hd ?_).symm
      rw [hratio]
      have hlog : (v.mantissa : ℚ) < 2 ^ (v.mantissa.log2 + 1 : Int) := by exact_mod_cast Nat.lt_log2_self
      calc 2 * ((v.mantissa : ℚ) * 2 ^ v.exponent) < 2 * (2 ^ (v.mantissa.log2 + 1 : Int) * 2 ^ v.exponent) := by gcongr
        _ = 2 ^ (v.mantissa.log2 + 1 + v.exponent + 1) := by
          rw [two_zpow_succ (v.mantissa.log2 + 1 + v.exponent), zpow_add₀ (by norm_num) (v.mantissa.log2 + 1 : Int)]
        _ ≤ 2 ^ (-1074 : Int) := zpow_le_zpow_right₀ (by norm_num) (by omega)
    next => rfl

theorem Magnitude.toFloat_mono (h : v.size ≤ w.size) : v.toFloat ≤ w.toFloat := by
  by_cases hv : v.mantissa = 0
  · rw [Magnitude.toFloat, if_pos hv]
    exact zero_le_of_nonNegative (nonNegative_toFloat w)
  have hw : w.mantissa ≠ 0 := by
    intro hzero
    have hpos : 0 < v.size := mul_pos (by exact_mod_cast Nat.pos_of_ne_zero hv) (two_zpow_pos _)
    have hnone : w.size = 0 := by simp [Magnitude.size, hzero]
    linarith
  rw [toFloat_eq hv, toFloat_eq hw]
  apply ofRatio_mono (Dyadic.ratio_snd_pos _) (Dyadic.ratio_snd_pos _)
  rw [Dyadic.ratio_eq, Dyadic.ratio_eq]
  exact h

theorem Magnitude.toFloat_one (h : v.size = 1) : v.toFloat = 1.0 := by
  have hv : v.mantissa ≠ 0 := by
    intro hzero
    simp [Magnitude.size, hzero] at h
  rw [toFloat_eq hv]
  have hone : (1.0 : Float) = ofRatio 1 1 := by decide +kernel
  rw [hone]
  refine ofRatio_congr (Dyadic.ratio_fst_pos hv) (Dyadic.ratio_snd_pos _) (by decide) (by decide) ?_
  rw [Dyadic.ratio_eq, Nat.cast_one, div_one]
  exact h

end Power

/-! ## Powers of doubles -/

namespace Power

open Binary64 Float.Model
open Random.Stream (value value_one)

variable {x x' y : Float}

/-- **The power of a positive number is the computed one**, also where the base is one. -/
theorem real_eq (hx : x.isFinite = true) (hpos : 0 < size (value x)) (hy : y.isFinite = true) (hup : 0.0 < y) :
    real x y = (ofDyadic ⟨(decode x).mantissa, (decode x).exponent⟩ (dyadicExponent y).1 (dyadicExponent y).2).toFloat := by
  have hxzero : ¬x == 0.0 := by
    intro hzero
    rw [size_eq_of_beq hzero hx, value_zero, size_zero] at hpos
    exact lt_irrefl 0 hpos
  obtain ⟨hxnan, hxinf⟩ := Number.not_special hx
  obtain ⟨hynan, hyinf⟩ := Number.not_special hy
  unfold real
  rw [if_neg (not_beq_zero hup)]
  split
  next hone =>
    have hsize : Magnitude.size ⟨(decode x).mantissa, (decode x).exponent⟩ = 1 := by
      show (decode x).size = 1
      rw [← size_value hx, size_eq_of_beq hone hx, value_one, size_finite]
      norm_num
    exact (Magnitude.toFloat_one (ofDyadic_one hsize _ _)).symm
  next =>
    have hplain : ¬(x.isNaN || y.isNaN) = true := by
      rw [hxnan, hynan]
      decide
    have hinside : ¬(y.isInf || x.isInf || x == 0.0) = true := by
      rw [hyinf, hxinf, Bool.false_or, Bool.false_or]
      exact hxzero
    rw [if_neg hplain]
    dsimp only
    rw [if_neg hinside, if_pos hup]

/-- the power of zero is zero -/
theorem real_zero (hy : y.isFinite = true) (hup : 0.0 < y) : real 0.0 y = 0.0 := by
  obtain ⟨hnan, hinf⟩ := Number.not_special hy
  have hgt : y > 0.0 := hup
  have hequal : ((0.0 : Float) == 0.0) = true := rfl
  have hone : ((0.0 : Float) == 1.0) = false := rfl
  have hzeronan : (0.0 : Float).isNaN = false := rfl
  have hsmall : ¬(0.0 : Float) > 1.0 := by decide
  unfold real
  rw [if_neg (not_beq_zero hup), hone, hzeronan, hnan, hequal]
  simp [hgt, hsmall]

/-- the power of a number that is not negative is not negative -/
theorem nonNegative_power (hx : x.isFinite = true) (hpos : NonNegative (value x)) (hy : y.isFinite = true) (hup : 0.0 < y) :
    NonNegative (value (real x y)) := by
  rcases (size_nonneg (value x)).lt_or_eq with hsome | hnone
  · rw [real_eq hx hsome hy hup]
    exact Magnitude.nonNegative_toFloat _
  · rw [eq_zero_of_size (amount_value hx hpos) hnone.symm, real_zero hy hup]
    rfl

/-- **Larger numbers have no smaller powers**, when the exponent is positive. -/
theorem real_mono (hx : x.isFinite = true) (hpos : NonNegative (value x)) (hx' : x'.isFinite = true)
    (hpos' : NonNegative (value x')) (h : size (value x) ≤ size (value x')) (hy : y.isFinite = true) (hup : 0.0 < y) :
    real x y ≤ real x' y := by
  rcases (size_nonneg (value x)).lt_or_eq with hsome | hnone
  · rw [real_eq hx hsome hy hup, real_eq hx' (hsome.trans_le h) hy hup]
    refine Magnitude.toFloat_mono (ofDyadic_mono ?_ _ _)
    rw [size_value hx, size_value hx'] at h
    exact h
  · rw [eq_zero_of_size (amount_value hx hpos) hnone.symm, real_zero hy hup]
    exact zero_le_of_nonNegative (nonNegative_power hx' hpos' hy hup)

end Power

end TradingRobots
