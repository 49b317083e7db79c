/-
Counts as doubles, and how close rounding is.

The double nearest to a quotient is the quotient rounded at its place, so a count of at most 2^53 is its double exactly.
Rounding moves a number by half of its last place at most, which is one part in 2^53 of a number that has all its bits.

`roundedTo_ofRatio`, `size_ofCount`: quotients and counts.
`RoundedTo.close`: the distance.
`rate_close`: a share of two counts, in percent, is at most one part in 2^51 away from the exact one.
-/
import TradingRobots.Proofs.Number.Stored

namespace TradingRobots

/-! ## Distance -/

namespace Rounding

/-- the nearest whole number is at most one half away -/
theorem even_close {y : ℚ} (h : 0 ≤ y) : |(even y : ℚ) - y| ≤ 1 / 2 := by
  have hlow := Nat.floor_le h
  have hhigh := Nat.lt_floor_add_one y
  rw [abs_le]
  unfold even
  split_ifs with hbelow habove
  · constructor <;> linarith
  · push_cast
    constructor <;> linarith
  · rcases Nat.mod_two_eq_zero_or_one ⌊y⌋₊ with hparity | hparity <;>
      (rw [hparity]; push_cast; constructor <;> linarith)

end Rounding

namespace Binary64

open Float.Model
open Random.Stream (value value_mul)

variable {x y : Float} {q r : ℚ} {t : Int} {n d : Nat}

/-- the least number of which a double has all bits -/
def leastFull : ℚ := 2 ^ 52 * 2 ^ (-1074 : Int)

theorem Placed.full_of_leastFull (h : Placed t r) (hlarge : leastFull ≤ r) : 2 ^ 52 * 2 ^ t ≤ r :=
  h.full.elim (fun hleast => hleast ▸ hlarge) id

/-- **Rounding moves a number that has all its bits by one part in 2^53 at most.** -/
theorem rounding_close (h : Placed t r) (hlarge : leastFull ≤ r) : |rounding t r - r| ≤ r / 2 ^ 53 := by
  have hpos := two_zpow_pos t
  have hfull := h.full_of_leastFull hlarge
  have hnonneg : 0 ≤ r / 2 ^ t := div_nonneg (le_trans (by positivity) hfull) hpos.le
  have hscaled : rounding t r - r = (Rounding.even (r / 2 ^ t) - r / 2 ^ t) * 2 ^ t := by
    rw [rounding, sub_mul, div_mul_cancel₀ _ hpos.ne']
  rw [hscaled, abs_mul, abs_of_pos hpos]
  have hhalf := mul_le_mul_of_nonneg_right (Rounding.even_close hnonneg) hpos.le
  refine hhalf.trans ?_
  rw [le_div_iff₀ (by norm_num)]
  linarith

/-- a double is at most one part in 2^53 away from the number that was rounded to it -/
theorem RoundedTo.close (h : RoundedTo x r) (hlarge : r = 0 ∨ leastFull ≤ r) : |size (value x) - r| ≤ r / 2 ^ 53 := by
  obtain ⟨t, hplaced, hsize⟩ := h.nearest.placed
  rcases hlarge with rfl | hlarge
  · rw [h.nearest.exact ⟨0, 0, Nat.zero_le _, by decide, by norm_num⟩]
    norm_num
  · rw [hsize]
    exact rounding_close hplaced hlarge

theorem leastFull_le : leastFull ≤ 1 / 2 ^ 54 := by
  have hpower : leastFull = 2 ^ (-1022 : Int) := by
    rw [leastFull, ← zpow_natCast, ← zpow_add₀ (by norm_num)]
    rfl
  have hsmall : (2 : ℚ) ^ (-1022 : Int) ≤ 2 ^ (-54 : Int) := zpow_le_zpow_right₀ (by norm_num) (by decide)
  rw [hpower, one_div, ← zpow_natCast, ← zpow_neg]
  exact hsmall

/-! ## Quotients and counts -/

/-- bits that are made of a place and a rounded number stand for the rounded number -/
theorem size_bitsAt (h : Placed t r) (hfits : bitsAt t r < infinityBits) :
    size (value (Float.ofBits (UInt64.ofNat (bitsAt t r)))) = rounding t r := by
  have hfinite := isFinite_ofBits hfits
  have hcanonical := canonical_decode hfinite
  have hbits := bits_ofBits hfits
  rw [size_value hfinite]
  generalize decode (Float.ofBits (UInt64.ofNat (bitsAt t r))) = v at hcanonical hbits
  have hmost := h.even_le
  have hleast := h.least
  have hfull : t = -1074 ∨ 2 ^ 52 ≤ Rounding.even (r / 2 ^ t) := or_iff_not_imp_left.2 h.le_even
  unfold bitsAt at hbits
  unfold rounding
  generalize Rounding.even (r / 2 ^ t) = k at hbits hmost hfull
  have hsame : k < 2 ^ 53 ∧ v.exponent = t ∧ v.mantissa = k ∨
      k = 2 ^ 53 ∧ v.exponent = t + 1 ∧ v.mantissa = 2 ^ 52 := by
    have := hcanonical.short
    have := hcanonical.least
    have := hcanonical.full
    unfold Dyadic.bits at hbits
    omega
  rcases hsame with ⟨-, hexponent, hmantissa⟩ | ⟨rfl, hexponent, hmantissa⟩
  · rw [Dyadic.size, hexponent, hmantissa]
  · rw [Dyadic.size, hexponent, hmantissa, two_zpow_succ]
    push_cast
    ring

/-- **The double nearest to a quotient is the quotient rounded**, unless it is too large. -/
theorem roundedTo_ofRatio (hn : 0 < n) (hd : 0 < d) (hfinite : (ofRatio n d).isFinite = true) :
    RoundedTo (ofRatio n d) (n / d) := by
  have hplaced := placed_lastPlace hn hd
  have hplain : Plain (ofRatio n d) := ⟨hfinite, nonNegative_ofRatio n d⟩
  have hratio := ofRatio_eq hn hd hplaced
  have hfits : bitsAt (lastPlace n d) (n / d) < infinityBits := by
    by_contra hlarge
    rw [Nat.min_eq_right (not_lt.1 hlarge)] at hratio
    rw [hratio] at hfinite
    cases hfinite
  rw [Nat.min_eq_left hfits.le] at hratio
  refine ⟨hplain, hplain.amount.rounded, _, hplaced, ?_⟩
  rw [hratio]
  exact size_bitsAt hplaced hfits

/-- **A count of at most 2^53 is its double.** -/
theorem size_ofCount (h : n ≤ 2 ^ 53) : size (value (ofCount n)) = n := by
  rcases Nat.eq_zero_or_pos n with rfl | hn
  · rfl
  have hword : n < wordLimit := lt_of_le_of_lt h (by decide)
  have hrounded := roundedTo_ofRatio hn (d := 1) (by decide) (plain_ofCount hword).isFinite
  rw [Nat.cast_one, div_one] at hrounded
  exact hrounded.nearest.exact ⟨n, 0, h, by decide, by rw [zpow_zero, mul_one]⟩

/-! ## Shares in percent -/

theorem plain_hundred : Plain 100.0 := ⟨rfl, rfl⟩

theorem size_hundred : size (value 100.0) = 100 := by
  show ((25 * 2 ^ 48 : Nat) : ℚ) * 2 ^ (-46 : Int) = 100
  norm_num

/-- **A share in percent**: both roundings together move it by one part in 2^51 at most. -/
theorem rate_close (hle : n ≤ d) (hd : 0 < d) (h : d ≤ 2 ^ 53) :
    Plain (ofCount n / ofCount d * 100.0) ∧
      |size (value (ofCount n / ofCount d * 100.0)) - 100 * (n / d)| ≤ 100 * (n / d) / 2 ^ 51 := by
  have hword : d < wordLimit := lt_of_le_of_lt h (by decide)
  have hn := plain_ofCount (hle.trans_lt hword)
  have hsize := size_ofCount h
  have hdpos : (0 : ℚ) < d := by exact_mod_cast hd
  have hone : (n : ℚ) / d ≤ 1 := (div_le_one hdpos).2 (by exact_mod_cast hle)
  have hquotient : RoundedTo (ofCount n / ofCount d) (n / d) := by
    have hdiv := roundedTo_div hn (plain_ofCount hword) (hsize ▸ hdpos) plain_one
    rw [size_ofCount (hle.trans h), hsize, size_one] at hdiv
    exact hdiv hone
  have hshare := hquotient.nearest.below 1 (size_one ▸ plain_one.amount.rounded.representable) hone
  have hrate : RoundedTo (ofCount n / ofCount d * 100.0) (size (value (ofCount n / ofCount d)) * 100) := by
    have hproduct := nearest_mul hquotient.plain.amount plain_hundred.amount
    rw [size_hundred] at hproduct
    refine roundedTo_of_le (value_mul _ _) hproduct plain_hundred ?_
    rw [size_hundred]
    linarith
  refine ⟨hrate.plain, ?_⟩
  have hleast : (n : ℚ) / d = 0 ∨ 1 / 2 ^ 53 ≤ (n : ℚ) / d := by
    rcases Nat.eq_zero_or_pos n with rfl | hpos
    · exact .inl (by rw [Nat.cast_zero, zero_div])
    · right
      have hnone : (1 : ℚ) ≤ n := by exact_mod_cast hpos
      have hmost : (d : ℚ) ≤ 2 ^ 53 := by exact_mod_cast h
      exact div_le_div₀ (Nat.cast_nonneg n) hnone hdpos hmost
  generalize (n : ℚ) / d = q at hquotient hleast
  have hsmall := leastFull_le
  have hfirst := abs_le.1 (hquotient.close (hleast.imp_right fun hlow => by linarith))
  generalize size (value (ofCount n / ofCount d)) = p at hfirst hrate
  have hsecond := abs_le.1 (hrate.close (hleast.imp (fun hzero => by rw [hzero] at hfirst; linarith) fun hlow => by linarith))
  rw [abs_le]
  rcases hleast with hzero | hlow
  · constructor <;> linarith
  · constructor <;> linarith

end Binary64

end TradingRobots
