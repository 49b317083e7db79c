/-
The shortest digits of a double read back to it.

Points of a decimal grid are compared with the ends of the interval around a dyadic number in whole numbers; what the
comparison says is said here of quotients. A grid of a sixteenth figure after the leading one is finer than the interval,
so the nearest of its points lies inside, and the search ends with a point of the interval.

`holds_shortest`: the shortest digits lie in the interval.
`withSign_toFloat`: any decimal of the same size reads back to the double.
-/
import TradingRobots.Number.Decimal
import TradingRobots.Proofs.Number.Nearest

namespace TradingRobots

namespace Decimal

/-- the size of a decimal number -/
def size (w : Decimal) : ℚ :=
  w.digits * 10 ^ w.exponent

theorem ten_zpow_pos (k : Int) : (0 : ℚ) < 10 ^ k :=
  zpow_pos (by decide) k

/-! ## Powers of ten -/

theorem powerOfTen_pos (k : Int) : 0 < (powerOfTen k).1 ∧ 0 < (powerOfTen k).2 := by
  unfold powerOfTen
  split
  · exact ⟨Nat.pow_pos (by decide), Nat.one_pos⟩
  · exact ⟨Nat.one_pos, Nat.pow_pos (by decide)⟩

theorem powerOfTen_eq (k : Int) : ((powerOfTen k).1 : ℚ) / (powerOfTen k).2 = 10 ^ k := by
  unfold powerOfTen
  split
  next h =>
    obtain ⟨j, rfl⟩ := Int.eq_ofNat_of_zero_le h
    simp
  next h =>
    obtain ⟨j, rfl⟩ : ∃ j : Nat, k = -(j : Int) := ⟨(-k).toNat, by omega⟩
    simp

/-- a power of ten, with its denominator multiplied out -/
theorem powerOfTen_fst (k : Int) : ((powerOfTen k).1 : ℚ) = 10 ^ k * (powerOfTen k).2 := by
  have hpos : (0 : ℚ) < (powerOfTen k).2 := by exact_mod_cast (powerOfTen_pos k).2
  rw [← powerOfTen_eq k, div_mul_cancel₀ _ hpos.ne']

theorem reaches_iff {n d : Nat} (hd : 0 < d) (k : Int) : reaches n d k = true ↔ (10 : ℚ) ^ k ≤ n / d := by
  have hpower := powerOfTen_fst k
  have hpos : (0 : ℚ) < (powerOfTen k).2 := by exact_mod_cast (powerOfTen_pos k).2
  have hdpos : (0 : ℚ) < d := by exact_mod_cast hd
  unfold reaches
  generalize powerOfTen k = u at hpower hpos
  obtain ⟨a, b⟩ := u
  dsimp only at hpower hpos ⊢
  rw [decide_eq_true_iff, le_div_iff₀ hdpos]
  have hcast : a * d ≤ n * b ↔ (a : ℚ) * d ≤ n * b := by exact_mod_cast Iff.rfl
  rw [hcast, hpower, mul_right_comm]
  exact mul_le_mul_iff_left₀ hpos

/-- powers of ten and of two, compared by how many figures at most so many bits make -/
theorem ten_zpow_le_two_zpow {a b : Int} (bits figures : Nat) (hbits : bits ≠ 0) (h : bits * a ≤ figures * b)
    (hunit : ((10 : ℚ) ^ figures) ^ b ≤ (2 ^ bits) ^ b) : (10 : ℚ) ^ a ≤ 2 ^ b := by
  refine le_of_pow_le_pow_left₀ hbits (two_zpow_pos _).le ?_
  calc ((10 : ℚ) ^ a) ^ bits = 10 ^ (bits * a) := by rw [← zpow_natCast, ← zpow_mul, mul_comm]
    _ ≤ 10 ^ (figures * b) := zpow_le_zpow_right₀ (by decide) h
    _ = (10 ^ figures) ^ b := by rw [zpow_mul, zpow_natCast]
    _ ≤ (2 ^ bits) ^ b := hunit
    _ = (2 ^ b) ^ bits := by rw [← zpow_natCast, ← zpow_natCast, ← zpow_mul, ← zpow_mul, mul_comm]

/-- ten bits are more than three figures -/
theorem ten_zpow_le_of_nonneg {a b : Int} (hb : 0 ≤ b) (h : 10 * a ≤ 3 * b) : (10 : ℚ) ^ a ≤ 2 ^ b :=
  ten_zpow_le_two_zpow 10 3 (by decide) h (zpow_le_zpow_left₀ hb (by norm_num) (by norm_num))

/-- ninety-three bits are less than twenty-eight figures -/
theorem ten_zpow_le_of_nonpos {a b : Int} (hb : b ≤ 0) (h : 93 * a ≤ 28 * b) : (10 : ℚ) ^ a ≤ 2 ^ b := by
  refine ten_zpow_le_two_zpow 93 28 (by decide) h ?_
  obtain ⟨j, rfl⟩ : ∃ j : Nat, b = -(j : Int) := ⟨(-b).toNat, by omega⟩
  rw [zpow_neg, zpow_neg, zpow_natCast, zpow_natCast]
  exact inv_anti₀ (by positivity) (pow_le_pow_left₀ (by positivity) (by norm_num) j)

/-- two powers of ten below the guess are small enough -/
theorem ten_zpow_guess_le {length : Int} (hleast : -1100 ≤ length) (hmost : length ≤ 1100) :
    (10 : ℚ) ^ (length * 30103 / 100000 - 2) ≤ 2 ^ (length - 1) := by
  rcases le_total 0 (length - 1) with hsign | hsign
  · exact ten_zpow_le_of_nonneg hsign (by omega)
  · exact ten_zpow_le_of_nonpos hsign (by omega)

/-- the leading figure of a quotient does not lie above it -/
theorem leadingExponent_le {n d : Nat} (hn : 0 < n) (hd : 0 < d) (hleast : -1100 ≤ (n.log2 : Int) - d.log2)
    (hmost : (n.log2 : Int) - d.log2 ≤ 1100) : (10 : ℚ) ^ leadingExponent n d ≤ n / d := by
  unfold leadingExponent
  dsimp only
  generalize htries : [((n.log2 : Int) - d.log2) * 30103 / 100000 + 2, ((n.log2 : Int) - d.log2) * 30103 / 100000 + 1,
    ((n.log2 : Int) - d.log2) * 30103 / 100000, ((n.log2 : Int) - d.log2) * 30103 / 100000 - 1] = tries
  cases hfound : tries.find? (reaches n d) with
  | some k => exact (reaches_iff hd k).1 (List.find?_some hfound)
  | none => exact (ten_zpow_guess_le hleast hmost).trans (quotient_between hn hd).1.le

/-! ## Grids -/

theorem inUnits_eq (n d : Nat) (k : Int) : ((inUnits n d k).1 : ℚ) / (inUnits n d k).2 = n / d / 10 ^ k := by
  unfold inUnits
  rw [← powerOfTen_eq k]
  generalize powerOfTen k = u
  obtain ⟨a, b⟩ := u
  show ((n * b : Nat) : ℚ) / ((d * a : Nat) : ℚ) = n / d / (a / b)
  rw [Nat.cast_mul, Nat.cast_mul, div_div_div_eq]

theorem inUnits_snd_pos (n : Nat) {d : Nat} (hd : 0 < d) (k : Int) : 0 < (inUnits n d k).2 :=
  Nat.mul_pos hd (powerOfTen_pos k).1

/-- a point of a grid, compared in whole numbers with the ends of the interval -/
theorem holds_iff {v : Dyadic} (hm : v.mantissa ≠ 0) {g s t : Nat} {k : Int} (ht : 0 < t)
    (hs : (s : ℚ) / t = 2 ^ (v.exponent - 2) / 10 ^ k) :
    (Interval.around v).holds g t s = true ↔ v.Holds (g * 10 ^ k) := by
  have hpos : (0 : ℚ) < t := by exact_mod_cast ht
  have hten := ten_zpow_pos k
  have hquarter : (2 : ℚ) ^ (v.exponent - 2) = s * 10 ^ k / t := by
    rw [div_eq_div_iff hpos.ne' hten.ne'] at hs
    rw [eq_div_iff hpos.ne', hs]
  -- a number of quarters against the point
  have hle : ∀ a b : Nat, a * s ≤ b * t ↔ (a : ℚ) * 2 ^ (v.exponent - 2) ≤ b * 10 ^ k := fun a b => by
    rw [hquarter, ← mul_div_assoc, div_le_iff₀ hpos, ← mul_assoc, mul_right_comm (b : ℚ), mul_le_mul_iff_left₀ hten]
    exact_mod_cast Iff.rfl
  have hge : ∀ a b : Nat, b * t ≤ a * s ↔ (b : ℚ) * 10 ^ k ≤ a * 2 ^ (v.exponent - 2) := fun a b => by
    rw [hquarter, ← mul_div_assoc, le_div_iff₀ hpos, ← mul_assoc, mul_right_comm (b : ℚ), mul_le_mul_iff_left₀ hten]
    exact_mod_cast Iff.rfl
  have hlow : (4 * v.mantissa - v.gap : ℚ) = (4 * v.mantissa - v.gap : Nat) := by
    have := v.gap_le
    rw [Nat.cast_sub (by omega)]
    push_cast
    rfl
  have hhigh : (4 * v.mantissa + 2 : ℚ) = (4 * v.mantissa + 2 : Nat) := by
    push_cast
    rfl
  show (if decide (v.mantissa % 2 = 0) = true then
    decide ((4 * v.mantissa - v.gap) * s ≤ g * t ∧ g * t ≤ (4 * v.mantissa + 2) * s)
    else decide ((4 * v.mantissa - v.gap) * s < g * t ∧ g * t < (4 * v.mantissa + 2) * s)) = true ↔ _
  unfold Dyadic.Holds
  dsimp only
  rw [hlow, hhigh]
  by_cases heven : v.mantissa % 2 = 0
  · rw [if_pos heven, if_pos (decide_eq_true heven), decide_eq_true_iff, hle, hge]
  · rw [if_neg heven, if_neg (mt of_decide_eq_true heven), decide_eq_true_iff, ← not_le, ← not_le, ← not_le, ← not_le,
      hge, hle]

/-- the search on a grid, with the worth of a quarter on it -/
theorem onGrid?_eq (tie : Rounding.Tie) (v : Dyadic) (k : Int) :
    ∃ s t : Nat, 0 < t ∧ (s : ℚ) / t = 2 ^ (v.exponent - 2) / 10 ^ k ∧
      onGrid? tie v k =
        let nearest := Rounding.nearest tie (4 * v.mantissa * s) t
        let below := 4 * v.mantissa * s / t
        if (Interval.around v).holds nearest t s then some ⟨nearest, k⟩
        else if (Interval.around v).holds below t s then some ⟨below, k⟩
        else if (Interval.around v).holds (below + 1) t s then some ⟨below + 1, k⟩
        else none := by
  let quarter : Dyadic := ⟨false, 1, v.exponent - 2⟩
  let units := inUnits quarter.ratio.1 quarter.ratio.2 k
  refine ⟨units.1, units.2, inUnits_snd_pos _ quarter.ratio_snd_pos k, ?_, rfl⟩
  rw [inUnits_eq, Dyadic.ratio_eq, Dyadic.size, Nat.cast_one, one_mul]

/-- a point that a grid gives lies in the interval -/
theorem holds_onGrid? {tie : Rounding.Tie} {v : Dyadic} (hm : v.mantissa ≠ 0) {k : Int} {w : Decimal}
    (h : onGrid? tie v k = some w) : v.Holds w.size := by
  obtain ⟨s, t, ht, hs, hgrid⟩ := onGrid?_eq tie v k
  rw [hgrid] at h
  dsimp only at h
  split_ifs at h with hnearest hbelow habove
  all_goals
    obtain rfl := Option.some.inj h
    exact (holds_iff hm ht hs).1 ‹_›

/-- a grid finer than the interval has a point in it -/
theorem onGrid?_of_fine (tie : Rounding.Tie) {v : Dyadic} (hm : v.mantissa ≠ 0) {k : Int}
    (hfine : (10 : ℚ) ^ k < 2 * v.gap * 2 ^ (v.exponent - 2)) : (onGrid? tie v k).isSome = true := by
  obtain ⟨s, t, ht, hs, hgrid⟩ := onGrid?_eq tie v k
  obtain ⟨hlow, hhigh⟩ := Rounding.nearest_close tie (4 * v.mantissa * s) ht
  rw [hgrid]
  dsimp only
  generalize Rounding.nearest tie (4 * v.mantissa * s) t = g at hlow hhigh
  have hpos : (0 : ℚ) < t := by exact_mod_cast ht
  have hten := ten_zpow_pos k
  have hgap : (v.gap : ℚ) ≤ 2 := by exact_mod_cast v.gap_le
  have hp := two_zpow_pos (v.exponent - 2)
  -- the nearest point is at most half a unit of the grid away
  have hunit : (s : ℚ) * 10 ^ k = 2 ^ (v.exponent - 2) * t := (div_eq_div_iff hpos.ne' hten.ne').1 hs
  have hbelow : 8 * v.mantissa * (2 : ℚ) ^ (v.exponent - 2) ≤ (2 * g + 1) * 10 ^ k := by
    have hlow : 2 * (4 * v.mantissa * s : ℚ) ≤ 2 * g * t + t := by exact_mod_cast hlow
    have : 8 * v.mantissa * (2 : ℚ) ^ (v.exponent - 2) * t ≤ (2 * g + 1) * 10 ^ k * t := by nlinarith
    exact le_of_mul_le_mul_right this hpos
  have habove : 2 * g * (10 : ℚ) ^ k ≤ 8 * v.mantissa * 2 ^ (v.exponent - 2) + 10 ^ k := by
    have hhigh : 2 * (g : ℚ) * t ≤ 2 * (4 * v.mantissa * s) + t := by exact_mod_cast hhigh
    have : 2 * g * (10 : ℚ) ^ k * t ≤ (8 * v.mantissa * 2 ^ (v.exponent - 2) + 10 ^ k) * t := by nlinarith
    exact le_of_mul_le_mul_right this hpos
  have hholds : v.Holds (g * 10 ^ k) := Dyadic.holds_of_between (by nlinarith) (by nlinarith)
  rw [if_pos ((holds_iff hm ht hs).2 hholds)]
  rfl

/-! ## The shortest digits -/

/-- trailing zeros make no difference -/
theorem size_trim (fuel : Nat) (w : Decimal) : (trim fuel w).size = w.size := by
  induction fuel generalizing w with
  | zero => rfl
  | succ fuel ih =>
    rw [trim]
    split
    · rename_i hcut
      rw [ih]
      have hdigits : (w.digits : ℚ) = 10 * (w.digits / 10 : Nat) := by
        exact_mod_cast (Nat.mul_div_cancel' (Nat.dvd_of_mod_eq_zero hcut.1)).symm
      unfold size
      rw [hdigits, zpow_add₀ (by decide), zpow_one]
      ring
    · rfl

variable {v : Dyadic}

/-- the size of a double other than zero -/
theorem size_bounds (hv : v.Canonical) (hm : v.mantissa ≠ 0) :
    (2 : ℚ) ^ (-1074 : Int) ≤ v.size ∧ v.size < 2 ^ (1024 : Int) := by
  have hone : (1 : ℚ) ≤ v.mantissa := by exact_mod_cast Nat.one_le_iff_ne_zero.2 hm
  have hshort : (v.mantissa : ℚ) < 2 ^ 53 := by exact_mod_cast hv.short
  have hp := two_zpow_pos v.exponent
  unfold Dyadic.size
  constructor
  · calc (2 : ℚ) ^ (-1074 : Int) ≤ 2 ^ v.exponent := zpow_le_zpow_right₀ (by decide) hv.least
      _ ≤ v.mantissa * 2 ^ v.exponent := by nlinarith
  · calc v.mantissa * (2 : ℚ) ^ v.exponent < 2 ^ 53 * 2 ^ v.exponent := by gcongr
      _ = 2 ^ (53 + v.exponent) := by rw [zpow_add₀ (by decide)]; rfl
      _ ≤ 2 ^ (1024 : Int) := zpow_le_zpow_right₀ (by decide) (by have := hv.most; omega)

/-- sixteen figures after the leading one are finer than the interval -/
theorem ten_zpow_fine (hv : v.Canonical) {top : Int} (h : (10 : ℚ) ^ top ≤ v.size) :
    (10 : ℚ) ^ (top - 16) < 2 * v.gap * 2 ^ (v.exponent - 2) := by
  have hp := two_zpow_pos (v.exponent - 2)
  have hplace : (2 : ℚ) ^ v.exponent = 4 * 2 ^ (v.exponent - 2) := by
    rw [show v.exponent = v.exponent - 2 + 1 + 1 by omega, two_zpow_succ, two_zpow_succ]
    ring_nf
  have hfigures : (10 : ℚ) ^ top = 10 ^ 16 * 10 ^ (top - 16) := by
    rw [show top = 16 + (top - 16) by omega, zpow_add₀ (by decide)]
    ring_nf
  have hshort : (v.mantissa : ℚ) < 2 ^ 53 := by exact_mod_cast hv.short
  unfold Dyadic.size at h
  rw [hfigures, hplace] at h
  unfold Dyadic.gap
  split
  next hpower =>
    rw [hpower.1] at h
    push_cast at h ⊢
    nlinarith
  next =>
    push_cast
    nlinarith

/-- the first grid with a point in the interval is found -/
theorem exists_onGrid? (tie : Rounding.Tie) (hv : v.Canonical) (hm : v.mantissa ≠ 0) :
    ∃ w k, shortest tie v = trim 17 w ∧ onGrid? tie v k = some w := by
  have hn := Dyadic.ratio_fst_pos hm
  have hd := v.ratio_snd_pos
  obtain ⟨hlow, hhigh⟩ := quotient_between hn hd
  have hleading := leadingExponent_le hn hd
  obtain ⟨hleast, hmost⟩ := size_bounds hv hm
  rw [v.ratio_eq] at hlow hhigh hleading
  have hlength : -1100 ≤ (v.ratio.1.log2 : Int) - v.ratio.2.log2 := by
    have := (zpow_lt_zpow_iff_right₀ (by decide)).1 (hleast.trans_lt hhigh)
    omega
  have hlength' : (v.ratio.1.log2 : Int) - v.ratio.2.log2 ≤ 1100 := by
    have := (zpow_lt_zpow_iff_right₀ (by decide)).1 (hlow.trans hmost)
    omega
  unfold shortest
  dsimp only
  generalize leadingExponent v.ratio.1 v.ratio.2 = top at hleading
  have hfine := onGrid?_of_fine tie hm (ten_zpow_fine hv (hleading hlength hlength'))
  cases hfound : (List.range 17).findSome? fun figures => onGrid? tie v (top - (figures : Nat)) with
  | none =>
    have hnone := List.findSome?_eq_none_iff.1 hfound 16 (by simp)
    rw [Nat.cast_ofNat] at hnone
    rw [hnone] at hfine
    exact absurd hfine Bool.false_ne_true
  | some w =>
    obtain ⟨figures, -, hgrid⟩ := List.exists_of_findSome?_eq_some hfound
    exact ⟨w, _, rfl, hgrid⟩

/-- **The shortest digits of a double lie in the interval around it.** -/
theorem holds_shortest (tie : Rounding.Tie) (hv : v.Canonical) (hm : v.mantissa ≠ 0) :
    v.Holds (shortest tie v).size := by
  obtain ⟨w, k, hw, hgrid⟩ := exists_onGrid? tie hv hm
  rw [hw, size_trim]
  exact holds_onGrid? hm hgrid

/-! ## Reading back -/

/-- a decimal of the interval around a double lies far within the range that powers of ten are formed in -/
theorem exponent_bounds {w : Decimal} (hv : v.Canonical) (hm : v.mantissa ≠ 0) (h : v.Holds w.size) :
    w.digits ≠ 0 ∧ w.exponent ≤ 400 ∧ -(400 + (w.digits.log2 : Int)) ≤ w.exponent := by
  obtain ⟨hlow, hhigh, -⟩ := h.ends
  have hp := two_zpow_pos (v.exponent - 2)
  have hgap : (v.gap : ℚ) ≤ 2 := by exact_mod_cast v.gap_le
  have hone : (1 : ℚ) ≤ v.mantissa := by exact_mod_cast Nat.one_le_iff_ne_zero.2 hm
  have hshort : (v.mantissa : ℚ) < 2 ^ 53 := by exact_mod_cast hv.short
  have hleast : (2 : ℚ) ^ (-1075 : Int) ≤ w.size := by
    calc (2 : ℚ) ^ (-1075 : Int) = 2 * 2 ^ (-1076 : Int) := by rw [← two_zpow_succ]; rfl
      _ ≤ 2 * 2 ^ (v.exponent - 2) := by
        have := zpow_le_zpow_right₀ (a := (2 : ℚ)) (by decide) (show -1076 ≤ v.exponent - 2 by have := hv.least; omega)
        gcongr
      _ ≤ w.size := by nlinarith
  have hmost : w.size < 2 ^ (1025 : Int) := by
    calc w.size ≤ (4 * v.mantissa + 2) * 2 ^ (v.exponent - 2) := hhigh
      _ < 2 ^ 56 * 2 ^ (v.exponent - 2) := by
        gcongr
        linarith
      _ = 2 ^ (56 + (v.exponent - 2)) := by rw [zpow_add₀ (by decide)]; rfl
      _ ≤ 2 ^ (1025 : Int) := zpow_le_zpow_right₀ (by decide) (by have := hv.most; omega)
  have hdigits : w.digits ≠ 0 := by
    intro hzero
    unfold size at hleast
    rw [hzero, Nat.cast_zero, zero_mul] at hleast
    exact absurd hleast (not_le.2 (two_zpow_pos _))
  refine ⟨hdigits, ?_, ?_⟩
  · by_contra hlarge
    have hcount : (1 : ℚ) ≤ w.digits := by exact_mod_cast Nat.one_le_iff_ne_zero.2 hdigits
    have hsize : (10 : ℚ) ^ (400 : Int) ≤ w.size := by
      calc (10 : ℚ) ^ (400 : Int) ≤ 10 ^ w.exponent := zpow_le_zpow_right₀ (by decide) (by omega)
        _ ≤ w.digits * 10 ^ w.exponent := by
          have := ten_zpow_pos w.exponent
          nlinarith
    have hpower : (2 : ℚ) ^ (1025 : Int) ≤ 10 ^ (400 : Int) := by
      have hinverse := ten_zpow_le_of_nonpos (a := -400) (b := -1025) (by decide) (by decide)
      rw [zpow_neg, zpow_neg] at hinverse
      exact (inv_le_inv₀ (ten_zpow_pos 400) (two_zpow_pos 1025)).1 hinverse
    exact absurd (hpower.trans hsize) (not_le.2 hmost)
  · by_contra hsmall
    have hcount : (w.digits : ℚ) < 2 * 10 ^ w.digits.log2 := by
      calc (w.digits : ℚ) < 2 ^ (w.digits.log2 + 1) := by exact_mod_cast Nat.lt_log2_self
        _ = 2 * 2 ^ w.digits.log2 := by rw [pow_succ, mul_comm]
        _ ≤ 2 * 10 ^ w.digits.log2 := by gcongr; norm_num
    have hsize : w.size ≤ 2 * 10 ^ (-400 : Int) := by
      calc w.digits * (10 : ℚ) ^ w.exponent
          ≤ 2 * 10 ^ w.digits.log2 * 10 ^ (-400 - (w.digits.log2 : Int)) := by
            have := zpow_le_zpow_right₀ (a := (10 : ℚ)) (by decide) (show w.exponent ≤ -400 - (w.digits.log2 : Int) by omega)
            gcongr
        _ = 2 * 10 ^ (-400 : Int) := by
            rw [mul_assoc, ← zpow_natCast, ← zpow_add₀ (by decide)]
            congr 2
            omega
    have hpower : 2 * (10 : ℚ) ^ (-400 : Int) < 2 ^ (-1075 : Int) := by
      calc 2 * (10 : ℚ) ^ (-400 : Int) ≤ 2 * 2 ^ (-1077 : Int) := by
            have := ten_zpow_le_of_nonpos (a := -400) (b := -1077) (by decide) (by decide)
            gcongr
        _ = 2 ^ (-1076 : Int) := (two_zpow_succ (-1077)).symm
        _ < 2 ^ (-1075 : Int) := zpow_lt_zpow_right₀ (by decide) (by decide)
    exact absurd (hleast.trans hsize) (not_le.2 hpower)

/-- a decimal of the interval has the bits of the dyadic number -/
theorem toFloat_of_holds {w : Decimal} (hv : v.Canonical) (hm : v.mantissa ≠ 0) (h : v.Holds w.size) :
    w.toFloat = Float.ofBits (UInt64.ofNat v.bits) := by
  obtain ⟨hdigits, hmost, hleast⟩ := exponent_bounds hv hm h
  have hpower := powerOfTen_eq w.exponent
  have hpos := (powerOfTen_pos w.exponent).2
  unfold toFloat
  rw [if_neg hdigits, if_neg (by omega), if_neg (by omega)]
  generalize powerOfTen w.exponent = u at hpower hpos
  obtain ⟨a, b⟩ := u
  refine Binary64.ofRatio_of_holds hv hm hpos ?_
  rwa [Nat.cast_mul, mul_div_assoc, hpower]

/-- **A decimal of the size of the shortest digits reads back to the double**, once the sign is put before it. -/
theorem withSign_toFloat {x : Float} (hx : x.isFinite = true) {tie : Rounding.Tie} {w : Decimal}
    (h : w.size = (if (Binary64.decode x).mantissa = 0 then ⟨0, 0⟩ else shortest tie (Binary64.decode x) : Decimal).size) :
    Binary64.withSign (Binary64.decode x).negative w.toFloat = x := by
  have hv := Binary64.canonical_decode hx
  have hbits := Binary64.withSign_bits hx
  generalize Binary64.decode x = v at h hv hbits
  split at h
  next hzero =>
    have hdigits : w.digits = 0 := by
      have hsize : (w.digits : ℚ) * 10 ^ w.exponent = 0 := by
        rw [← size, h]
        simp [size]
      rcases mul_eq_zero.1 hsize with hzero | hten
      · exact_mod_cast hzero
      · exact absurd hten (ten_zpow_pos _).ne'
    have hleast : v.exponent = -1074 := by
      have := hv.full
      omega
    have hnone : v.bits = 0 := by
      unfold Dyadic.bits
      rw [hzero, hleast]
      rfl
    rw [hnone] at hbits
    unfold toFloat
    rw [if_pos hdigits]
    exact hbits
  next hm =>
    rw [toFloat_of_holds hv hm (h ▸ holds_shortest tie hv hm)]
    exact hbits

end Decimal

end TradingRobots
