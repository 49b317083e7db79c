/-
Rounding. A number is rounded at the place that its size decides, to the nearest whole number of that place, half to even;
so what comes out depends on the number alone, and a larger one is never rounded to a smaller double. Doubles are rounded
to themselves, so the result lies on the same side of every double as the exact number does.

The operations come to an exact mantissa, or to a quotient cut off, and shift it down to the place; two bits tell where
the number lies between the mantissa and the next, and they are enough to round it.

`rounding_mono`: a larger number is not rounded to a smaller one.
`nearest_roundWithAccuracy`: a mantissa with its two bits is rounded as the number it stands for.
`nearest_add`, `nearest_sub`, `nearest_mul`, `nearest_div`: the operations give the exact number, rounded at its place.
`Nearest.mono`, `Nearest.above`, `Nearest.below`: so they keep order, and stay on the side of every double.
-/
import TradingRobots.Proofs.Number.Sizes

namespace TradingRobots

/-! ## Rounding to a whole number -/

namespace Rounding

/-- the whole number nearest to a number that is not negative, half to even -/
def even (y : ℚ) : Nat :=
  if 2 * y < 2 * ⌊y⌋₊ + 1 then ⌊y⌋₊
  else if 2 * ⌊y⌋₊ + 1 < 2 * y then ⌊y⌋₊ + 1
  else ⌊y⌋₊ + ⌊y⌋₊ % 2

theorem even_near (y : ℚ) : ⌊y⌋₊ ≤ even y ∧ even y ≤ ⌊y⌋₊ + 1 := by
  unfold even
  split_ifs <;> omega

/-- **A larger number is not rounded to a smaller one.** -/
theorem even_mono {y z : ℚ} (h : y ≤ z) : even y ≤ even z := by
  rcases Nat.lt_or_eq_of_le (Nat.floor_mono h) with hlt | heq
  · have := (even_near y).2
    have := (even_near z).1
    omega
  · unfold even
    rw [heq]
    split_ifs
    all_goals first | omega | (exfalso; linarith)

theorem even_natCast (k : Nat) : even k = k := by
  unfold even
  rw [Nat.floor_natCast, if_pos (by linarith)]

/-- the nearest whole number to a quotient -/
theorem nearest_eq_even (a : Nat) {b : Nat} (hb : 0 < b) : nearest .toEven a b = even (a / b) := by
  have hpos : (0 : ℚ) < b := by exact_mod_cast hb
  have hsplit : (b : ℚ) * (a / b : Nat) + (a % b : Nat) = a := by exact_mod_cast Nat.div_add_mod a b
  unfold even nearest
  rw [Nat.floor_div_eq_div]
  dsimp only
  generalize a / b = q at hsplit
  generalize a % b = t at hsplit
  have hlow : 2 * ((a : ℚ) / b) < 2 * q + 1 ↔ 2 * t < b := by
    rw [← mul_div_assoc, div_lt_iff₀ hpos, ← hsplit]
    constructor
    · intro h
      have : 2 * (t : ℚ) < b := by linarith
      exact_mod_cast this
    · intro h
      have : 2 * (t : ℚ) < b := by exact_mod_cast h
      linarith
  have hhigh : 2 * (q : ℚ) + 1 < 2 * ((a : ℚ) / b) ↔ b < 2 * t := by
    rw [← mul_div_assoc, lt_div_iff₀ hpos, ← hsplit]
    constructor
    · intro h
      have : (b : ℚ) < 2 * t := by linarith
      exact_mod_cast this
    · intro h
      have : (b : ℚ) < 2 * t := by exact_mod_cast h
      linarith
  simp only [hlow, hhigh]

end Rounding

namespace Binary64

open Float.Model Float.Model.UnpackedFloat
open Random.Stream (value)

/-! ## Rounding at a place -/

/-- the place at which a number is rounded: it has 53 bits above the place, and fewer at the least place only -/
structure Placed (t : Int) (x : ℚ) : Prop where
  least : -1074 ≤ t
  below : x < 2 ^ 53 * 2 ^ t
  full : t = -1074 ∨ 2 ^ 52 * 2 ^ t ≤ x

/-- a number rounded at a place -/
def rounding (t : Int) (x : ℚ) : ℚ :=
  Rounding.even (x / 2 ^ t) * 2 ^ t

variable {t s : Int} {x y : ℚ}

/-- every number has a place -/
theorem exists_placed (x : ℚ) : ∃ t, Placed t x := by
  by_cases hleast : x < 2 ^ 53 * 2 ^ (-1074 : Int)
  · exact ⟨-1074, le_rfl, hleast, .inl rfl⟩
  have hlarge := not_lt.1 hleast
  have hpos : 0 < x := lt_of_lt_of_le (by positivity) hlarge
  have hlow := Int.zpow_log_le_self (b := 2) (by decide) hpos
  have hhigh := Int.lt_zpow_succ_log_self (b := 2) (by decide) x
  generalize Int.log 2 x = k at hlow hhigh
  rw [Nat.cast_ofNat] at hlow hhigh
  have habove : -1021 < k + 1 := by
    by_contra hsmall
    have hle : (2 : ℚ) ^ (k + 1) ≤ 2 ^ (-1021 : Int) := zpow_le_zpow_right₀ (by norm_num) (by omega)
    have hplace : (2 : ℚ) ^ 53 * 2 ^ (-1074 : Int) = 2 ^ (-1021 : Int) := by
      rw [← zpow_natCast, ← zpow_add₀ (by norm_num)]
      rfl
    linarith
  refine ⟨k - 52, by omega, ?_, .inr ?_⟩
  · rw [← zpow_natCast, ← zpow_add₀ (by norm_num), show ((53 : Nat) : Int) + (k - 52) = k + 1 by omega]
    exact hhigh
  · rw [← zpow_natCast, ← zpow_add₀ (by norm_num), show ((52 : Nat) : Int) + (k - 52) = k by omega]
    exact hlow

/-- a number rounded at its place has at most 53 bits there, or is the power of two above them, -/
theorem Placed.even_le (h : Placed t x) : Rounding.even (x / 2 ^ t) ≤ 2 ^ 53 := by
  have hle : x / 2 ^ t ≤ (2 ^ 53 : Nat) := by
    rw [div_le_iff₀ (two_zpow_pos t)]
    exact_mod_cast h.below.le
  exact (Rounding.even_mono hle).trans_eq (Rounding.even_natCast _)

/-- and has them all above the least place. -/
theorem Placed.le_even (h : Placed t x) (hne : t ≠ -1074) : 2 ^ 52 ≤ Rounding.even (x / 2 ^ t) := by
  have hle : ((2 ^ 52 : Nat) : ℚ) ≤ x / 2 ^ t := by
    rw [le_div_iff₀ (two_zpow_pos t)]
    exact_mod_cast h.full.resolve_left hne
  exact (Rounding.even_natCast _).symm.le.trans (Rounding.even_mono hle)

/-- a larger number is not rounded at a lower place -/
theorem Placed.mono (hx : Placed t x) (hy : Placed s y) (h : x ≤ y) : t ≤ s := by
  by_contra hlt
  have hfull := hx.full.resolve_left (by have := hy.least; omega)
  have hplace : (2 : ℚ) ^ (s + 1) ≤ 2 ^ t := zpow_le_zpow_right₀ (by norm_num) (by omega)
  have hbelow := hy.below
  rw [two_zpow_succ] at hplace
  linarith

theorem Placed.unique (hx : Placed t x) (hy : Placed s x) : t = s :=
  le_antisymm (hx.mono hy le_rfl) (hy.mono hx le_rfl)

/-- **Rounding keeps order.** -/
theorem rounding_mono (hx : Placed t x) (hy : Placed s y) (h : x ≤ y) : rounding t x ≤ rounding s y := by
  have hpos := two_zpow_pos t
  unfold rounding
  rcases (hx.mono hy h).lt_or_eq with hlt | rfl
  · have hplace : (2 : ℚ) ^ (t + 1) ≤ 2 ^ s := zpow_le_zpow_right₀ (by norm_num) (by omega)
    have hlow : (Rounding.even (x / 2 ^ t) : ℚ) ≤ 2 ^ 53 := by exact_mod_cast hx.even_le
    have hhigh : (2 : ℚ) ^ 52 ≤ Rounding.even (y / 2 ^ s) := by
      exact_mod_cast hy.le_even (by have := hx.least; omega)
    rw [two_zpow_succ] at hplace
    calc (Rounding.even (x / 2 ^ t) : ℚ) * 2 ^ t ≤ 2 ^ 53 * 2 ^ t := by gcongr
      _ = 2 ^ 52 * (2 * 2 ^ t) := by ring
      _ ≤ Rounding.even (y / 2 ^ s) * 2 ^ s := by gcongr
  · have hle : (Rounding.even (x / 2 ^ t) : ℚ) ≤ Rounding.even (y / 2 ^ t) := by
      exact_mod_cast Rounding.even_mono (div_le_div_of_nonneg_right h hpos.le)
    exact mul_le_mul_of_nonneg_right hle hpos.le

/-- a double and a place: the double is a whole number of the place, or it is not above the least full number there -/
theorem Representable.at_place {r : ℚ} (hr : Representable r) {t : Int} :
    (∃ k : Nat, r = k * 2 ^ t) ∨ t ≠ -1074 ∧ r ≤ 2 ^ 52 * 2 ^ t := by
  obtain ⟨k, f, hk, hf, rfl⟩ := hr
  rcases le_or_gt t f with hle | hlt
  · left
    obtain ⟨j, rfl⟩ : ∃ j : Nat, f = t + j := ⟨(f - t).toNat, by omega⟩
    refine ⟨k * 2 ^ j, ?_⟩
    rw [zpow_add₀ (by norm_num), zpow_natCast]
    push_cast
    ring
  · right
    refine ⟨by omega, ?_⟩
    have hkcast : (k : ℚ) ≤ 2 ^ 53 := by exact_mod_cast hk
    have hplace : (2 : ℚ) ^ (f + 1) ≤ 2 ^ t := zpow_le_zpow_right₀ (by norm_num) (by omega)
    have hpos := two_zpow_pos f
    rw [two_zpow_succ] at hplace
    nlinarith

/-- a double is rounded to itself -/
theorem rounding_of_representable (hx : Placed t x) (h : Representable x) : rounding t x = x := by
  have hpos := two_zpow_pos t
  obtain ⟨k, rfl⟩ : ∃ k : Nat, x = k * 2 ^ t := by
    rcases h.at_place (t := t) with hwhole | ⟨hne, hle⟩
    · exact hwhole
    · exact ⟨2 ^ 52, le_antisymm (by exact_mod_cast hle) (by exact_mod_cast hx.full.resolve_left hne)⟩
  rw [rounding, mul_div_assoc, div_self hpos.ne', mul_one, Rounding.even_natCast]

/-! ## Shifting -/

/-- where a number stands between a mantissa and the next, by the two bits kept: at the mantissa, before the middle, at
it, or after it -/
def Located (em : ExtendedMantissa) (y : ℚ) : Prop :=
  match em.roundBit, em.stickyBit with
  | false, false => y = em.mantissa
  | false, true => em.mantissa < y ∧ 2 * y < 2 * em.mantissa + 1
  | true, false => 2 * y = 2 * em.mantissa + 1
  | true, true => 2 * em.mantissa + 1 < 2 * y ∧ y < em.mantissa + 1

theorem located_exact (m : Nat) : Located (.ofMantissaAndAccuracy m .exact) m := by
  show (m : ℚ) = m
  rfl

theorem Located.between {em : ExtendedMantissa} {y : ℚ} (h : Located em y) : em.mantissa ≤ y ∧ y < em.mantissa + 1 := by
  obtain ⟨m, roundBit, stickyBit⟩ := em
  cases roundBit <;> cases stickyBit <;> simp only [Located] at h ⊢ <;> constructor <;> linarith

/-- the mantissa that a number is rounded to -/
theorem Located.roundedMantissa {em : ExtendedMantissa} {y : ℚ} (h : Located em y) :
    em.roundedMantissa = Rounding.even y := by
  obtain ⟨hlow, hhigh⟩ := h.between
  have hfloor : ⌊y⌋₊ = em.mantissa := by
    rw [Nat.floor_eq_iff (le_trans (Nat.cast_nonneg _) hlow)]
    exact ⟨hlow, hhigh⟩
  unfold Rounding.even
  rw [hfloor]
  obtain ⟨m, roundBit, stickyBit⟩ := em
  cases roundBit <;> cases stickyBit <;>
    simp only [Located, ExtendedMantissa.roundedMantissa, ExtendedMantissa.accuracy, Accuracy.roundToNearestEven] at h ⊢
  · rw [if_pos (by linarith)]
  · rw [if_pos h.2]
  · rw [if_neg (by linarith), if_neg (by linarith)]
  · rw [if_neg (by linarith), if_pos h.1]

theorem Located.shiftRightOne {em : ExtendedMantissa} {y : ℚ} (h : Located em y) : Located em.shiftRightOne (y / 2) := by
  have hsplit : 2 * ((em.mantissa / 2 : Nat) : ℚ) + (em.mantissa % 2 : Nat) = em.mantissa := by
    exact_mod_cast Nat.div_add_mod em.mantissa 2
  obtain ⟨m, roundBit, stickyBit⟩ := em
  simp only [ExtendedMantissa.shiftRightOne] at hsplit ⊢
  rcases Nat.mod_two_eq_zero_or_one m with hparity | hparity <;> rw [hparity] at hsplit ⊢ <;> push_cast at hsplit <;>
    cases roundBit <;> cases stickyBit <;> simp [Located] at h ⊢ <;> first | (constructor <;> linarith) | linarith

theorem Located.shiftRight {em : ExtendedMantissa} {y : ℚ} (h : Located em y) (k : Nat) :
    Located (em >>> k) (y / 2 ^ k) := by
  show Located (k.repeat ExtendedMantissa.shiftRightOne em) (y / 2 ^ k)
  induction k with
  | zero => simpa [Nat.repeat] using h
  | succ k ih =>
    rw [Nat.repeat, pow_succ, ← div_div]
    exact ih.shiftRightOne

/-- the quotient cut off, with bits that tell the remainder -/
theorem located_quotient (a : Nat) {b : Nat} (hb : 0 < b) :
    Located (.ofMantissaAndAccuracy (a / b) (accuracyOfFraction (a % b) b)) (a / b) := by
  have hpos : (0 : ℚ) < b := by exact_mod_cast hb
  have hrest := Nat.mod_lt a hb
  have hsplit : (a : ℚ) / b = (a / b : Nat) + (a % b : Nat) / b := by
    rw [div_eq_iff hpos.ne', add_mul, div_mul_cancel₀ _ hpos.ne', mul_comm]
    exact_mod_cast (Nat.div_add_mod a b).symm
  rw [hsplit]
  generalize a / b = q
  generalize a % b = t at hrest
  by_cases hzero : t = 0
  · subst hzero
    rw [accuracyOfFraction, if_pos rfl, Nat.cast_zero, zero_div, add_zero]
    exact located_exact q
  have hlow : (0 : ℚ) < t / b := div_pos (by exact_mod_cast Nat.pos_of_ne_zero hzero) hpos
  have hhigh : (t : ℚ) / b < 1 := by
    rw [div_lt_one hpos]
    exact_mod_cast hrest
  rw [accuracyOfFraction, if_neg hzero]
  cases hcompare : compare (2 * t) b with
  | lt =>
    have hless : 2 * ((t : ℚ) / b) < 1 := by
      rw [← mul_div_assoc, div_lt_one hpos]
      exact_mod_cast compare_lt_iff_lt.1 hcompare
    constructor <;> simp only [ExtendedMantissa.ofMantissaAndAccuracy] <;> linarith
  | eq =>
    have hhalf : 2 * ((t : ℚ) / b) = 1 := by
      rw [← mul_div_assoc, div_eq_one_iff_eq hpos.ne']
      exact_mod_cast compare_eq_iff_eq.1 hcompare
    show 2 * ((q : ℚ) + t / b) = 2 * q + 1
    linarith
  | gt =>
    have hmore : 1 < 2 * ((t : ℚ) / b) := by
      rw [← mul_div_assoc, one_lt_div hpos]
      exact_mod_cast compare_gt_iff_gt.1 hcompare
    constructor <;> simp only [ExtendedMantissa.ofMantissaAndAccuracy] <;> linarith

/-- the first shift: by so many bits that 53 are left, or down to the least place -/

theorem exists_shift {m : Nat} {e : Int} {a : Accuracy} (he : e ≤ max (m.log2 + 1 + e - 53) (-1074)) :
    ∃ d : Nat, shiftToTargetExponent format m e a = (ExtendedMantissa.ofMantissaAndAccuracy m a >>> d, e + d) ∧
      m.log2 ≤ 52 + d ∧ (e + d = -1074 ∨ m.log2 = 52 + d) ∧ -1074 ≤ e + d := by
  refine ⟨(max (m.log2 + 1 + e - 53) (-1074) - e).toNat, ?_, by omega, by omega, by omega⟩
  simp only [shiftToTargetExponent, shiftToExponent, targetExponent_eq]

/-- a mantissa and an exponent as an unpacked double -/
def settled (s : Sign) (m : Nat) (e : Int) : UnpackedFloat :=
  if h : m = 0 then .zero s else .finite s m e (Nat.pos_of_ne_zero h)

theorem size_settled (s : Sign) (m : Nat) (e : Int) : size (settled s m e) = m * 2 ^ e := by
  unfold settled
  split
  next hzero => rw [hzero, size_zero, Nat.cast_zero, zero_mul]
  next => rfl

theorem rounded_settled (s : Sign) {m : Nat} {e : Int} (hm : m < 2 ^ 53) (he : -1074 ≤ e)
    (hfull : 2 ^ 52 ≤ m ∨ e = -1074) : Rounded (settled s m e) := by
  unfold settled
  split
  · trivial
  · exact ⟨hm, he, hfull⟩

/-- a rounded mantissa is already at its place, or it is the next power of two and moves up by one -/
theorem settled_again (s : Sign) {r : Nat} {t : Int} (hr : r ≤ 2 ^ 53) (ht : -1074 ≤ t)
    (hfull : t = -1074 ∨ 2 ^ 52 ≤ r) :
    let second := shiftToTargetExponent format r t .exact
    size (settled s second.1.mantissa second.2) = r * 2 ^ t ∧ Rounded (settled s second.1.mantissa second.2) := by
  intro second
  have hsnd : second.2 = max t (max (r.log2 + 1 + t - 53) (-1074)) := shiftToTargetExponent_snd r t .exact
  have hfst : second.1.mantissa = r / 2 ^ (max (r.log2 + 1 + t - 53) (-1074) - t).toNat := by
    simp only [second, shiftToTargetExponent, shiftToExponent, targetExponent_eq, mantissa_shiftRight]
    rfl
  rw [size_settled]
  rcases Nat.lt_or_eq_of_le hr with hlt | rfl
  · have hlog : r.log2 ≤ 52 := by
      rcases Nat.eq_zero_or_pos r with rfl | hpos
      · decide
      · have := (Nat.log2_lt (k := 53) (Nat.ne_of_gt hpos)).2 hlt
        omega
    rw [show (max (r.log2 + 1 + t - 53) (-1074) - t).toNat = 0 by omega, pow_zero, Nat.div_one] at hfst
    rw [hfst, show second.2 = t by omega]
    exact ⟨rfl, rounded_settled s hlt ht hfull.symm⟩
  · have hlog : (2 ^ 53).log2 = 53 := by decide
    rw [hlog] at hsnd hfst
    rw [show (max (((53 : Nat) : Int) + 1 + t - 53) (-1074) - t).toNat = 1 by omega] at hfst
    rw [hfst, show second.2 = t + 1 by omega, two_zpow_succ]
    refine ⟨by push_cast; ring, rounded_settled s (by decide) (by omega) (.inl (by decide))⟩

/-! ## Results of rounding -/

/-- a result of rounding: a double, and the exact number rounded at its place -/
structure Nearest (u : UnpackedFloat) (x : ℚ) : Prop where
  rounded : Rounded u
  placed : ∃ t, Placed t x ∧ size u = rounding t x

variable {u v : UnpackedFloat}

/-- **Results of larger numbers are not smaller.** -/
theorem Nearest.mono (hu : Nearest u x) (hv : Nearest v y) (h : x ≤ y) : size u ≤ size v := by
  obtain ⟨t, hx, hsizex⟩ := hu.placed
  obtain ⟨s, hy, hsizey⟩ := hv.placed
  rw [hsizex, hsizey]
  exact rounding_mono hx hy h

theorem Nearest.exact (hu : Nearest u x) (hx : Representable x) : size u = x := by
  obtain ⟨t, hplaced, hsize⟩ := hu.placed
  rw [hsize, rounding_of_representable hplaced hx]

/-- a result lies on the same side of every double as the exact number -/
theorem Nearest.above (hu : Nearest u x) (r : ℚ) (hr : Representable r) (h : r ≤ x) : r ≤ size u := by
  obtain ⟨t, hx, hsize⟩ := hu.placed
  obtain ⟨s, hplaced⟩ := exists_placed r
  rw [hsize, ← rounding_of_representable hplaced hr]
  exact rounding_mono hplaced hx h

theorem Nearest.below (hu : Nearest u x) (r : ℚ) (hr : Representable r) (h : x ≤ r) : size u ≤ r := by
  obtain ⟨t, hx, hsize⟩ := hu.placed
  obtain ⟨s, hplaced⟩ := exists_placed r
  rw [hsize, ← rounding_of_representable hplaced hr]
  exact rounding_mono hx hplaced h

/-- a double is its own result -/
theorem nearest_self (hu : Rounded u) : Nearest u (size u) := by
  obtain ⟨t, ht⟩ := exists_placed (size u)
  exact ⟨hu, t, ht, (rounding_of_representable ht hu.representable).symm⟩

/-- the number that is rounded has the first shift's place -/
theorem placed_first {m d : Nat} {e : Int} {a : Accuracy} {y : ℚ} (hy : Located (.ofMantissaAndAccuracy m a) y)
    (hshort : m.log2 ≤ 52 + d) (hfull : e + d = -1074 ∨ m.log2 = 52 + d) (hleast : -1074 ≤ e + d) :
    Placed (e + d) (y / 2 ^ d * 2 ^ (e + d)) := by
  have hpos := two_zpow_pos (e + d)
  have hmantissa : (ExtendedMantissa.ofMantissaAndAccuracy m a).mantissa = m := by
    cases a with
    | exact => rfl
    | inexact o => cases o <;> rfl
  refine ⟨hleast, mul_lt_mul_of_pos_right ?_ hpos, hfull.imp_right fun hlog => ?_⟩
  · have hbelow := (hy.shiftRight d).between.2
    rw [mantissa_shiftRight, hmantissa] at hbelow
    have hle : ((m / 2 ^ d : Nat) : ℚ) + 1 ≤ 2 ^ 53 := by exact_mod_cast div_lt_of_log2 hshort
    exact lt_of_lt_of_le hbelow hle
  · have hm : m ≠ 0 := by
      rintro rfl
      rw [Nat.log2_zero] at hlog
      omega
    have hkept := hy.between.1
    rw [hmantissa] at hkept
    have hlow : (2 : ℚ) ^ (52 + d) ≤ m := by exact_mod_cast hlog ▸ Nat.log2_self_le hm
    refine mul_le_mul_of_nonneg_right ?_ hpos.le
    rw [le_div_iff₀ (by positivity), ← pow_add]
    exact hlow.trans hkept

/-- **A mantissa with its two bits is rounded as the number it stands for.** -/
theorem nearest_roundWithAccuracy (s : Sign) {m : Nat} {e : Int} {a : Accuracy} {y : ℚ}
    (hy : Located (.ofMantissaAndAccuracy m a) y) (he : e ≤ max (m.log2 + 1 + e - 53) (-1074)) :
    Nearest (roundWithAccuracy format s m e a) (y * 2 ^ e) := by
  obtain ⟨d, hshift, hshort, hfull, hleast⟩ := exists_shift (a := a) he
  have hplaced := placed_first hy hshort hfull hleast
  -- the exact number in units of the place that it is rounded at
  have hunits : y * 2 ^ e = y / 2 ^ d * 2 ^ (e + d) := by
    rw [zpow_add₀ (by norm_num), zpow_natCast]
    field_simp
  have hrounded : (ExtendedMantissa.ofMantissaAndAccuracy m a >>> d).roundedMantissa =
      Rounding.even (y / 2 ^ d * 2 ^ (e + d) / 2 ^ (e + d)) := by
    rw [mul_div_assoc, div_self (two_zpow_pos _).ne', mul_one]
    exact (hy.shiftRight d).roundedMantissa
  rw [hunits]
  generalize y / 2 ^ d * 2 ^ (e + d) = x at hplaced hrounded
  obtain ⟨hsize, hform⟩ := settled_again s (hrounded.trans_le hplaced.even_le) hleast
    (or_iff_not_imp_left.2 fun hne => hrounded ▸ hplaced.le_even hne)
  have hresult : roundWithAccuracy format s m e a = settled s
      (shiftToTargetExponent format (ExtendedMantissa.ofMantissaAndAccuracy m a >>> d).roundedMantissa (e + d)
        .exact).1.mantissa
      (shiftToTargetExponent format (ExtendedMantissa.ofMantissaAndAccuracy m a >>> d).roundedMantissa (e + d)
        .exact).2 := by
    unfold roundWithAccuracy
    rw [hshift]
    rfl
  rw [hresult]
  refine ⟨hform, e + d, hplaced, ?_⟩
  rw [hsize, hrounded]
  rfl

/-- lowering an exponent keeps the number -/
theorem decreaseExponent_eq (m : Nat) (e t : Int) :
    ((decreaseExponent m e t).1 : ℚ) * 2 ^ (decreaseExponent m e t).2 = m * 2 ^ e := by
  simp only [decreaseExponent, Nat.shiftLeft_eq, Nat.cast_mul, Nat.cast_pow, Nat.cast_ofNat]
  rw [mul_assoc, ← zpow_natCast, ← zpow_add₀ (by norm_num)]
  congr 2
  omega

theorem nearest_round (s : Sign) {m : Nat} (e : Int) (hm : 0 < m) :
    Nearest (UnpackedFloat.round format s m e) (m * 2 ^ e) := by
  have hlog := log2_shiftLeft (Nat.ne_of_gt hm) (e - max (m.log2 + 1 + e - 53) (-1074)).toNat
  rw [← decreaseExponent_eq m e (max (m.log2 + 1 + e - 53) (-1074))]
  unfold UnpackedFloat.round
  simp only [targetExponent_eq]
  refine nearest_roundWithAccuracy s (located_exact _) ?_
  simp only [decreaseExponent, hlog]
  omega

/-- a number that is not negative, rounded -/
theorem nearest_normalize (m : Nat) (e : Int) :
    Nearest (UnpackedFloat.normalize format m e .positive) (m * 2 ^ e) := by
  rcases Nat.eq_zero_or_pos m with rfl | hm
  · rw [show ((0 : Nat) : ℚ) * 2 ^ e = 0 by simp]
    exact nearest_self (u := .zero .positive) trivial
  · unfold UnpackedFloat.normalize
    rw [show compare (m : Int) 0 = .gt from Int.compare_eq_gt.2 (by omega), Int.toNat_natCast]
    exact nearest_round .positive e hm

/-! ## Operations -/

theorem value_div (x y : Float) : value (x / y) = stored (UnpackedFloat.div format (value x) (value y)) := rfl

/-- two numbers are whole numbers of the lower of their places, where they are added and subtracted -/
theorem exists_common {m k : Nat} {e f : Int} (hm : 0 < m) (hk : 0 < k) :
    ∃ a b : Nat, (a : ℚ) * 2 ^ min e f = m * 2 ^ e ∧ (b : ℚ) * 2 ^ min e f = k * 2 ^ f ∧
      UnpackedFloat.add format (.finite .positive m e hm) (.finite .positive k f hk) =
        UnpackedFloat.normalize format ((a : Int) + b) (min e f) .positive ∧
      UnpackedFloat.sub format (.finite .positive m e hm) (.finite .positive k f hk) =
        UnpackedFloat.normalize format ((a : Int) - b) (min e f) .positive := by
  have hfirst := decreaseExponent_eq m e (min e f)
  have hsecond := decreaseExponent_eq k f (min e f)
  have hplaces : (decreaseExponent m e (min e f)).2 = min e f ∧ (decreaseExponent k f (min e f)).2 = min e f := by
    simp only [decreaseExponent]
    omega
  rw [hplaces.1] at hfirst
  rw [hplaces.2] at hsecond
  exact ⟨_, _, hfirst, hsecond, rfl, rfl⟩

/-- **A sum, rounded.** -/
theorem nearest_add (hu : Amount u) (hv : Amount v) : Nearest (UnpackedFloat.add format u v) (size u + size v) := by
  obtain ⟨hu, hpu⟩ := hu
  obtain ⟨hv, hpv⟩ := hv
  cases u with
  | zero s =>
    rw [size_zero, zero_add]
    cases v with
    | zero t =>
      cases hpu
      cases hpv
      exact nearest_self hv
    | finite t k f hk => exact nearest_self hv
    | _ => exact absurd hv id
  | finite s m e hm =>
    cases v with
    | zero t =>
      rw [size_zero, add_zero]
      exact nearest_self hu
    | finite t k f hk =>
      cases hpu
      cases hpv
      obtain ⟨a, b, ha, hb, hadd, -⟩ := exists_common hm hk
      have hsum := nearest_normalize (a + b) (min e f)
      push_cast at hsum
      rw [size_finite, size_finite, ← ha, ← hb, ← add_mul, hadd]
      exact hsum
    | _ => exact absurd hv id
  | _ => exact absurd hu id

/-- **A difference, rounded**, when it is not negative. -/
theorem nearest_sub (hu : Amount u) (hv : Amount v) (h : size v ≤ size u) :
    Nearest (UnpackedFloat.sub format u v) (size u - size v) ∧ NonNegative (UnpackedFloat.sub format u v) := by
  obtain ⟨hu, hpu⟩ := hu
  obtain ⟨hv, hpv⟩ := hv
  cases v with
  | zero t =>
    rw [size_zero, sub_zero]
    cases hpv
    cases u with
    | zero s =>
      cases hpu
      exact ⟨nearest_self hu, rfl⟩
    | finite s m e hm => exact ⟨nearest_self hu, hpu⟩
    | _ => exact absurd hu id
  | finite t k f hk =>
    cases hpv
    cases u with
    | zero s =>
      have hpos : (0 : ℚ) < k * 2 ^ f := mul_pos (by exact_mod_cast hk) (two_zpow_pos f)
      rw [size_finite, size_zero] at h
      exact absurd h (not_le.2 hpos)
    | finite s m e hm =>
      cases hpu
      obtain ⟨a, b, ha, hb, -, hsub⟩ := exists_common (e := e) (f := f) hm hk
      rw [size_finite, size_finite, ← ha, ← hb] at h ⊢
      have hle : b ≤ a := by exact_mod_cast le_of_mul_le_mul_right h (two_zpow_pos _)
      have hdifference := nearest_normalize (a - b) (min e f)
      rw [Nat.cast_sub hle, Nat.cast_sub hle, sub_mul] at hdifference
      rw [hsub]
      exact ⟨hdifference, nonNegative_normalize _ (by omega)⟩
    | _ => exact absurd hu id
  | _ => exact absurd hv id

/-- a difference below zero has its sign -/
theorem signOf?_sub (hu : Amount u) (hv : Amount v) (h : size u < size v) :
    signOf? (UnpackedFloat.sub format u v) = some .negative := by
  obtain ⟨hu, hpu⟩ := hu
  obtain ⟨hv, hpv⟩ := hv
  cases v with
  | zero t => exact absurd (size_nonneg u) (not_le.2 h)
  | finite t k f hk =>
    cases hpv
    cases u with
    | zero s => rfl
    | finite s m e hm =>
      cases hpu
      obtain ⟨a, b, ha, hb, -, hsub⟩ := exists_common (e := e) (f := f) hm hk
      rw [size_finite, size_finite, ← ha, ← hb] at h
      have hlt : a < b := by exact_mod_cast lt_of_mul_lt_mul_right h (two_zpow_pos _).le
      rw [hsub, UnpackedFloat.normalize, show compare ((a : Int) - b) 0 = .lt from Int.compare_eq_lt.2 (by omega)]
      exact signOf?_round _ _ _
    | _ => exact absurd hu id
  | _ => exact absurd hv id

/-- **A product, rounded.** -/
theorem nearest_mul (hu : Amount u) (hv : Amount v) :
    Nearest (UnpackedFloat.mul format u v) (size u * size v) ∧ NonNegative (UnpackedFloat.mul format u v) := by
  obtain ⟨hu, hpu⟩ := hu
  obtain ⟨hv, hpv⟩ := hv
  cases u with
  | zero s =>
    cases hpu
    rw [size_zero, zero_mul]
    cases v with
    | zero t =>
      cases hpv
      exact ⟨nearest_self (u := .zero .positive) trivial, rfl⟩
    | finite t k f hk =>
      cases hpv
      exact ⟨nearest_self (u := .zero .positive) trivial, rfl⟩
    | _ => exact absurd hv id
  | finite s m e hm =>
    cases hpu
    cases v with
    | zero t =>
      cases hpv
      rw [size_zero, mul_zero]
      exact ⟨nearest_self (u := .zero .positive) trivial, rfl⟩
    | finite t k f hk =>
      cases hpv
      have hplace : e + f ≤ max ((m * k).log2 + 1 + (e + f) - 53) (-1074) := by
        by_cases hleast : e + f ≤ -1074
        · omega
        · -- one of the factors is above the least place, so it has all its bits
          have hlog : 52 ≤ (m * k).log2 := by
            rw [Nat.le_log2 (Nat.mul_ne_zero (Nat.ne_of_gt hm) (Nat.ne_of_gt hk))]
            rcases hu.2.2 with hfull | hfull
            · exact hfull.trans (Nat.le_mul_of_pos_right m hk)
            · refine (hv.2.2.resolve_right ?_).trans (Nat.le_mul_of_pos_left k hm)
              omega
          omega
      have hproduct := nearest_roundWithAccuracy (.positive * .positive) (located_exact (m * k)) hplace
      rw [zpow_add₀ (by norm_num), Nat.cast_mul, mul_mul_mul_comm] at hproduct
      exact ⟨hproduct, signOf?_roundWithAccuracy _ _ _ _⟩
    | _ => exact absurd hv id
  | _ => exact absurd hu id

/-- the quotient before it is rounded, in a unit that leaves enough bits -/
theorem located_divCore {m k : Nat} {e f : Int} (hm : 0 < m) (hk : 0 < k) :
    let q := divCore format m e k f
    (∃ y : ℚ, Located (.ofMantissaAndAccuracy q.1 q.2.2) y ∧ y * 2 ^ q.2.1 = m * 2 ^ e / (k * 2 ^ f)) ∧
      q.2.1 ≤ max (q.1.log2 + 1 + q.2.1 - 53) (-1074) := by
  intro q
  have htarget : format.targetExponent (totalExponent m e - totalExponent k f) =
      max (m.log2 - k.log2 + e - f - 53) (-1074) := by
    simp [Format.targetExponent, totalExponent, Format.mantissaBits, Format.minExponent]
    omega
  obtain ⟨d, hd⟩ : ∃ d : Nat, e - f - min (e - f) (max (m.log2 - k.log2 + e - f - 53) (-1074)) = d :=
    ⟨_, (Int.toNat_of_nonneg (by omega)).symm⟩
  have hq : q = ((m <<< d) / k, e - f - d, accuracyOfFraction ((m <<< d) % k) k) := by
    simp only [q, divCore, htarget]
    rw [show (e - f - min (e - f) (max (m.log2 - k.log2 + e - f - 53) (-1074))).toNat = d by omega,
      show min (e - f) (max (m.log2 - k.log2 + e - f - 53) (-1074)) = e - f - d by omega]
  rw [hq]
  dsimp only
  constructor
  · refine ⟨_, located_quotient (m <<< d) hk, ?_⟩
    have hkpos : (k : ℚ) ≠ 0 := by exact_mod_cast Nat.ne_of_gt hk
    rw [Nat.shiftLeft_eq, zpow_sub₀ (by norm_num), zpow_sub₀ (by norm_num), zpow_natCast]
    push_cast
    field_simp
  · by_cases hleast : e - f - d ≤ -1074
    · omega
    · have hbits : 2 ^ 52 ≤ (m <<< d) / k := by
        rw [Nat.le_div_iff_mul_le hk, Nat.shiftLeft_eq]
        calc 2 ^ 52 * k ≤ 2 ^ 52 * 2 ^ (k.log2 + 1) := Nat.mul_le_mul_left _ Nat.lt_log2_self.le
          _ = 2 ^ (52 + (k.log2 + 1)) := (Nat.pow_add _ _ _).symm
          _ ≤ 2 ^ (m.log2 + d) := Nat.pow_le_pow_right (by decide) (by omega)
          _ = 2 ^ m.log2 * 2 ^ d := Nat.pow_add _ _ _
          _ ≤ m * 2 ^ d := Nat.mul_le_mul_right _ (Nat.log2_self_le (Nat.ne_of_gt hm))
      have := (Nat.le_log2 (by omega)).2 hbits
      omega

/-- **A quotient, rounded.** -/
theorem nearest_div (hu : Amount u) (hv : Amount v) (h : 0 < size v) :
    Nearest (UnpackedFloat.div format u v) (size u / size v) ∧ NonNegative (UnpackedFloat.div format u v) := by
  obtain ⟨hu, hpu⟩ := hu
  obtain ⟨hv, hpv⟩ := hv
  cases v with
  | zero t => exact absurd h (lt_irrefl 0)
  | finite t k f hk =>
    cases hpv
    cases u with
    | zero s =>
      cases hpu
      rw [size_zero, zero_div]
      exact ⟨nearest_self (u := .zero .positive) trivial, rfl⟩
    | finite s m e hm =>
      cases hpu
      obtain ⟨⟨y, hy, hquotient⟩, hplace⟩ := located_divCore (e := e) (f := f) hm hk
      rw [size_finite, size_finite, ← hquotient]
      exact ⟨nearest_roundWithAccuracy _ hy hplace, signOf?_roundWithAccuracy _ _ _ _⟩
    | _ => exact absurd hu id
  | _ => exact absurd hv id

theorem value_two : value 2.0 = .finite .positive (2 ^ 52) (-51) (by decide) := rfl

theorem size_two : size (value 2.0) = 2 := by
  rw [value_two, size_finite]
  norm_num

/-- **A half, rounded.** -/
theorem nearest_half (hu : Amount u) :
    Nearest (UnpackedFloat.div format u (value 2.0)) (size u / 2) ∧
      NonNegative (UnpackedFloat.div format u (value 2.0)) := by
  have htwo : Amount (value 2.0) := ⟨⟨by decide, by decide, .inl (by decide)⟩, rfl⟩
  have hhalf := nearest_div hu htwo (by rw [size_two]; norm_num)
  rwa [size_two] at hhalf

end Binary64

end TradingRobots
