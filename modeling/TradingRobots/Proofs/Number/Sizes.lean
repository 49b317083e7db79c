/-
Doubles by their sizes. A finite double has at most 53 bits above the least place, and all of them unless its place is the
least. A number in this form is stored as it is, unless it is too large, and then as infinity.

Of two places with all bits in use the higher one has the larger numbers, so doubles that are not negative are compared by
their sizes, and what is not larger than a double that can be stored can be stored.

`le_of_size_le`, `lt_of_size_lt`: doubles are compared by their sizes.
`stored_of_fits`, `stored_of_not_fits`: what fits is stored as it is, and the rest as infinity.
`fits_of_size_le`: smaller numbers fit.
`add_comm`: a sum does not depend on the order.
-/
import TradingRobots.Proofs.Number.Nearest

namespace TradingRobots.Binary64

open Float.Model Float.Model.UnpackedFloat
open Random.Stream (value)

/-! ## Sizes -/

/-- the size of an unpacked double: the number it stands for, without the sign; the size of what is not finite means
nothing -/
def size : UnpackedFloat → ℚ
  | .finite _ m e _ => m * 2 ^ e
  | _ => 0

theorem size_finite (s : Sign) (m : Nat) (e : Int) (hm : 0 < m) : size (.finite s m e hm) = m * 2 ^ e := rfl

theorem size_zero (s : Sign) : size (.zero s) = 0 := rfl

theorem size_nonneg (u : UnpackedFloat) : 0 ≤ size u := by
  cases u with
  | finite s m e hm => exact mul_nonneg (Nat.cast_nonneg m) (two_zpow_pos e).le
  | _ => exact le_refl 0

/-- a number that is a double unless it is too large: at most 53 bits, none below the least place -/
def Representable (x : ℚ) : Prop :=
  ∃ (m : Nat) (e : Int), m ≤ 2 ^ 53 ∧ -1074 ≤ e ∧ x = m * 2 ^ e

/-- a finite unpacked double as rounding leaves it: all 53 bits are used, or the place is the least; the exponent may be
too large to be packed -/
def Rounded : UnpackedFloat → Prop
  | .zero _ => True
  | .finite _ m e _ => m < 2 ^ 53 ∧ -1074 ≤ e ∧ (2 ^ 52 ≤ m ∨ e = -1074)
  | _ => False

theorem Rounded.representable {u : UnpackedFloat} (h : Rounded u) : Representable (size u) := by
  cases u with
  | zero s => exact ⟨0, 0, Nat.zero_le _, by decide, by simp [size]⟩
  | finite s m e hm => exact ⟨m, e, h.1.le, h.2.1, rfl⟩
  | _ => exact absurd h id

theorem Representable.double {x : ℚ} (h : Representable x) : Representable (2 * x) := by
  obtain ⟨m, e, hm, he, rfl⟩ := h
  refine ⟨m, e + 1, hm, by omega, ?_⟩
  rw [two_zpow_succ]
  ring

/-- numbers of one form, the higher exponent first: one of a higher place is larger -/
theorem size_lt_of_exponent_lt {m k : Nat} {e f : Int} (hm : m < 2 ^ 53) (hk : 2 ^ 52 ≤ k) (h : e < f) :
    (m : ℚ) * 2 ^ e < k * 2 ^ f := by
  have hmcast : (m : ℚ) < 2 ^ 53 := by exact_mod_cast hm
  have hkcast : (2 : ℚ) ^ 52 ≤ k := by exact_mod_cast hk
  have hplace : (2 : ℚ) ^ (e + 1) ≤ 2 ^ f := zpow_le_zpow_right₀ (by norm_num) (by omega)
  have hpos := two_zpow_pos e
  rw [two_zpow_succ] at hplace
  nlinarith

/-! ## Comparisons -/

variable {u v : UnpackedFloat}

/-- the exponent or the mantissa of a larger number is not smaller -/
theorem not_gt_of_size_le {m k : Nat} {e f : Int} {s t : Sign} {hm : 0 < m} {hk : 0 < k}
    (hu : Rounded (.finite s m e hm)) (hv : Rounded (.finite t k f hk))
    (h : size (.finite s m e hm) ≤ size (.finite t k f hk)) : ¬(f < e ∨ e = f ∧ k < m) := by
  rw [size_finite, size_finite] at h
  rintro (hlt | ⟨rfl, hlt⟩)
  · have hfull : 2 ^ 52 ≤ m := by
      apply hu.2.2.resolve_right
      have := hv.2.1
      omega
    exact absurd (size_lt_of_exponent_lt hv.1 hfull hlt) (not_lt.2 h)
  · have hcast : (k : ℚ) < m := by exact_mod_cast hlt
    exact absurd (mul_lt_mul_of_pos_right hcast (two_zpow_pos e)) (not_lt.2 h)

/-- **Doubles that are not negative are compared by their sizes.** -/
theorem le_of_size_le (hu : Rounded u) (hv : Rounded v) (hpu : NonNegative u) (hpv : NonNegative v)
    (h : size u ≤ size v) : u.le v = true := by
  cases u with
  | zero s =>
    cases v with
    | zero t => rfl
    | finite t k f hk =>
      cases hpv
      rfl
    | _ => exact absurd hv id
  | finite s m e hm =>
    cases hpu
    cases v with
    | zero t =>
      have hpos : (0 : ℚ) < m * 2 ^ e := mul_pos (by exact_mod_cast hm) (two_zpow_pos e)
      rw [size_finite, size_zero] at h
      exact absurd h (not_le.2 hpos)
    | finite t k f hk =>
      cases hpv
      have hnot := not_gt_of_size_le hu hv h
      have hcompare : (compare e f).then (compare m k) ≠ .gt := by
        rw [Ne, Ordering.then_eq_gt, compare_gt_iff_gt, compare_eq_iff_eq, compare_gt_iff_gt]
        exact hnot
      show ((compare e f).then (compare m k)).isLE = true
      generalize (compare e f).then (compare m k) = o at hcompare
      cases o with
      | gt => exact absurd rfl hcompare
      | _ => rfl
    | _ => exact absurd hv id
  | _ => exact absurd hu id

theorem lt_of_size_lt (hu : Rounded u) (hv : Rounded v) (hpu : NonNegative u) (hpv : NonNegative v)
    (h : size u < size v) : u.lt v = true := by
  cases u with
  | zero s =>
    cases v with
    | zero t => exact absurd h (lt_irrefl 0)
    | finite t k f hk =>
      cases hpv
      rfl
    | _ => exact absurd hv id
  | finite s m e hm =>
    cases hpu
    cases v with
    | zero t => exact absurd (size_nonneg _) (not_le.2 h)
    | finite t k f hk =>
      cases hpv
      have hnot := not_gt_of_size_le hu hv h.le
      have hne : ¬(e = f ∧ m = k) := by
        rintro ⟨rfl, rfl⟩
        exact lt_irrefl _ h
      have hcompare : (compare e f).then (compare m k) = .lt := by
        rw [Ordering.then_eq_lt, compare_lt_iff_lt, compare_eq_iff_eq, compare_lt_iff_lt]
        omega
      simp [UnpackedFloat.lt, UnpackedFloat.compare, hcompare]
    | _ => exact absurd hv id
  | _ => exact absurd hu id

/-- an unpacked double that can be compared and rounded on: finite, not negative, and in the form rounding leaves -/
structure Amount (u : UnpackedFloat) : Prop where
  rounded : Rounded u
  nonNegative : NonNegative u

/-! ## Storing -/

/-- what rounding leaves is stored as it is, unless it is too large -/
theorem stored_of_fits (hu : Rounded u) (h : Fits u) : stored u = u := by
  -- it is what some fields stand for
  suffices hfields : ∃ (s : Sign) (e : BitVec 11) (m : BitVec 52),
      UnpackedFloat.unpack format (packComponents format s e m) = u by
    obtain ⟨s, e, m, rfl⟩ := hfields
    exact stored_packComponents s e m
  cases u with
  | zero s =>
    refine ⟨s, 0#11, 0#52, ?_⟩
    rw [unpack_packComponents s _ zeroField_ne, if_pos rfl, dif_pos rfl]
  | finite s m e hm =>
    obtain ⟨hshort, hleast, hform⟩ := hu
    have hmost : e < 972 := h
    by_cases hfull : 2 ^ 52 ≤ m
    · have hfield : (BitVec.ofNat 11 (e + 1075).toNat).toNat = (e + 1075).toNat := by
        rw [BitVec.toNat_ofNat, Nat.mod_eq_of_lt (by omega)]
      have hplain : BitVec.ofNat 11 (e + 1075).toNat ≠ -1#11 := by
        intro hspecial
        rw [hspecial] at hfield
        simp at hfield
        omega
      have hnormal : BitVec.ofNat 11 (e + 1075).toNat ≠ 0#11 := by
        intro hzero
        rw [hzero] at hfield
        simp at hfield
        omega
      refine ⟨s, BitVec.ofNat 11 (e + 1075).toNat, BitVec.ofNat 52 m, ?_⟩
      rw [unpack_packComponents s _ hplain, if_neg hnormal]
      congr 1
      · rw [toNat_fraction, BitVec.toNat_ofNat]
        omega
      · omega
    · obtain rfl := hform.resolve_left hfull
      have hbits : (BitVec.ofNat 52 m).toNat = m := by
        rw [BitVec.toNat_ofNat, Nat.mod_eq_of_lt (by omega)]
      have hsome : BitVec.ofNat 52 m ≠ 0#52 := by
        intro hzero
        rw [hzero] at hbits
        simp at hbits
        omega
      refine ⟨s, 0#11, BitVec.ofNat 52 m, ?_⟩
      rw [unpack_packComponents s _ zeroField_ne, if_pos rfl, dif_neg hsome]
      congr 1
  | _ => exact absurd hu id

/-- what is too large is stored as infinity -/
theorem stored_of_not_fits (hu : Rounded u) (hpu : NonNegative u) (h : ¬Fits u) : stored u = .infinity .positive := by
  cases u with
  | zero s => exact absurd trivial h
  | finite s m e hm =>
    cases hpu
    rw [stored, pack_of_not_fits _ hm h]
    exact stored_infinity .positive
  | _ => exact absurd hu id

/-- fields of a finite double stand for a number as rounding leaves it, and one that fits -/
theorem rounded_fields (s : Sign) {e : BitVec 11} (m : BitVec 52) (hplain : e ≠ -1#11) :
    Rounded (UnpackedFloat.unpack format (packComponents format s e m)) ∧
      Fits (UnpackedFloat.unpack format (packComponents format s e m)) := by
  have hlt := e.isLt
  have hm := m.isLt
  have hlow : e.toNat ≠ 2047 := fun hfield => hplain (BitVec.eq_of_toNat_eq hfield)
  rw [unpack_packComponents s m hplain]
  by_cases hleast : e = 0#11
  · rw [if_pos hleast]
    by_cases hzero : m = 0#52
    · rw [dif_pos hzero]
      exact ⟨trivial, trivial⟩
    · rw [dif_neg hzero]
      refine ⟨⟨by omega, le_refl _, .inr rfl⟩, ?_⟩
      show (-1074 : Int) < 972
      decide
  · rw [if_neg hleast]
    have hpos : e.toNat ≠ 0 := fun hfield => hleast (BitVec.eq_of_toNat_eq hfield)
    have hfraction := toNat_fraction m
    refine ⟨⟨by omega, by omega, .inl (by omega)⟩, ?_⟩
    show (e.toNat : Int) - 1075 < 972
    omega

/-- a finite double is in the form rounding leaves, and fits -/
theorem rounded_value {x : Float} (h : x.isFinite = true) : Rounded (value x) ∧ Fits (value x) := by
  have hplain : @unpackExponent format x.toBits.toBitVec ≠ -1#11 := by
    intro hspecial
    have hfield := congrArg BitVec.toNat hspecial
    rw [toNat_unpackExponent] at hfield
    exact exponentField_of_isFinite h hfield
  have hfields := rounded_fields (Sign.ofBitVec (@unpackSign format x.toBits.toBitVec))
    (@unpackMantissa format x.toBits.toBitVec) hplain
  rw [packComponents_unpacked] at hfields
  exact hfields

/-- a finite double that is not negative -/
theorem amount_value {x : Float} (hfinite : x.isFinite = true) (hpos : NonNegative (value x)) : Amount (value x) :=
  ⟨(rounded_value hfinite).1, hpos⟩

/-- a double is told by its unpacked form -/
theorem eq_of_value {x y : Float} (h : value x = value y) : x = y := by
  have hpacked : ∀ z : Float, UnpackedFloat.pack format (value z) = z.toBits.toBitVec :=
    fun z => pack_unpack_of_valid z.toModel.valid
  apply ext_toBits
  rw [← hpacked x, h, hpacked y]

theorem value_infinity : value infinity = .infinity .positive := rfl

/-- a double is finite when what it stands for is -/
theorem isFinite_eq (x : Float) : x.isFinite = (value x).isFinite := rfl

/-- the clamp at zero keeps what is not negative -/
theorem nonNegative_eq {x : Float} (h : NonNegative (value x)) : nonNegative x = x := by
  unfold nonNegative
  split
  · rfl
  next hnot =>
    have hlt : ¬(value 0.0).lt (value x) = true := fun hlt => hnot ((lt_iff 0.0 x).2 hlt)
    apply eq_of_value
    rw [value_zero] at hlt ⊢
    generalize value x = u at h hlt
    cases u with
    | zero s =>
      cases h
      rfl
    | notANumber => cases h
    | _ =>
      cases h
      exact absurd rfl hlt

/-- what is not larger than a number that fits, fits -/
theorem fits_of_size_le (hu : Rounded u) (hv : Rounded v) (hfits : Fits v) (h : size u ≤ size v) : Fits u := by
  cases u with
  | zero s => trivial
  | finite s m e hm =>
    cases v with
    | zero t =>
      have hpos : (0 : ℚ) < m * 2 ^ e := mul_pos (by exact_mod_cast hm) (two_zpow_pos e)
      rw [size_finite, size_zero] at h
      exact absurd h (not_le.2 hpos)
    | finite t k f hk =>
      have hmost : f < 972 := hfits
      have hnot := not_gt_of_size_le hu hv h
      show e < 972
      omega
    | _ => exact absurd hv id
  | _ => exact absurd hu id

/-- adding unpacked doubles the other way round gives the same -/
theorem unpacked_add_comm (u v : UnpackedFloat) : UnpackedFloat.add format u v = UnpackedFloat.add format v u := by
  cases u with
  | finite s m e hm =>
    cases v with
    | finite t k f hk =>
      simp only [UnpackedFloat.add]
      rw [min_comm, Int.add_comm]
    | _ => rfl
  | notANumber => cases v <;> rfl
  | infinity s =>
    cases v with
    | infinity t => cases s <;> cases t <;> rfl
    | _ => rfl
  | zero s =>
    cases v with
    | zero t => cases s <;> cases t <;> rfl
    | _ => rfl

/-- **The sum of two doubles is the same the other way round.** -/
theorem add_comm (x y : Float) : x + y = y + x := by
  show (⟨.pack (UnpackedFloat.add format (value x) (value y))⟩ : Float) =
    ⟨.pack (UnpackedFloat.add format (value y) (value x))⟩
  rw [unpacked_add_comm]

end TradingRobots.Binary64
