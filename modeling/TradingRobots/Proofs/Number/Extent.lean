/-
Doubles that are not negative, infinity among them, in one order: by their sizes, with infinity at the top. What has to be
rounded, and what is too large to be stored, keeps its place among the others. So a sum is not below its parts, and a
product grows with its factors.

`le_iff_extent`, `lt_iff_extent`: comparisons.
`extentOf_stored_mono`: storing keeps order.
`extent_le_add`, `extent_mul_mono`: sums and products.
-/
import TradingRobots.Proofs.Number.Sums

namespace TradingRobots.Binary64

open Float.Model
open Random.Stream (value value_add value_mul)

/-- the size of an unpacked double, with infinity above all others -/
def extentOf : UnpackedFloat → WithTop ℚ
  | .infinity _ => ⊤
  | u => size u

/-- how large a double is -/
def extent (x : Float) : WithTop ℚ :=
  extentOf (value x)

variable {x y s t : Float} {u v : UnpackedFloat} {q r : ℚ}

theorem extentOf_rounded (h : Rounded u) : extentOf u = size u := by
  cases u with
  | infinity s => exact absurd h id
  | _ => rfl

theorem Plain.extent_eq (h : Plain x) : extent x = size (value x) :=
  extentOf_rounded h.amount.rounded

theorem extent_infinity : extent infinity = ⊤ := rfl

theorem extent_of_not_finite (hpos : NonNegative (value x)) (h : ¬x.isFinite = true) : extent x = ⊤ := by
  rw [eq_infinity hpos (Bool.eq_false_of_not_eq_true h), extent_infinity]

/-! ## Comparisons -/

/-- what is not above another one is not below it the other way round -/
theorem not_lt_of_le (hu : NonNegative u) (hv : NonNegative v) (h : u.le v = true) : ¬v.lt u = true := by
  cases u with
  | notANumber => cases hu
  | infinity s =>
    cases hu
    cases v with
    | notANumber => cases hv
    | infinity t =>
      cases hv
      exact Bool.false_ne_true
    | _ => cases h
  | zero s =>
    cases v with
    | finite t k f hk =>
      cases hv
      exact Bool.false_ne_true
    | infinity t =>
      cases hv
      exact Bool.false_ne_true
    | _ => exact Bool.false_ne_true
  | finite s m e hm =>
    cases hu
    cases v with
    | notANumber => cases hv
    | infinity t =>
      cases hv
      exact Bool.false_ne_true
    | zero t => cases h
    | finite t k f hk =>
      cases hv
      have hnot : (compare e f).then (compare m k) ≠ .gt := Ordering.ne_gt_iff_isLE.2 h
      rw [Ne, Ordering.then_eq_gt, compare_gt_iff_gt, compare_eq_iff_eq, compare_gt_iff_gt] at hnot
      have hless : (compare f e).then (compare k m) ≠ .lt := by
        rw [Ne, Ordering.then_eq_lt, compare_lt_iff_lt, compare_eq_iff_eq, compare_lt_iff_lt]
        omega
      simpa [UnpackedFloat.lt, UnpackedFloat.compare] using hless

theorem le_of_extent_le (hx : NonNegative (value x)) (hy : NonNegative (value y)) (h : extent x ≤ extent y) : x ≤ y := by
  rw [le_iff]
  by_cases hfy : y.isFinite = true
  · have hplain : Plain y := ⟨hfy, hy⟩
    have hfx : x.isFinite = true := by
      by_contra hinfinite
      rw [extent_of_not_finite hx hinfinite, hplain.extent_eq] at h
      exact WithTop.not_top_le_coe _ h
    rw [Plain.extent_eq ⟨hfx, hx⟩, hplain.extent_eq, WithTop.coe_le_coe] at h
    exact le_of_size_le (rounded_value hfx).1 (rounded_value hfy).1 hx hy h
  · rw [eq_infinity hy (Bool.eq_false_of_not_eq_true hfy), value_infinity]
    exact le_infinity hx

theorem lt_of_extent_lt (hx : NonNegative (value x)) (hy : NonNegative (value y)) (h : extent x < extent y) : x < y := by
  rw [lt_iff]
  have hfx : x.isFinite = true := by
    by_contra hinfinite
    rw [extent_of_not_finite hx hinfinite] at h
    exact not_top_lt h
  rw [Plain.extent_eq ⟨hfx, hx⟩] at h
  by_cases hfy : y.isFinite = true
  · rw [Plain.extent_eq ⟨hfy, hy⟩, WithTop.coe_lt_coe] at h
    exact lt_of_size_lt (rounded_value hfx).1 (rounded_value hfy).1 hx hy h
  · rw [eq_infinity hy (Bool.eq_false_of_not_eq_true hfy), value_infinity]
    have hfinite : (value x).isFinite = true := hfx
    generalize value x = u at hfinite
    cases u with
    | notANumber => cases hfinite
    | infinity s => cases hfinite
    | zero s => rfl
    | finite s m e hm => cases s <;> rfl

/-- **Numbers that are not negative are compared by how large they are.** -/
theorem le_iff_extent (hx : NonNegative (value x)) (hy : NonNegative (value y)) : x ≤ y ↔ extent x ≤ extent y := by
  refine ⟨fun h => ?_, le_of_extent_le hx hy⟩
  by_contra hlt
  exact not_lt_of_le hx hy ((le_iff x y).1 h) ((lt_iff y x).1 (lt_of_extent_lt hy hx (not_le.1 hlt)))

theorem lt_iff_extent (hx : NonNegative (value x)) (hy : NonNegative (value y)) : x < y ↔ extent x < extent y := by
  refine ⟨fun h => ?_, lt_of_extent_lt hx hy⟩
  by_contra hle
  exact not_lt_of_le hy hx ((le_iff y x).1 (le_of_extent_le hy hx (not_lt.1 hle))) ((lt_iff x y).1 h)

theorem le_of_less (h : x < y) : x ≤ y := by
  rw [lt_iff, UnpackedFloat.lt, beq_iff_eq] at h
  rw [le_iff, UnpackedFloat.le, h]
  rfl

/-- what is not below a number above zero is above zero -/
theorem pos_of_le (hx : 0.0 < x) (h : x ≤ y) : 0.0 < y := by
  rw [lt_iff, value_zero] at hx ⊢
  rw [le_iff] at h
  generalize value x = u at hx h
  generalize value y = v at h ⊢
  cases u with
  | notANumber => cases hx
  | zero s => cases hx
  | _ s =>
    cases s with
    | negative => cases hx
    | positive =>
      cases v with
      | notANumber => cases h
      | zero t => cases h
      | _ t =>
        cases t with
        | positive => rfl
        | negative => cases h

/-! ## Sums and products -/

/-- **Storing keeps order**, also where it gives infinity. -/
theorem extentOf_stored_mono (hu : Nearest u q) (hv : Nearest v r) (hpv : NonNegative v) (h : q ≤ r) :
    extentOf (stored u) ≤ extentOf (stored v) := by
  by_cases hfits : Fits v
  · have hle := hu.mono hv h
    have hsmaller := fits_of_size_le hu.rounded hv.rounded hfits hle
    rw [stored_of_fits hu.rounded hsmaller, stored_of_fits hv.rounded hfits, extentOf_rounded hu.rounded,
      extentOf_rounded hv.rounded]
    exact WithTop.coe_le_coe.2 hle
  · rw [stored_of_not_fits hv.rounded hpv hfits]
    exact le_top

/-- **A sum is not below its parts.** -/
theorem extent_le_add (hx : NonNegative (value x)) (hy : NonNegative (value y)) : extent x ≤ extent (x + y) := by
  by_cases hsum : (x + y).isFinite = true
  · obtain ⟨hpx, hpy⟩ := plain_parts hx hy hsum
    have hadd := nearest_add hpx.amount hpy.amount
    rw [extent, ← stored_value x, extent, value_add]
    exact extentOf_stored_mono hpx.roundedTo.nearest hadd (nonNegative_add (.inl hx) hy)
      (le_add_of_nonneg_right (size_nonneg _))
  · rw [extent_of_not_finite (nonNegative_sum hx hy) hsum]
    exact le_top

/-- a factor above zero makes nothing negative -/
theorem nonNegative_product (hx : NonNegative (value x)) (hs : Plain s) (hpos : 0 < size (value s)) :
    NonNegative (value (x * s)) := by
  rw [value_mul]
  have hsign := hs.nonNegative
  generalize value s = v at hpos hsign
  cases v with
  | finite t k f hk =>
    cases hsign
    exact (nonNegative_mul hx f hk).stored
  | _ => exact absurd hpos (lt_irrefl 0)

/-- infinity stays infinity under a factor above zero -/
theorem infinity_mul (hs : Plain s) (hpos : 0 < size (value s)) : infinity * s = infinity := by
  have hproduct : UnpackedFloat.mul format (.infinity .positive) (value s) = .infinity .positive := by
    have hsign := hs.nonNegative
    generalize value s = v at hpos hsign
    cases v with
    | finite t k f hk =>
      cases hsign
      rfl
    | _ => exact absurd hpos (lt_irrefl 0)
  apply eq_of_value
  rw [value_mul, value_infinity, hproduct, stored_infinity]

/-- **A product grows with its factors.** -/
theorem extent_mul_mono (hx : NonNegative (value x)) (hy : NonNegative (value y)) (ht : Plain t) (hs : Plain s)
    (hpos : 0 < size (value s)) (hxy : extent x ≤ extent y) (hts : size (value t) ≤ size (value s)) :
    extent (x * t) ≤ extent (y * s) := by
  by_cases hfy : y.isFinite = true
  · have hplain : Plain y := ⟨hfy, hy⟩
    have hfx : x.isFinite = true := by
      by_contra hinfinite
      rw [extent_of_not_finite hx hinfinite, hplain.extent_eq] at hxy
      exact WithTop.not_top_le_coe _ hxy
    have hless : Plain x := ⟨hfx, hx⟩
    rw [hless.extent_eq, hplain.extent_eq, WithTop.coe_le_coe] at hxy
    obtain ⟨hlow, -⟩ := nearest_mul hless.amount ht.amount
    obtain ⟨hhigh, hsign⟩ := nearest_mul hplain.amount hs.amount
    rw [extent, value_mul, extent, value_mul]
    exact extentOf_stored_mono hlow hhigh hsign (mul_le_mul hxy hts (size_nonneg _) (size_nonneg _))
  · rw [eq_infinity hy (Bool.eq_false_of_not_eq_true hfy), infinity_mul hs hpos, extent_infinity]
    exact le_top

end TradingRobots.Binary64
