/-
The order of doubles. Every double but NaN has a place in a linear order, and comparing two of them compares their
places; so what is finite is totally ordered, up to the sign of zero.

Numbers of one sign have their places by exponent and then by mantissa, which is how unpacked doubles are compared.

`lt_iff_place`: one double is below another when its place is.
-/
import TradingRobots.Proofs.Number.Sign

namespace TradingRobots.Binary64

open Float.Model Float.Model.UnpackedFloat
open Random.Stream (value)

/-! ## Places -/

/-- where an unpacked double stands: its side of zero with infinity farthest out, then its exponent and its mantissa; both
zeros stand at one place, and the place of NaN means nothing -/
def placeOf : UnpackedFloat → ℤ ×ₗ ℤ ×ₗ ℤ
  | .infinity .positive => toLex (2, toLex (0, 0))
  | .infinity .negative => toLex (-2, toLex (0, 0))
  | .finite .positive m e _ => toLex (1, toLex (e, m))
  | .finite .negative m e _ => toLex (-1, toLex (-e, -m))
  | .zero _ => toLex (0, toLex (0, 0))
  | .notANumber => toLex (0, toLex (0, 0))

/-- numbers above zero by exponent, and those of one exponent by mantissa -/
theorem compare_positive_iff {e₁ e₂ : Int} {m₁ m₂ : Nat} :
    (compare e₁ e₂).then (compare m₁ m₂) = .lt ↔ e₁ < e₂ ∨ e₁ = e₂ ∧ m₁ < m₂ := by
  rw [Ordering.then_eq_lt, compare_lt_iff_lt, compare_eq_iff_eq, compare_lt_iff_lt]

/-- numbers below zero the other way round -/
theorem compare_negative_iff {e₁ e₂ : Int} {m₁ m₂ : Nat} :
    (compare e₁ e₂).then (compare m₁ m₂) = .gt ↔ e₂ < e₁ ∨ e₁ = e₂ ∧ m₂ < m₁ := by
  rw [Ordering.then_eq_gt, compare_gt_iff_gt, compare_eq_iff_eq, compare_gt_iff_gt]

/-- comparing unpacked doubles compares their places -/
theorem lt_iff_placeOf {u v : UnpackedFloat} (hu : u ≠ .notANumber) (hv : v ≠ .notANumber) :
    u.lt v = true ↔ placeOf u < placeOf v := by
  simp only [UnpackedFloat.lt, beq_iff_eq]
  cases u with
  | notANumber => exact absurd rfl hu
  | infinity s =>
    cases s <;> cases v with
    | notANumber => exact absurd rfl hv
    | infinity t => cases t <;> decide
    | zero t => simp [UnpackedFloat.compare, placeOf, Prod.Lex.toLex_lt_toLex]
    | finite t m e hm => cases t <;> simp [UnpackedFloat.compare, placeOf, Prod.Lex.toLex_lt_toLex]
  | zero s =>
    cases v with
    | notANumber => exact absurd rfl hv
    | infinity t => cases t <;> simp [UnpackedFloat.compare, placeOf, Prod.Lex.toLex_lt_toLex]
    | zero t => simp [UnpackedFloat.compare, placeOf]
    | finite t m e hm => cases t <;> simp [UnpackedFloat.compare, placeOf, Prod.Lex.toLex_lt_toLex]
  | finite s m e hm =>
    cases s <;> cases v with
    | notANumber => exact absurd rfl hv
    | infinity t => cases t <;> simp [UnpackedFloat.compare, placeOf, Prod.Lex.toLex_lt_toLex]
    | zero t => simp [UnpackedFloat.compare, placeOf, Prod.Lex.toLex_lt_toLex]
    | finite t k f hk =>
      cases t <;> simp [UnpackedFloat.compare, placeOf, Prod.Lex.toLex_lt_toLex, compare_positive_iff,
        compare_negative_iff]

/-- the place of a double -/
def place (x : Float) : ℤ ×ₗ ℤ ×ₗ ℤ :=
  placeOf (value x)

theorem value_ne_notANumber {x : Float} (h : x.isFinite = true) : value x ≠ .notANumber := by
  intro hnan
  have hfinite : (value x).isFinite = true := h
  rw [hnan] at hfinite
  cases hfinite

/-- **Finite doubles are ordered by their places.** -/
theorem lt_iff_place {x y : Float} (hx : x.isFinite = true) (hy : y.isFinite = true) : x < y ↔ place x < place y := by
  rw [lt_iff]
  exact lt_iff_placeOf (value_ne_notANumber hx) (value_ne_notANumber hy)

end TradingRobots.Binary64
