/-
Signs of doubles. A double is compared by its unpacked form, so what is known of a sign decides a comparison with zero.

Bits up to those of infinity have a clear sign bit and spell no NaN, so a rounded quotient is never negative. A sum with
a number that is not negative is not negative unless the other one lies below zero. Storing a double again changes
nothing, so a sum of a number below zero with zero is the number itself.

`nonNegative_ofRatio`: a rounded quotient is not negative.
`nonNegative_add`: a sum of two numbers, neither below zero.
`stored_value`: packing what was unpacked gives it back.
-/
import TradingRobots.Proofs.Random.Constant

namespace TradingRobots.Binary64

open Float.Model Float.Model.UnpackedFloat Random.Stream

/-! ## Comparisons with zero -/

theorem le_iff (x y : Float) : x ≤ y ↔ (value x).le (value y) = true :=
  ⟨of_decide_eq_true, decide_eq_true⟩

theorem lt_iff (x y : Float) : x < y ↔ (value x).lt (value y) = true :=
  ⟨of_decide_eq_true, decide_eq_true⟩

theorem value_zero : value 0.0 = .zero .positive := rfl

theorem zero_le_of_nonNegative {x : Float} (h : NonNegative (value x)) : 0.0 ≤ x := by
  rw [le_iff, value_zero]
  unfold NonNegative at h
  generalize value x = u at h
  cases u with
  | notANumber => cases h
  | infinity s =>
    cases h
    rfl
  | zero s => rfl
  | finite s m e hm =>
    cases h
    rfl

/-- what is not below zero has a positive sign, or it is a zero or NaN -/
theorem value_of_not_below {x : Float} (h : ¬x < 0.0) :
    NonNegative (value x) ∨ value x = .zero .negative ∨ value x = .notANumber := by
  rw [lt_iff, value_zero] at h
  generalize value x = u at h
  cases u with
  | notANumber => exact Or.inr (Or.inr rfl)
  | infinity s =>
    cases s with
    | positive => exact Or.inl rfl
    | negative => exact absurd rfl h
  | zero s =>
    cases s with
    | positive => exact Or.inl rfl
    | negative => exact Or.inr (Or.inl rfl)
  | finite s m e hm =>
    cases s with
    | positive => exact Or.inl rfl
    | negative => exact absurd rfl h

/-- nothing lies below zero and at or above it -/
theorem not_zero_le_of_below {x : Float} (h : x < 0.0) : ¬0.0 ≤ x := by
  rw [le_iff, value_zero]
  rw [lt_iff, value_zero] at h
  generalize value x = u at h
  cases u with
  | notANumber => cases h
  | infinity s =>
    cases s with
    | positive => cases h
    | negative => exact Bool.false_ne_true
  | zero s => cases h
  | finite s m e hm =>
    cases s with
    | positive => cases h
    | negative => exact Bool.false_ne_true

/-- the clamp at zero leaves nothing below zero -/
theorem nonNegative_clamped (x : Float) : NonNegative (value (nonNegative x)) := by
  unfold nonNegative
  split
  · rename_i hpos
    have hlt : (value 0.0).lt (value x) = true := (lt_iff 0.0 x).1 hpos
    rw [value_zero] at hlt
    generalize value x = u at hlt
    cases u with
    | notANumber => cases hlt
    | infinity s =>
      cases s with
      | positive => rfl
      | negative => cases hlt
    | zero s => cases hlt
    | finite s m e hm =>
      cases s with
      | positive => rfl
      | negative => cases hlt
  · rfl

theorem not_below_of_nonNegative {x : Float} (h : NonNegative (value x)) : ¬x < 0.0 :=
  fun hlt => not_zero_le_of_below hlt (zero_le_of_nonNegative h)

/-! ## Bits and quotients -/

theorem toNat_unpackExponent (w : BitVec 64) :
    (@unpackExponent format w).toNat = w.toNat / 2 ^ 52 % 2 ^ 11 := by
  simp [unpackExponent, BitVec.extractLsb_toNat, Nat.shiftRight_eq_div_pow]

theorem toNat_unpackMantissa (w : BitVec 64) : (@unpackMantissa format w).toNat = w.toNat % 2 ^ 52 := by
  simp [unpackMantissa, BitVec.extractLsb_toNat, Nat.shiftRight_eq_div_pow]

theorem toNat_unpackSign (w : BitVec 64) : (@unpackSign format w).toNat = w.toNat / 2 ^ 63 := by
  have := w.isLt
  simp [unpackSign, BitVec.extractLsb_toNat, Nat.shiftRight_eq_div_pow]
  omega

/-- bits up to those of infinity have no sign bit, and of the bits with the largest exponent only infinity is left -/
theorem nonNegative_unpack {w : BitVec 64} (h : w.toNat ≤ infinityBits) :
    NonNegative (UnpackedFloat.unpack format w) := by
  have hbits : w.toNat ≤ 2047 * 2 ^ 52 := h
  have hsign : Sign.ofBitVec (@unpackSign format w) = .positive := by
    have hzero : @unpackSign format w = 0#1 := by
      apply BitVec.eq_of_toNat_eq
      rw [toNat_unpackSign, BitVec.toNat_zero]
      omega
    rw [hzero]
    rfl
  unfold NonNegative UnpackedFloat.unpack
  simp only [hsign]
  split
  · rename_i hspecial
    have hfield : w.toNat / 2 ^ 52 % 2 ^ 11 = 2047 := by
      rw [← toNat_unpackExponent, hspecial]
      rfl
    have hfraction : @unpackMantissa format w = 0#52 := by
      apply BitVec.eq_of_toNat_eq
      rw [toNat_unpackMantissa, BitVec.toNat_zero]
      omega
    rw [if_pos hfraction]
    rfl
  · split
    · split
      · rfl
      · rfl
    · rfl

theorem nonNegative_ofBits {w : UInt64} (h : w.toNat ≤ infinityBits) : NonNegative (value (Float.ofBits w)) :=
  (nonNegative_unpack h).stored

/-- **A rounded quotient is not negative.** -/
theorem nonNegative_ofRatio (n d : Nat) : NonNegative (value (ofRatio n d)) := by
  unfold ofRatio
  split
  · rfl
  · refine nonNegative_ofBits ?_
    have hword : infinityBits < 2 ^ 64 := by decide
    rw [UInt64.toNat_ofNat', Nat.mod_eq_of_lt (by omega)]
    exact Nat.min_le_right _ _

/-! ## Storing again -/

/-- a word is its three fields -/
theorem packComponents_unpacked (w : BitVec 64) :
    packComponents format (Sign.ofBitVec (@unpackSign format w)) (@unpackExponent format w)
      (@unpackMantissa format w) = w := by
  have hsign : ∀ b : BitVec 1, (Sign.ofBitVec b).toBitVec = b := by decide
  simp only [packComponents, hsign, unpackSign, unpackExponent, unpackMantissa, BitVec.extractLsb]
  ext i hi
  grind

theorem stored_notANumber : stored .notANumber = .notANumber :=
  (unpack_packComponents_special .positive (1#52 <<< 51)).trans (if_neg (by decide))

/-- fields that are unpacked with the exponent of a normal number, packed again -/
theorem pack_normal (s : Sign) {e : BitVec 11} (m : BitVec 52) (he : e ≠ -1#11) (hpos : 0 < (1#1 ++ m).toNat) :
    UnpackedFloat.pack format (.finite s (1#1 ++ m).toNat ((e.toNat : Int) - 1075) hpos) =
      packComponents format s e m := by
  have hlow : e.toNat ≠ 2047 := fun h => he (BitVec.eq_of_toNat_eq h)
  have hlt := e.isLt
  have hm := toNat_fraction m
  have hmlt := m.isLt
  have hlog : (1#1 ++ m).toNat.log2 = 52 := by
    rw [hm, Nat.log2_eq_iff (by omega)]
    omega
  have hfield :
      ((e.toNat : Int) - 1075 + format.exponentBias + format.mantissaBitsWithoutImplicit).toNat = e.toNat := by
    simp [Format.exponentBias]
    omega
  have hfraction : BitVec.ofNat 52 (1#1 ++ m).toNat = m := by
    apply BitVec.eq_of_toNat_eq
    rw [BitVec.toNat_ofNat, hm]
    omega
  unfold UnpackedFloat.pack
  simp only [hfield, hlog]
  rw [if_neg (by simp; omega), if_pos (by decide)]
  exact congrArg₂ (packComponents format s) ((BitVec.ofNat_toNat 11 e).trans (BitVec.setWidth_eq e)) hfraction

/-- fields that are unpacked as a number below the normal ones, packed again -/
theorem pack_subnormal (s : Sign) {m : BitVec 52} (hpos : 0 < m.toNat) :
    UnpackedFloat.pack format (.finite s m.toNat (-1074) hpos) = packComponents format s 0#11 m := by
  have hmlt := m.isLt
  have hlog : m.toNat.log2 + 1 ≠ format.mantissaBits := by
    have hbits : format.mantissaBits = 53 := rfl
    have := (Nat.log2_lt (k := 52) (Nat.ne_of_gt hpos)).2 hmlt
    omega
  unfold UnpackedFloat.pack
  rw [if_neg (by decide), if_neg hlog]
  exact congrArg (packComponents format s 0#11) ((BitVec.ofNat_toNat 52 m).trans (BitVec.setWidth_eq m))

/-- fraction bits that are not all zero count for something, -/
theorem bits_pos {m : BitVec 52} (h : ¬m = 0#52) : 0 < m.toNat :=
  Nat.pos_of_ne_zero fun hzero => h (BitVec.eq_of_toNat_eq hzero)

/-- and so do any with the leading bit. -/
theorem fraction_pos (m : BitVec 52) : 0 < (1#1 ++ m).toNat := by
  rw [toNat_fraction]
  omega

/-- the fields of a word whose exponent is not the largest: zeros and the least numbers, and the normal ones -/
theorem unpack_packComponents (s : Sign) {e : BitVec 11} (m : BitVec 52) (he : e ≠ -1#11) :
    UnpackedFloat.unpack format (packComponents format s e m) =
      if e = 0#11 then
        if h : m = 0#52 then .zero s
        else .finite s m.toNat (-1074) (bits_pos h)
      else .finite s (1#1 ++ m).toNat ((e.toNat : Int) - 1075) (fraction_pos m) := by
  simp only [UnpackedFloat.unpack, unpackMantissa_packComponents, unpackExponent_packComponents,
    unpackSign_packComponents, ofBitVec_toBitVec, if_neg he]
  by_cases hleast : e = 0#11
  · subst hleast
    rfl
  · rw [if_neg hleast, if_neg hleast]
    rfl

/-- packing what was unpacked from fields gives the fields back -/
theorem stored_packComponents (s : Sign) (e : BitVec 11) (m : BitVec 52) :
    stored (UnpackedFloat.unpack format (packComponents format s e m)) =
      UnpackedFloat.unpack format (packComponents format s e m) := by
  by_cases hspecial : e = -1#11
  · rw [hspecial, unpack_packComponents_special]
    split
    · exact stored_infinity s
    · exact stored_notANumber
  have hopen := unpack_packComponents s m hspecial
  by_cases hleast : e = 0#11
  · subst hleast
    by_cases hzero : m = 0#52
    · subst hzero
      rw [if_pos rfl, dif_pos rfl] at hopen
      rw [hopen]
      exact hopen
    · rw [if_pos rfl, dif_neg hzero] at hopen
      rw [hopen]
      exact (congrArg (UnpackedFloat.unpack format) (pack_subnormal s _)).trans hopen
  · rw [if_neg hleast] at hopen
    rw [hopen]
    exact (congrArg (UnpackedFloat.unpack format) (pack_normal s m hspecial _)).trans hopen

/-- **Packing what was unpacked gives it back.** -/
theorem stored_value (x : Float) : stored (value x) = value x := by
  have h := stored_packComponents (Sign.ofBitVec (@unpackSign format x.toModel.toBits.toBitVec))
    (@unpackExponent format x.toModel.toBits.toBitVec)
    (@unpackMantissa format x.toModel.toBits.toBitVec)
  rw [packComponents_unpacked] at h
  exact h

/-! ## Sums -/

/-- a sum of two numbers, neither below zero, is not negative either -/
theorem nonNegative_add {u v : UnpackedFloat} (hu : NonNegative u ∨ u = .zero .negative) (hv : NonNegative v) :
    NonNegative (UnpackedFloat.add format u v) := by
  rcases hu with hu | hu
  · cases u with
    | notANumber => cases hu
    | infinity s =>
      cases hu
      cases v with
      | notANumber => cases hv
      | infinity s =>
        cases hv
        rfl
      | zero s => rfl
      | finite s m e hm => rfl
    | zero s =>
      cases hu
      cases v with
      | notANumber => cases hv
      | infinity s => exact hv
      | zero s =>
        cases hv
        rfl
      | finite s m e hm => exact hv
    | finite s m e hm =>
      cases hu
      cases v with
      | notANumber => cases hv
      | infinity s => exact hv
      | zero s => rfl
      | finite s k f hk =>
        cases hv
        exact nonNegative_normalize _ (Int.add_nonneg (Int.natCast_nonneg _) (Int.natCast_nonneg _))
  · subst hu
    cases v with
    | notANumber => cases hv
    | infinity s => exact hv
    | zero s =>
      cases hv
      rfl
    | finite s m e hm => exact hv

/-- what is below zero stays as it is when zero is added -/
theorem value_add_zero {x : Float} (h : x < 0.0) : value (x + 0.0) = value x := by
  rw [value_add, value_zero]
  have hadd : UnpackedFloat.add format (value x) (.zero .positive) = value x := by
    rw [lt_iff, value_zero] at h
    generalize value x = u at h
    cases u with
    | notANumber => cases h
    | infinity s => rfl
    | zero s => cases h
    | finite s m e hm => rfl
  rw [hadd, stored_value]

end TradingRobots.Binary64
