/-
Signs and finiteness of doubles, read off their unpacked form.

Packing and unpacking keep the sign, and turn a finite number into infinity only when its exponent does not fit.
Rounding keeps the sign too, and a magnitude below 2^1023 stays finite when it is rounded.

`signOf?_stored`: packing keeps the sign, and makes no NaN.
`isFinite_stored`: what fits stays finite.
`fits_round`: small magnitudes fit after rounding.
-/
import TradingRobots.Number.Binary64
import Mathlib

namespace TradingRobots.Binary64

open Float.Model Float.Model.UnpackedFloat

/-- the format of a double -/
abbrev format : Format := Format.binary64

/-- the sign of an unpacked double; NaN has none -/
def signOf? : UnpackedFloat → Option Sign
  | .infinity s => some s
  | .notANumber => none
  | .zero s => some s
  | .finite s _ _ _ => some s

/-- an unpacked double that is finite, with an exponent that a packed one can hold -/
def Fits : UnpackedFloat → Prop
  | .zero _ => True
  | .finite _ _ e _ => e < 972
  | _ => False

/-- what is left of an unpacked double when it is packed and unpacked again -/
def stored (u : UnpackedFloat) : UnpackedFloat :=
  UnpackedFloat.unpack format (UnpackedFloat.pack format u)

/-! ## Packing -/

theorem unpackSign_packComponents {spec : Format} (s : Sign) (e : BitVec spec.exponentBits)
    (m : BitVec spec.mantissaBitsWithoutImplicit) : unpackSign (packComponents spec s e m) = s.toBitVec := by
  ext i hi
  have h0 : i = 0 := by omega
  subst h0
  simp [unpackSign, packComponents, BitVec.getLsbD_append, BitVec.getElem_append]

theorem ofBitVec_toBitVec (s : Sign) : Sign.ofBitVec s.toBitVec = s := by
  cases s <;> rfl

/-- the largest exponent field stands for infinities and NaN -/
theorem unpack_packComponents_special (s : Sign) (m : BitVec 52) :
    UnpackedFloat.unpack format (packComponents format s (-1#11) m) =
      if m = 0#52 then .infinity s else .notANumber := by
  simp only [UnpackedFloat.unpack, unpackMantissa_packComponents, unpackExponent_packComponents,
    unpackSign_packComponents, ofBitVec_toBitVec, if_true]

/-- any other exponent field stands for a zero or a finite number of the sign -/
theorem unpack_packComponents_finite (s : Sign) {e : BitVec 11} (m : BitVec 52) (he : e ≠ -1#11) :
    (UnpackedFloat.unpack format (packComponents format s e m)).isFinite = true ∧
      signOf? (UnpackedFloat.unpack format (packComponents format s e m)) = some s := by
  simp only [UnpackedFloat.unpack, unpackMantissa_packComponents, unpackExponent_packComponents,
    unpackSign_packComponents, ofBitVec_toBitVec, if_neg he]
  split
  · split
    · exact ⟨rfl, rfl⟩
    · exact ⟨rfl, rfl⟩
  · exact ⟨rfl, rfl⟩

theorem stored_infinity (s : Sign) : stored (.infinity s) = .infinity s :=
  (unpack_packComponents_special s 0#52).trans (if_pos rfl)

/-- the exponent field of zeros and of the least numbers is not the largest one -/
theorem zeroField_ne : 0#11 ≠ -1#11 := by decide

theorem pack_of_fits (s : Sign) {m : Nat} {e : Int} (hm : 0 < m) (he : e < 972) :
    ∃ f : BitVec 11, f ≠ -1#11 ∧
      UnpackedFloat.pack format (.finite s m e hm) = packComponents format s f (BitVec.ofNat 52 m) := by
  have hfield : (e + Format.binary64.exponentBias + Format.binary64.mantissaBitsWithoutImplicit).toNat =
      (e + 1075).toNat := by
    simp [Format.exponentBias]
    omega
  have hlt : (e + 1075).toNat + 1 < 2 ^ 11 := by omega
  have hne : BitVec.ofNat 11 (e + 1075).toNat ≠ -1#11 := by
    intro h
    have := congrArg BitVec.toNat h
    simp at this
    omega
  unfold UnpackedFloat.pack
  simp only [hfield]
  rw [if_neg (by simp; omega)]
  split
  · exact ⟨_, hne, rfl⟩
  · exact ⟨_, zeroField_ne, rfl⟩

theorem pack_of_not_fits (s : Sign) {m : Nat} {e : Int} (hm : 0 < m) (he : ¬e < 972) :
    UnpackedFloat.pack format (.finite s m e hm) = packedInfinity format s := by
  unfold UnpackedFloat.pack
  rw [if_pos]
  simp [Format.exponentBias]
  omega

/-- **Packing keeps the sign**, and makes no NaN. -/
theorem signOf?_stored (u : UnpackedFloat) : signOf? (stored u) = signOf? u := by
  cases u with
  | notANumber =>
    have h := unpack_packComponents_special .positive (1#52 <<< 51)
    rw [if_neg (by decide)] at h
    exact congrArg signOf? h
  | infinity s => rw [stored_infinity]
  | zero s => exact (unpack_packComponents_finite s 0#52 zeroField_ne).2
  | finite s m e hm =>
    by_cases he : e < 972
    · obtain ⟨f, hf, hpack⟩ := pack_of_fits s hm he
      rw [stored, hpack]
      exact (unpack_packComponents_finite s _ hf).2
    · have hinf : UnpackedFloat.unpack format (packedInfinity format s) = .infinity s := stored_infinity s
      rw [stored, pack_of_not_fits s hm he, hinf]
      rfl

/-- what fits stays finite -/
theorem isFinite_stored {u : UnpackedFloat} (h : Fits u) : (stored u).isFinite = true := by
  cases u with
  | zero s => exact (unpack_packComponents_finite s 0#52 zeroField_ne).1
  | finite s m e hm =>
    obtain ⟨f, hf, hpack⟩ := pack_of_fits s hm h
    rw [stored, hpack]
    exact (unpack_packComponents_finite s _ hf).1
  | _ => exact absurd h id

/-! ## Rounding -/

theorem mantissa_shiftRight (em : ExtendedMantissa) (k : Nat) : (em >>> k).mantissa = em.mantissa / 2 ^ k := by
  show (k.repeat ExtendedMantissa.shiftRightOne em).mantissa = _
  induction k with
  | zero => simp [Nat.repeat]
  | succ k ih =>
    rw [Nat.repeat, ExtendedMantissa.shiftRightOne, ih, Nat.div_div_eq_div_mul, Nat.pow_succ]

theorem roundedMantissa_le (em : ExtendedMantissa) : em.roundedMantissa ≤ em.mantissa + 1 := by
  obtain ⟨m, roundBit, stickyBit⟩ := em
  cases roundBit <;> cases stickyBit <;>
    simp only [ExtendedMantissa.roundedMantissa, ExtendedMantissa.accuracy, Accuracy.roundToNearestEven] <;> omega

theorem targetExponent_eq (m : Nat) (e : Int) :
    format.targetExponent (totalExponent m e) = max (m.log2 + 1 + e - 53) (-1074) := by
  simp [Format.targetExponent, totalExponent, Format.mantissaBits, Format.minExponent]

theorem log2_shiftLeft {m : Nat} (hm : m ≠ 0) (a : Nat) : (m <<< a).log2 = m.log2 + a := by
  induction a with
  | zero => rfl
  | succ a ih =>
    have hne : m <<< a ≠ 0 := by
      rw [Nat.shiftLeft_eq]
      positivity
    rw [Nat.shiftLeft_succ, Nat.log2_two_mul hne, ih, Nat.add_assoc]

/-- shifting down to 53 bits leaves 53 bits -/
theorem div_lt_of_log2 {m k : Nat} (h : m.log2 ≤ 52 + k) : m / 2 ^ k < 2 ^ 53 := by
  rw [Nat.div_lt_iff_lt_mul (by positivity), ← Nat.pow_add]
  calc m < 2 ^ (m.log2 + 1) := Nat.lt_log2_self
    _ ≤ 2 ^ (53 + k) := Nat.pow_le_pow_right (by decide) (by omega)

/-- a shift ends at the target exponent, or at its own where that is higher -/
theorem shiftToTargetExponent_snd (m : Nat) (e : Int) (a : Accuracy) :
    (shiftToTargetExponent format m e a).2 = max e (max (m.log2 + 1 + e - 53) (-1074)) := by
  simp only [shiftToTargetExponent, shiftToExponent, targetExponent_eq]
  omega

theorem roundedMantissa_shiftToTargetExponent (m : Nat) (e : Int) (a : Accuracy) :
    (shiftToTargetExponent format m e a).1.roundedMantissa ≤ 2 ^ 53 := by
  have hm : (shiftToTargetExponent format m e a).1.mantissa =
      m / 2 ^ (max (m.log2 + 1 + e - 53) (-1074) - e).toNat := by
    simp only [shiftToTargetExponent, shiftToExponent, targetExponent_eq, mantissa_shiftRight]
    congr 1
    cases a with
    | exact => rfl
    | inexact o => cases o <;> rfl
  have hlt : m / 2 ^ (max (m.log2 + 1 + e - 53) (-1074) - e).toNat < 2 ^ 53 := div_lt_of_log2 (by omega)
  have := roundedMantissa_le (shiftToTargetExponent format m e a).1
  omega

theorem signOf?_roundWithAccuracy (s : Sign) (m : Nat) (e : Int) (a : Accuracy) :
    signOf? (roundWithAccuracy format s m e a) = some s := by
  unfold roundWithAccuracy
  dsimp only
  split <;> rfl

theorem fits_roundWithAccuracy (s : Sign) {m : Nat} {e : Int} (a : Accuracy) (he : e ≤ 970)
    (ht : totalExponent m e ≤ 1023) : Fits (roundWithAccuracy format s m e a) := by
  rw [totalExponent] at ht
  have hfirst := shiftToTargetExponent_snd m e a
  have hbound := roundedMantissa_shiftToTargetExponent m e a
  have hlog : (shiftToTargetExponent format m e a).1.roundedMantissa.log2 ≤ 53 := by
    rcases Nat.eq_zero_or_pos (shiftToTargetExponent format m e a).1.roundedMantissa with h0 | hpos
    · simp [h0]
    · have := (Nat.log2_lt (k := 54) (Nat.ne_of_gt hpos)).2 (by omega)
      omega
  have hlast := shiftToTargetExponent_snd (shiftToTargetExponent format m e a).1.roundedMantissa
    (shiftToTargetExponent format m e a).2 .exact
  unfold roundWithAccuracy
  dsimp only
  split
  · trivial
  · show _ < _
    omega

theorem signOf?_round (s : Sign) (m : Nat) (e : Int) : signOf? (UnpackedFloat.round format s m e) = some s :=
  signOf?_roundWithAccuracy s _ _ _

/-- a magnitude below 2^1023 is rounded to a finite number -/
theorem fits_round (s : Sign) {m : Nat} {e : Int} (hm : 0 < m) (ht : totalExponent m e ≤ 1023) :
    Fits (UnpackedFloat.round format s m e) := by
  have hlog := log2_shiftLeft (Nat.ne_of_gt hm) (e - max (m.log2 + 1 + e - 53) (-1074)).toNat
  rw [totalExponent] at ht
  unfold UnpackedFloat.round decreaseExponent
  simp only [targetExponent_eq]
  refine fits_roundWithAccuracy s .exact (by omega) ?_
  rw [totalExponent, hlog]
  omega

end TradingRobots.Binary64
