/-
Random constants are finite.

The word's upper bits are read as a number of [1, 2). One is taken away, so what is left is not negative; scaled by the
width of the range it is not negative either. The bound is then taken away again: below zero the result is smaller than
the bound, and above it the comparison with the bound leaves infinity out.

`isFinite_of_constantOf`: the constant that a word stands for is finite.
-/
import TradingRobots.Random.Draw
import TradingRobots.Proofs.Number.Unpacked

namespace TradingRobots

namespace Binary64

open Float.Model Float.Model.UnpackedFloat

/-! ## Signs of sums and products -/

/-- a number that is not negative, and not NaN -/
def NonNegative (u : UnpackedFloat) : Prop :=
  signOf? u = some .positive

theorem NonNegative.stored {u : UnpackedFloat} (h : NonNegative u) : NonNegative (stored u) :=
  (signOf?_stored u).trans h

/-- a mantissa that is not negative is rounded to a number that is not -/
theorem nonNegative_normalize {m : Int} (e : Int) (h : 0 ≤ m) :
    NonNegative (UnpackedFloat.normalize format m e .positive) := by
  unfold UnpackedFloat.normalize
  split
  · rename_i hlt
    have := Int.compare_eq_lt.1 hlt
    omega
  · rfl
  · exact signOf?_round .positive _ _

/-- a difference of numbers with one exponent, the larger first, is not negative -/
theorem nonNegative_sub {m n : Nat} {e : Int} (hm : 0 < m) (hn : 0 < n) (h : n ≤ m) :
    NonNegative (UnpackedFloat.sub format (.finite .positive m e hm) (.finite .positive n e hn)) := by
  simp only [UnpackedFloat.sub, decreaseExponent, Int.min_self, Int.sub_self, Int.toNat_zero, Nat.shiftLeft_zero,
    Sign.apply]
  exact nonNegative_normalize e (by omega)

theorem nonNegative_mul {u : UnpackedFloat} (hu : NonNegative u) {m : Nat} (e : Int) (hm : 0 < m) :
    NonNegative (UnpackedFloat.mul format u (.finite .positive m e hm)) := by
  cases u with
  | notANumber => cases hu
  | infinity s =>
    cases hu
    rfl
  | zero s =>
    cases hu
    rfl
  | finite s k f hk =>
    cases hu
    exact signOf?_roundWithAccuracy _ _ _ _

/-- a rounded difference is not negative, or it is as small as what was taken away -/
theorem normalize_sub (a b : Nat) (e : Int) (hb : totalExponent b e ≤ 1023) :
    let u := UnpackedFloat.normalize format ((a : Int) - b) e .positive
    NonNegative u ∨ Fits u := by
  intro u
  by_cases h : b ≤ a
  · exact Or.inl (nonNegative_normalize e (by omega))
  · right
    unfold u UnpackedFloat.normalize
    rw [show compare ((a : Int) - b) 0 = .lt from Int.compare_eq_lt.2 (by omega)]
    refine fits_round .negative (by omega) ?_
    have hlog : (-((a : Int) - b)).toNat.log2 ≤ b.log2 := by
      rw [Nat.le_log2 (by omega)]
      exact (Nat.log2_self_le (by omega)).trans (by omega)
    rw [totalExponent] at hb ⊢
    omega

/-- what is taken from a number that is not negative leaves one that is not, or a small one -/
theorem add_negative {u : UnpackedFloat} (hu : NonNegative u) {m : Nat} {e : Int} (hm : 0 < m)
    (he : totalExponent m e ≤ 971) :
    NonNegative (UnpackedFloat.add format u (.finite .negative m e hm)) ∨
      Fits (UnpackedFloat.add format u (.finite .negative m e hm)) := by
  rw [totalExponent] at he
  cases u with
  | notANumber => cases hu
  | infinity s =>
    cases hu
    exact Or.inl rfl
  | zero s =>
    right
    show e < 972
    omega
  | finite s k f hk =>
    cases hu
    simp only [UnpackedFloat.add, decreaseExponent, Sign.apply, ← Int.sub_eq_add_neg]
    refine normalize_sub _ _ _ ?_
    rw [totalExponent, log2_shiftLeft (Nat.ne_of_gt hm)]
    omega

/-- what is not negative and less than a finite number is finite -/
theorem NonNegative.isFinite_of_lt {u : UnpackedFloat} (hu : NonNegative u) {m : Nat} {e : Int} {hm : 0 < m}
    (h : u.lt (.finite .positive m e hm) = true) : u.isFinite = true := by
  cases u with
  | notANumber => cases hu
  | infinity s =>
    cases hu
    cases h
  | zero s => rfl
  | finite s k f hk => rfl

/-! ## A word as a number of [1, 2) -/

/-- the bits of a word's upper 52 places below the exponent of one -/
theorem toBitVec_fraction (w : UInt64) :
    ((w >>> 12) ||| 0x3FF0000000000000).toBitVec =
      packComponents format .positive 1023#11 (w.toBitVec.extractLsb' 12 52) := by
  have hshift : (w >>> 12).toBitVec = 0#12 ++ w.toBitVec.extractLsb' 12 52 := by
    have := BitVec.ushiftRight_eq_extractLsb'_of_lt (x := w.toBitVec) (n := 12) (by decide)
    simpa using this
  have hone : (0x3FF0000000000000 : UInt64).toBitVec = (0#1 ++ 1023#11) ++ 0#52 := by decide
  rw [UInt64.toBitVec_or, hshift, hone]
  show 0#12 ++ w.toBitVec.extractLsb' 12 52 ||| (0#1 ++ 1023#11) ++ 0#52 =
    (0#1 ++ 1023#11) ++ w.toBitVec.extractLsb' 12 52
  rw [BitVec.or_append, BitVec.zero_or, BitVec.or_zero]

theorem toNat_fraction (f : BitVec 52) : (1#1 ++ f).toNat = 2 ^ 52 + f.toNat := by
  rw [BitVec.toNat_append, ← Nat.shiftLeft_add_eq_or_of_lt f.isLt, Nat.shiftLeft_eq]
  rfl

/-- the number of [1, 2) with a given fraction -/
theorem unpack_fraction (f : BitVec 52) :
    UnpackedFloat.unpack format (packComponents format .positive 1023#11 f) =
      .finite .positive (2 ^ 52 + f.toNat) (-52) (by omega) := by
  have hm := toNat_fraction f
  simp only [UnpackedFloat.unpack, unpackMantissa_packComponents, unpackExponent_packComponents,
    unpackSign_packComponents, ofBitVec_toBitVec]
  rw [if_neg (by decide), if_neg (by decide)]
  congr

/-- packing a number of [1, 2) loses nothing -/
theorem pack_fraction (f : BitVec 52) :
    UnpackedFloat.pack format (.finite .positive (2 ^ 52 + f.toNat) (-52) (by omega)) =
      packComponents format .positive 1023#11 f := by
  have hlog : (2 ^ 52 + f.toNat).log2 = 52 := by
    rw [Nat.log2_eq_iff (by omega)]
    omega
  have hfraction : BitVec.ofNat 52 (2 ^ 52 + f.toNat) = f := by
    apply BitVec.eq_of_toNat_eq
    rw [BitVec.toNat_ofNat, Nat.add_mod_left, Nat.mod_eq_of_lt f.isLt]
  unfold UnpackedFloat.pack
  simp only [hlog]
  rw [if_neg (by decide), if_pos (by decide)]
  exact congrArg (packComponents format .positive 1023#11) hfraction

end Binary64

/-! ## The constant of a word -/

namespace Random.Stream

open Binary64 Float.Model

/-- a double as sign, mantissa and exponent -/
def value (x : Float) : UnpackedFloat :=
  x.toModel.unpack

theorem value_sub (x y : Float) : value (x - y) = stored (UnpackedFloat.sub format (value x) (value y)) := rfl

theorem value_mul (x y : Float) : value (x * y) = stored (UnpackedFloat.mul format (value x) (value y)) := rfl

theorem value_add (x y : Float) : value (x + y) = stored (UnpackedFloat.add format (value x) (value y)) := rfl

theorem value_ofBits_fraction (w : UInt64) :
    value (Float.ofBits ((w >>> 12) ||| 0x3FF0000000000000)) =
      .finite .positive (2 ^ 52 + (w.toBitVec.extractLsb' 12 52).toNat) (-52) (by omega) := by
  show stored (UnpackedFloat.unpack format ((w >>> 12) ||| 0x3FF0000000000000).toBitVec) = _
  rw [toBitVec_fraction, unpack_fraction, stored, pack_fraction, unpack_fraction]

theorem value_one : value 1.0 = .finite .positive (2 ^ 52) (-52) (by decide) := rfl

theorem value_width : value (constantBound + constantBound) = .finite .positive (25 * 2 ^ 48) (-45) (by decide) := rfl

theorem value_neg_bound : value (-constantBound) = .finite .negative (25 * 2 ^ 48) (-46) (by decide) := rfl

theorem value_bound : value constantBound = .finite .positive (25 * 2 ^ 48) (-46) (by decide) := rfl

/-- **Random constants are finite.** -/
theorem isFinite_of_constantOf {w : UInt64} {c : Float} (h : constantOf w = some c) : c.isFinite = true := by
  simp only [constantOf] at h
  split at h
  · rename_i hlt
    simp only [Option.some.injEq] at h
    subst h
    set x := Float.ofBits ((w >>> 12) ||| 0x3FF0000000000000) - 1.0 with hx
    have hfraction : NonNegative (value x) := by
      rw [hx, value_sub, value_ofBits_fraction, value_one]
      exact (nonNegative_sub _ _ (by omega)).stored
    have hscaled : NonNegative (value (x * (constantBound + constantBound))) := by
      rw [value_mul, value_width]
      exact (nonNegative_mul hfraction _ _).stored
    have hbelow : (value (x * (constantBound + constantBound) + -constantBound)).lt (value constantBound) = true :=
      of_decide_eq_true hlt
    show (value (x * (constantBound + constantBound) + -constantBound)).isFinite = true
    rw [value_bound] at hbelow
    rw [value_add, value_neg_bound] at hbelow ⊢
    rcases add_negative hscaled (m := 25 * 2 ^ 48) (e := -46) (by decide) (by decide) with hpos | hfits
    · exact hpos.stored.isFinite_of_lt hbelow
    · exact isFinite_stored hfits
  · cases h

end Random.Stream

end TradingRobots
