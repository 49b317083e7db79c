/-
Doubles made from quotients are ordered as the quotients. The bits of the double nearest to a quotient are the place and
the whole number of it, so they grow with the quotient, and doubles that are not negative are ordered as their bits.

`ofBits_mono`: larger bits spell no smaller double.
`ofRatio_mono`: the double nearest to a larger quotient is not smaller.
`ofRatio_large`, `ofRatio_small`: quotients outside the range of doubles.
-/
import TradingRobots.Proofs.Number.Rounding

namespace TradingRobots

/-! ## Bits of quotients -/

namespace Binary64

open Float.Model Float.Model.UnpackedFloat
open Random.Stream (value)

variable {n d : Nat} {t s : Int} {x y : ℚ}

theorem placed_lastPlace (hn : 0 < n) (hd : 0 < d) : Placed (lastPlace n d) (n / d) :=
  let h := lastPlace_spec hn hd
  ⟨h.1, h.2.1, h.2.2⟩

/-- the bits of the double nearest to a number, unless it is too large -/
def bitsAt (t : Int) (x : ℚ) : Nat :=
  (t + 1074).toNat * 2 ^ 52 + Rounding.even (x / 2 ^ t)

theorem bitsAt_mono (hx : Placed t x) (hy : Placed s y) (h : x ≤ y) : bitsAt t x ≤ bitsAt s y := by
  have hleast := hx.least
  unfold bitsAt
  rcases (hx.mono hy h).lt_or_eq with hlt | rfl
  · have := hx.even_le
    have := hy.le_even (by omega)
    omega
  · have := Rounding.even_mono (div_le_div_of_nonneg_right h (two_zpow_pos t).le)
    omega

theorem ofRatio_eq (hn : 0 < n) (hd : 0 < d) (h : Placed t (n / d)) :
    ofRatio n d = Float.ofBits (UInt64.ofNat (min (bitsAt t (n / d)) infinityBits)) := by
  obtain rfl := (placed_lastPlace hn hd).unique h
  have hunits := inUnits_eq (lastPlace n d) n d
  unfold ofRatio bitsAt
  rw [if_neg (Nat.ne_of_gt hn)]
  dsimp only
  rw [Rounding.nearest_eq_even _ (inUnits_snd_pos _ _ hd), hunits]

end Binary64

/-! ## The order of bits -/

namespace Dyadic

/-- canonical numbers are ordered as their bits -/
theorem Canonical.size_le {v w : Dyadic} (hv : v.Canonical) (hw : w.Canonical) (h : v.bits ≤ w.bits) : v.size ≤ w.size := by
  unfold Dyadic.bits at h
  unfold Dyadic.size
  have := hv.short
  have := hv.least
  have := hw.short
  have := hw.least
  rcases lt_trichotomy v.exponent w.exponent with hlt | heq | hgt
  · exact (Binary64.size_lt_of_exponent_lt hv.short (hw.full.resolve_right (by omega)) hlt).le
  · have hle : (v.mantissa : ℚ) ≤ w.mantissa := by
      have : v.mantissa ≤ w.mantissa := by
        rw [heq] at h
        omega
      exact_mod_cast this
    rw [heq]
    exact mul_le_mul_of_nonneg_right hle (two_zpow_pos _).le
  · have := hv.full.resolve_right (by omega)
    omega

end Dyadic

namespace Binary64

open Float.Model Float.Model.UnpackedFloat
open Random.Stream (value)

variable {x y : ℚ}

/-- the size of a finite double, by its mantissa and exponent -/
theorem size_value {x : Float} (h : x.isFinite = true) : size (value x) = (decode x).size := by
  have hplain : @unpackExponent format x.toBits.toBitVec ≠ -1#11 := by
    intro hspecial
    have hfield := congrArg BitVec.toNat hspecial
    rw [toNat_unpackExponent] at hfield
    exact exponentField_of_isFinite h hfield
  have hexponent := toNat_unpackExponent x.toBits.toBitVec
  have hmantissa := toNat_unpackMantissa x.toBits.toBitVec
  have hopen := unpack_packComponents (Sign.ofBitVec (@unpackSign format x.toBits.toBitVec))
    (@unpackMantissa format x.toBits.toBitVec) hplain
  rw [packComponents_unpacked] at hopen
  have hvalue : value x = UnpackedFloat.unpack format x.toBits.toBitVec := rfl
  have hbits : x.toBits.toBitVec.toNat = x.toBits.toNat := rfl
  rw [hvalue, hopen]
  unfold decode Dyadic.size
  dsimp only
  rw [← hbits, ← hexponent, ← hmantissa]
  generalize @unpackExponent format x.toBits.toBitVec = e at hplain
  generalize @unpackMantissa format x.toBits.toBitVec = m
  by_cases hleast : e = 0#11
  · subst hleast
    rw [if_pos rfl]
    by_cases hzero : m = 0#52
    · subst hzero
      simp [size]
    · simp [hzero, size]
  · have hpos : e.toNat ≠ 0 := fun hfield => hleast (BitVec.eq_of_toNat_eq hfield)
    rw [if_neg hleast, if_neg hpos, if_neg hpos, size_finite, toNat_fraction, Nat.add_comm]

/-- bits below those of infinity spell a finite double, -/
theorem plain_ofNat {w : Nat} (hw : w < infinityBits) :
    @unpackExponent format (UInt64.ofNat w).toBitVec ≠ -1#11 := by
  have hlt : w < 2047 * 2 ^ 52 := hw
  intro hspecial
  have hfield := congrArg BitVec.toNat hspecial
  rw [toNat_unpackExponent] at hfield
  have hword : (UInt64.ofNat w).toBitVec.toNat = w := by
    show (UInt64.ofNat w).toNat = w
    rw [UInt64.toNat_ofNat', Nat.mod_eq_of_lt (by omega)]
  rw [hword] at hfield
  have : w / 2 ^ 52 % 2 ^ 11 = 2047 := hfield
  omega

theorem isFinite_ofBits {w : Nat} (hw : w < infinityBits) :
    (Float.ofBits (UInt64.ofNat w)).isFinite = true := by
  have hopen := unpack_packComponents_finite (Sign.ofBitVec (@unpackSign format (UInt64.ofNat w).toBitVec))
    (@unpackMantissa format (UInt64.ofNat w).toBitVec) (plain_ofNat hw)
  rw [packComponents_unpacked] at hopen
  show (UnpackedFloat.unpack format (Float.ofBits (UInt64.ofNat w)).toBits.toBitVec).isFinite = true
  rw [toBits_ofBits (plain_ofNat hw)]
  exact hopen.1

/-- whose number they are. -/
theorem bits_ofBits {w : Nat} (hw : w < infinityBits) : (decode (Float.ofBits (UInt64.ofNat w))).bits = w := by
  have hlt : w < 2047 * 2 ^ 52 := hw
  have hstored := congrArg BitVec.toNat (toBits_ofBits (plain_ofNat hw))
  have hbits : (Float.ofBits (UInt64.ofNat w)).toBits.toNat = (UInt64.ofNat w).toNat := hstored
  rw [bits_decode, hbits, UInt64.toNat_ofNat', Nat.mod_eq_of_lt (by omega), Nat.mod_eq_of_lt (by omega)]

/-- infinity is above all that is not negative -/
theorem le_infinity {u : UnpackedFloat} (h : NonNegative u) : u.le (.infinity .positive) = true := by
  cases u with
  | notANumber => cases h
  | infinity s =>
    cases h
    rfl
  | zero s => rfl
  | finite s m e hm => rfl

theorem nonNegative_ofNat {w : Nat} (hw : w ≤ infinityBits) :
    NonNegative (value (Float.ofBits (UInt64.ofNat w))) := by
  apply nonNegative_ofBits
  have hword : infinityBits < 2 ^ 64 := by decide
  rwa [UInt64.toNat_ofNat', Nat.mod_eq_of_lt (by omega)]

/-- **Doubles that are not negative are ordered as their bits.** -/
theorem ofBits_mono {v w : Nat} (h : v ≤ w) (hw : w ≤ infinityBits) :
    Float.ofBits (UInt64.ofNat v) ≤ Float.ofBits (UInt64.ofNat w) := by
  have hpv := nonNegative_ofNat (h.trans hw)
  rw [le_iff]
  rcases Nat.lt_or_eq_of_le hw with hlt | rfl
  · have hfv := isFinite_ofBits (h.trans_lt hlt)
    have hfw := isFinite_ofBits hlt
    refine le_of_size_le (rounded_value hfv).1 (rounded_value hfw).1 hpv (nonNegative_ofNat hw) ?_
    rw [size_value hfv, size_value hfw]
    apply (canonical_decode hfv).size_le (canonical_decode hfw)
    rwa [bits_ofBits (h.trans_lt hlt), bits_ofBits hlt]
  · exact le_infinity hpv

/-- **The double nearest to a larger quotient is not smaller.** -/
theorem ofRatio_mono {n d n' d' : Nat} (hd : 0 < d) (hd' : 0 < d') (h : (n : ℚ) / d ≤ n' / d') :
    ofRatio n d ≤ ofRatio n' d' := by
  rcases Nat.eq_zero_or_pos n with rfl | hn
  · exact zero_le_of_nonNegative (nonNegative_ofRatio n' d')
  have hpos : (0 : ℚ) < n / d := div_pos (by exact_mod_cast hn) (by exact_mod_cast hd)
  have hn' : 0 < n' := by
    rcases Nat.eq_zero_or_pos n' with rfl | hn'
    · rw [Nat.cast_zero, zero_div] at h
      exact absurd hpos (not_lt.2 h)
    · exact hn'
  have hx := placed_lastPlace hn hd
  have hy := placed_lastPlace hn' hd'
  rw [ofRatio_eq hn hd hx, ofRatio_eq hn' hd' hy]
  exact ofBits_mono (min_le_min_right _ (bitsAt_mono hx hy h)) (min_le_right _ _)

/-- equal quotients have the same nearest double -/
theorem ofRatio_congr {n d n' d' : Nat} (hn : 0 < n) (hd : 0 < d) (hn' : 0 < n') (hd' : 0 < d')
    (h : (n : ℚ) / d = n' / d') : ofRatio n d = ofRatio n' d' := by
  have hy := placed_lastPlace hn' hd'
  rw [ofRatio_eq hn hd (h ▸ hy), ofRatio_eq hn' hd' hy, h]

/-- a quotient beyond all doubles is rounded to infinity -/
theorem ofRatio_large {n d : Nat} (hn : 0 < n) (hd : 0 < d) (h : (2 : ℚ) ^ 53 * 2 ^ (971 : Int) ≤ n / d) :
    ofRatio n d = infinity := by
  have hx := placed_lastPlace hn hd
  rw [ofRatio_eq hn hd hx]
  generalize lastPlace n d = t at hx
  have hplace : 972 ≤ t := by
    by_contra hlt
    have hle : (2 : ℚ) ^ t ≤ 2 ^ (971 : Int) := zpow_le_zpow_right₀ (by norm_num) (by omega)
    have hbelow := hx.below
    linarith
  have hbits : infinityBits ≤ bitsAt t (n / d) := by
    have hfull := hx.le_even (by omega)
    show 2047 * 2 ^ 52 ≤ (t + 1074).toNat * 2 ^ 52 + Rounding.even ((n : ℚ) / d / 2 ^ t)
    omega
  rw [Nat.min_eq_right hbits]
  rfl

/-- a quotient below half the least double is rounded to zero -/
theorem ofRatio_small {n d : Nat} (hn : 0 < n) (hd : 0 < d) (h : 2 * ((n : ℚ) / d) < 2 ^ (-1074 : Int)) :
    ofRatio n d = 0.0 := by
  have hx := placed_lastPlace hn hd
  rw [ofRatio_eq hn hd hx]
  generalize lastPlace n d = t at hx
  have hplace : t = -1074 := by
    by_contra hne
    have hfull := hx.full.resolve_left hne
    have hle : (2 : ℚ) ^ (-1074 : Int) ≤ 2 ^ t := zpow_le_zpow_right₀ (by norm_num) hx.least
    have hpos := two_zpow_pos (-1074)
    linarith
  subst hplace
  have hless : (n : ℚ) / d / 2 ^ (-1074 : Int) < 1 / 2 := by
    rw [div_lt_iff₀ (two_zpow_pos _)]
    linarith
  have hnone : Rounding.even ((n : ℚ) / d / 2 ^ (-1074 : Int)) = 0 := by
    have hfloor : ⌊(n : ℚ) / d / 2 ^ (-1074 : Int)⌋₊ = 0 := Nat.floor_eq_zero.2 (by linarith)
    rw [Rounding.even, hfloor, if_pos (by rw [Nat.cast_zero]; linarith)]
  rw [bitsAt, hnone]
  rfl

end Binary64

end TradingRobots
