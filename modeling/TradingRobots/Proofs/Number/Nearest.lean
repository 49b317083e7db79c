/-
The double nearest to a quotient. A finite double is a dyadic number with at most 53 bits above the least place, and
with all of them unless its place is the least; its bits without the sign count such numbers from zero.

The reals around a dyadic number that round to it form an interval, whose ends belong to it when its mantissa is even.
A quotient of the interval has the same last place as the number, or the next lower one just below a power of two, and
is rounded to its mantissa there.

`ofRatio_of_holds`: a quotient in the interval around a dyadic number has that number's bits.
`withSign_bits`: a finite double is made again of its sign and of its bits without it.
-/
import TradingRobots.Proofs.Number.Sign

namespace TradingRobots

/-! ## Rounding to a whole number -/

namespace Rounding

/-- a whole number at most half a unit away is the nearest one; half way it must be the even one -/
theorem nearest_eq {a b m : Nat} (hb : 0 < b) (hlow : 2 * m * b ≤ 2 * a + b) (hhigh : 2 * a ≤ 2 * m * b + b)
    (hodd : m % 2 = 1 → 2 * m * b < 2 * a + b ∧ 2 * a < 2 * m * b + b) : nearest .toEven a b = m := by
  have hsplit := Nat.div_add_mod a b
  have hrest := Nat.mod_lt a hb
  unfold nearest
  dsimp only
  generalize a / b = q at hsplit
  generalize a % b = t at hsplit hrest
  subst hsplit
  -- the number is the quotient cut off, or one more
  have hle : m ≤ q + 1 := by
    by_contra hgt
    have := Nat.mul_le_mul_right b (Nat.lt_of_not_le hgt)
    nlinarith
  have hge : q ≤ m := by
    by_contra hlt
    have := Nat.mul_le_mul_right b (Nat.lt_of_not_le hlt)
    nlinarith
  rcases Nat.eq_or_lt_of_le hge with rfl | hlt
  · split_ifs
    · rfl
    · nlinarith
    · have heven : q % 2 ≠ 1 := fun hone => by nlinarith [hodd hone]
      omega
  · obtain rfl : m = q + 1 := by omega
    split_ifs
    · nlinarith
    · rfl
    · have heven : (q + 1) % 2 ≠ 1 := fun hone => by nlinarith [hodd hone]
      show q + q % 2 = q + 1
      omega

/-- the nearest whole number is at most half a unit away -/
theorem nearest_close (tie : Tie) (a : Nat) {b : Nat} (hb : 0 < b) :
    2 * a ≤ 2 * (nearest tie a b) * b + b ∧ 2 * (nearest tie a b) * b ≤ 2 * a + b := by
  have hsplit := Nat.div_add_mod a b
  have hrest := Nat.mod_lt a hb
  unfold nearest
  dsimp only
  generalize a / b = q at hsplit
  generalize a % b = t at hsplit hrest
  subst hsplit
  split_ifs
  · constructor <;> nlinarith
  · constructor <;> nlinarith
  · have hhalf : 2 * t = b := by omega
    cases tie with
    | up => constructor <;> nlinarith
    | toEven =>
      show 2 * (b * q + t) ≤ 2 * (q + q % 2) * b + b ∧ 2 * (q + q % 2) * b ≤ 2 * (b * q + t) + b
      rcases Nat.mod_two_eq_zero_or_one q with hparity | hparity
      all_goals
        rw [hparity]
        constructor <;> nlinarith

end Rounding

/-! ## Quotients and powers of two -/

/-- the size of a dyadic number -/
def Dyadic.size (v : Dyadic) : ℚ :=
  v.mantissa * 2 ^ v.exponent

theorem two_zpow_pos (q : Int) : (0 : ℚ) < 2 ^ q :=
  zpow_pos (by decide) q

theorem two_zpow_succ (q : Int) : (2 : ℚ) ^ (q + 1) = 2 * 2 ^ q := by
  rw [zpow_add₀ (by decide), zpow_one, mul_comm]

theorem Dyadic.ratio_eq (v : Dyadic) : (v.ratio.1 : ℚ) / v.ratio.2 = v.size := by
  unfold Dyadic.ratio Dyadic.size
  split
  next h =>
    obtain ⟨k, hk⟩ := Int.eq_ofNat_of_zero_le h
    rw [hk]
    simp
  next h =>
    obtain ⟨k, hk⟩ : ∃ k : Nat, v.exponent = -(k : Int) := ⟨(-v.exponent).toNat, by omega⟩
    rw [hk]
    simp [div_eq_mul_inv]

theorem Dyadic.ratio_fst_pos {v : Dyadic} (h : v.mantissa ≠ 0) : 0 < v.ratio.1 := by
  have hpos := Nat.pos_of_ne_zero h
  unfold Dyadic.ratio
  split
  · exact Nat.mul_pos hpos (Nat.pow_pos (by decide))
  · exact hpos

theorem Dyadic.ratio_snd_pos (v : Dyadic) : 0 < v.ratio.2 := by
  unfold Dyadic.ratio
  split
  · exact Nat.one_pos
  · exact Nat.pow_pos (by decide)

/-- the lengths in bits of two numbers tell their quotient up to a factor of two -/
theorem quotient_between {n d : Nat} (hn : 0 < n) (hd : 0 < d) :
    (2 : ℚ) ^ ((n.log2 : Int) - d.log2 - 1) < n / d ∧ (n : ℚ) / d < 2 ^ ((n.log2 : Int) - d.log2 + 1) := by
  have hbounds : ∀ k : Nat, 0 < k → (2 : ℚ) ^ (k.log2 : Int) ≤ k ∧ (k : ℚ) < 2 ^ ((k.log2 : Int) + 1) := by
    intro k hk
    constructor
    · exact_mod_cast Nat.log2_self_le (Nat.ne_of_gt hk)
    · exact_mod_cast Nat.lt_log2_self (n := k)
  obtain ⟨hnlow, hnhigh⟩ := hbounds n hn
  obtain ⟨hdlow, hdhigh⟩ := hbounds d hd
  have hdpos : (0 : ℚ) < d := by exact_mod_cast hd
  constructor
  · rw [lt_div_iff₀ hdpos]
    calc (2 : ℚ) ^ ((n.log2 : Int) - d.log2 - 1) * d
        < 2 ^ ((n.log2 : Int) - d.log2 - 1) * 2 ^ ((d.log2 : Int) + 1) := by gcongr
      _ = 2 ^ (n.log2 : Int) := by rw [← zpow_add₀ (by decide)]; congr 1; ring
      _ ≤ n := hnlow
  · rw [div_lt_iff₀ hdpos]
    calc (n : ℚ) < 2 ^ ((n.log2 : Int) + 1) := hnhigh
      _ = 2 ^ ((n.log2 : Int) - d.log2 + 1) * 2 ^ (d.log2 : Int) := by
        rw [← zpow_add₀ (by decide)]; congr 1; ring
      _ ≤ 2 ^ ((n.log2 : Int) - d.log2 + 1) * d := by gcongr

namespace Binary64

/-- a quotient in units of a power of two -/
theorem inUnits_eq (q : Int) (n d : Nat) :
    ((inUnits q n d).1 : ℚ) / (inUnits q n d).2 = n / d / 2 ^ q := by
  unfold inUnits
  split
  next h =>
    obtain ⟨k, hk⟩ := Int.eq_ofNat_of_zero_le h
    rw [hk]
    simp [div_div]
  next h =>
    obtain ⟨k, hk⟩ : ∃ k : Nat, q = -(k : Int) := ⟨(-q).toNat, by omega⟩
    rw [hk]
    simp [div_eq_mul_inv, mul_right_comm]

theorem inUnits_snd_pos (q : Int) (n : Nat) {d : Nat} (hd : 0 < d) : 0 < (inUnits q n d).2 := by
  unfold inUnits
  split
  · exact Nat.mul_pos hd (Nat.pow_pos (by decide))
  · exact hd

/-- the last place of a quotient leaves 53 bits above it, all of them used unless it is the least place -/
theorem lastPlace_spec {n d : Nat} (hn : 0 < n) (hd : 0 < d) :
    -1074 ≤ lastPlace n d ∧ (n : ℚ) / d < 2 ^ 53 * 2 ^ lastPlace n d ∧
      (lastPlace n d = -1074 ∨ 2 ^ 52 * 2 ^ lastPlace n d ≤ (n : ℚ) / d) := by
  obtain ⟨hlow, hhigh⟩ := quotient_between hn hd
  -- a place that fits without the bound
  obtain ⟨q, hq, hbelow, habove⟩ : ∃ q : Int, lastPlace n d = max q (-1074) ∧ (n : ℚ) / d < 2 ^ 53 * 2 ^ q ∧
      2 ^ 52 * 2 ^ q ≤ (n : ℚ) / d := by
    unfold lastPlace
    dsimp only
    generalize hguess : (n.log2 : Int) - d.log2 - 53 = guess
    have hunits := inUnits_eq guess n d
    have hpos := inUnits_snd_pos guess n hd
    generalize inUnits guess n d = u at hunits hpos
    obtain ⟨a, b⟩ := u
    dsimp only at hunits hpos ⊢
    have hbpos : (0 : ℚ) < b := by exact_mod_cast hpos
    have hp := two_zpow_pos guess
    rw [div_eq_div_iff hbpos.ne' hp.ne'] at hunits
    have hguesslow : 2 ^ 52 * 2 ^ guess ≤ (n : ℚ) / d := by
      refine le_of_eq_of_le ?_ hlow.le
      rw [show (2 : ℚ) ^ 52 = 2 ^ (52 : Int) by norm_num, ← zpow_add₀ (by decide)]
      congr 1
      omega
    have hguesshigh : (n : ℚ) / d < 2 ^ 54 * 2 ^ guess := by
      refine lt_of_lt_of_eq hhigh ?_
      rw [show (2 : ℚ) ^ 54 = 2 ^ (54 : Int) by norm_num, ← zpow_add₀ (by decide)]
      congr 1
      omega
    by_cases hsmall : a / b < 2 ^ 53
    · refine ⟨guess, by rw [if_pos hsmall], ?_, hguesslow⟩
      have ha : (a : ℚ) < 2 ^ 53 * b := by exact_mod_cast (Nat.div_lt_iff_lt_mul hpos).1 hsmall
      nlinarith
    · refine ⟨guess + 1, by rw [if_neg hsmall], ?_, ?_⟩
      · rw [two_zpow_succ]
        linarith
      · have ha : 2 ^ 53 * (b : ℚ) ≤ a := by
          exact_mod_cast (Nat.le_div_iff_mul_le hpos).1 (Nat.le_of_not_lt hsmall)
        rw [two_zpow_succ]
        nlinarith
  rcases le_total (-1074) q with hle | hle
  · rw [hq, max_eq_left hle]
    exact ⟨hle, hbelow, .inr habove⟩
  · rw [hq, max_eq_right hle]
    refine ⟨le_rfl, lt_of_lt_of_le hbelow ?_, .inl rfl⟩
    have : (2 : ℚ) ^ q ≤ 2 ^ (-1074 : Int) := zpow_le_zpow_right₀ (by decide) hle
    gcongr

end Binary64

/-! ## Finite doubles as dyadic numbers -/

namespace Dyadic

/-- the dyadic numbers that doubles are: the full 53 bits, or fewer at the least place -/
structure Canonical (v : Dyadic) : Prop where
  short : v.mantissa < 2 ^ 53
  least : -1074 ≤ v.exponent
  most : v.exponent ≤ 971
  full : 2 ^ 52 ≤ v.mantissa ∨ v.exponent = -1074

/-- the bits of a double without its sign -/
def bits (v : Dyadic) : Nat :=
  (v.exponent + 1074).toNat * 2 ^ 52 + v.mantissa

end Dyadic

namespace Binary64

open Float.Model Float.Model.UnpackedFloat

/-- a finite double does not have the largest exponent field -/
theorem exponentField_of_isFinite {x : Float} (h : x.isFinite = true) : x.toBits.toNat / 2 ^ 52 % 2 ^ 11 ≠ 2047 := by
  intro hfield
  have hspecial : @unpackExponent format x.toBits.toBitVec = -1#11 := by
    apply BitVec.eq_of_toNat_eq
    rw [toNat_unpackExponent]
    exact hfield
  have hfinite : (UnpackedFloat.unpack format x.toBits.toBitVec).isFinite = true := h
  rw [← packComponents_unpacked x.toBits.toBitVec, hspecial, unpack_packComponents_special] at hfinite
  by_cases hfraction : @unpackMantissa format x.toBits.toBitVec = 0#52
  · rw [if_pos hfraction] at hfinite
    cases hfinite
  · rw [if_neg hfraction] at hfinite
    cases hfinite

theorem canonical_decode {x : Float} (h : x.isFinite = true) : (decode x).Canonical := by
  have hfield := exponentField_of_isFinite h
  unfold decode
  dsimp only
  constructor
  all_goals
    dsimp only
    split_ifs <;> omega

theorem bits_decode (x : Float) : (decode x).bits = x.toBits.toNat % 2 ^ 63 := by
  unfold decode Dyadic.bits
  dsimp only
  by_cases hzero : x.toBits.toNat / 2 ^ 52 % 2 ^ 11 = 0
  · rw [if_pos hzero, if_pos hzero]
    omega
  · rw [if_neg hzero, if_neg hzero]
    omega

/-- a word with the sign bit is the negative of the word without -/
theorem unpack_negative (e : BitVec 11) (m : BitVec 52) :
    UnpackedFloat.unpack format (packComponents format .negative e m) =
      (UnpackedFloat.unpack format (packComponents format .positive e m)).neg := by
  simp only [UnpackedFloat.unpack, unpackMantissa_packComponents, unpackExponent_packComponents,
    unpackSign_packComponents, ofBitVec_toBitVec]
  split_ifs <;> rfl

theorem ext_toBits {x y : Float} (h : x.toBits.toBitVec = y.toBits.toBitVec) : x = y := by
  obtain ⟨u, hu⟩ := x
  obtain ⟨v, hv⟩ := y
  have hbits : u = v := UInt64.toBitVec_inj.1 h
  subst hbits
  rfl

/-- a word that is no NaN is stored as it is -/
theorem toBits_ofBits {w : UInt64} (h : @unpackExponent format w.toBitVec ≠ -1#11) :
    (Float.ofBits w).toBits.toBitVec = w.toBitVec := by
  have hvalid : format.Valid w.toBitVec := ⟨fun hspecial => absurd hspecial h⟩
  exact pack_unpack_of_valid hvalid

/-- the negative of a word without the sign bit is the word with it -/
theorem toBits_neg_ofBits {e : BitVec 11} {m : BitVec 52} (he : e ≠ -1#11) {w : UInt64}
    (hw : w.toBitVec = packComponents format .positive e m) :
    (-Float.ofBits w).toBits.toBitVec = packComponents format .negative e m := by
  have hplain : ∀ s, @unpackExponent format (packComponents format s e m) ≠ -1#11 := fun s => by
    rwa [unpackExponent_packComponents]
  have hstored := toBits_ofBits (w := w) (by rw [hw]; exact hplain .positive)
  show UnpackedFloat.pack format (UnpackedFloat.unpack format (Float.ofBits w).toBits.toBitVec).neg = _
  rw [hstored, hw, ← unpack_negative]
  exact pack_unpack_of_valid ⟨fun hspecial => absurd hspecial (hplain .negative)⟩

/-- **A finite double is made again of its sign and of its bits without it.** -/
theorem withSign_bits {x : Float} (h : x.isFinite = true) :
    withSign (decode x).negative (Float.ofBits (UInt64.ofNat (decode x).bits)) = x := by
  have hfield := exponentField_of_isFinite h
  have hlt := x.toBits.toNat_lt
  rw [bits_decode]
  generalize hw : UInt64.ofNat (x.toBits.toNat % 2 ^ 63) = w
  have hwbits : w.toNat = x.toBits.toNat % 2 ^ 63 := by
    rw [← hw, UInt64.toNat_ofNat', Nat.mod_eq_of_lt (by omega)]
  have hexponent : @unpackExponent format w.toBitVec = @unpackExponent format x.toBits.toBitVec := by
    apply BitVec.eq_of_toNat_eq
    rw [toNat_unpackExponent, toNat_unpackExponent]
    show w.toNat / 2 ^ 52 % 2 ^ 11 = x.toBits.toNat / 2 ^ 52 % 2 ^ 11
    omega
  have hplain : @unpackExponent format x.toBits.toBitVec ≠ -1#11 := by
    intro hspecial
    have := congrArg BitVec.toNat hspecial
    rw [toNat_unpackExponent] at this
    exact hfield this
  by_cases hsign : x.toBits.toNat / 2 ^ 63 = 1
  · have hnegative : (decode x).negative = true := decide_eq_true hsign
    have hmantissa : @unpackMantissa format w.toBitVec = @unpackMantissa format x.toBits.toBitVec := by
      apply BitVec.eq_of_toNat_eq
      rw [toNat_unpackMantissa, toNat_unpackMantissa]
      show w.toNat % 2 ^ 52 = x.toBits.toNat % 2 ^ 52
      omega
    have hwsign : @unpackSign format w.toBitVec = 0#1 := by
      apply BitVec.eq_of_toNat_eq
      rw [toNat_unpackSign]
      show w.toNat / 2 ^ 63 = 0
      omega
    have hxsign : @unpackSign format x.toBits.toBitVec = 1#1 := by
      apply BitVec.eq_of_toNat_eq
      rw [toNat_unpackSign]
      exact hsign
    have hwparts := packComponents_unpacked w.toBitVec
    have hxparts := packComponents_unpacked x.toBits.toBitVec
    rw [hwsign, hexponent, hmantissa] at hwparts
    rw [hxsign] at hxparts
    rw [hnegative, withSign, if_pos rfl]
    exact ext_toBits ((toBits_neg_ofBits hplain hwparts.symm).trans hxparts)
  · have hpositive : (decode x).negative = false := decide_eq_false hsign
    rw [hpositive, withSign, if_neg Bool.false_ne_true]
    refine ext_toBits ((toBits_ofBits (hexponent ▸ hplain)).trans (BitVec.eq_of_toNat_eq ?_))
    show w.toNat = x.toBits.toNat
    omega

/-- a sign makes nothing finite -/
theorem isFinite_of_withSign {x : Float} {negative : Bool} (h : (withSign negative x).isFinite = true) :
    x.isFinite = true := by
  cases negative with
  | false => exact h
  | true =>
    have hfinite : (stored (UnpackedFloat.unpack format x.toBits.toBitVec).neg).isFinite = true := h
    show (UnpackedFloat.unpack format x.toBits.toBitVec).isFinite = true
    generalize UnpackedFloat.unpack format x.toBits.toBitVec = u at hfinite
    cases u with
    | infinity s =>
      rw [UnpackedFloat.neg, stored_infinity] at hfinite
      exact hfinite
    | notANumber =>
      rw [UnpackedFloat.neg, stored_notANumber] at hfinite
      exact hfinite
    | zero s => rfl
    | finite s m e hm => rfl

end Binary64

/-! ## The interval around a dyadic number -/

namespace Dyadic

variable {v : Dyadic} {x : ℚ}

/-- the way down to the end of the interval, in quarters of the last place -/
def gap (v : Dyadic) : Nat :=
  if v.mantissa = 2 ^ 52 ∧ -1074 < v.exponent then 1 else 2

theorem gap_le (v : Dyadic) : v.gap ≤ 2 := by
  unfold gap
  split_ifs <;> omega

/-- a number that rounds to a dyadic number: from half a place below it, less under a power of two, to half a place
above; the ends belong to an even mantissa -/
def Holds (v : Dyadic) (x : ℚ) : Prop :=
  let low : ℚ := (4 * v.mantissa - v.gap) * 2 ^ (v.exponent - 2)
  let high : ℚ := (4 * v.mantissa + 2) * 2 ^ (v.exponent - 2)
  if v.mantissa % 2 = 0 then low ≤ x ∧ x ≤ high else low < x ∧ x < high

/-- what lies between the ends rounds to the number -/
theorem holds_of_between (hlow : (4 * v.mantissa - v.gap : ℚ) * 2 ^ (v.exponent - 2) < x)
    (hhigh : x < (4 * v.mantissa + 2 : ℚ) * 2 ^ (v.exponent - 2)) : v.Holds x := by
  unfold Holds
  dsimp only
  split
  · exact ⟨hlow.le, hhigh.le⟩
  · exact ⟨hlow, hhigh⟩

/-- what rounds to the number lies between the ends, and reaches them only around an even mantissa -/
theorem Holds.ends (h : v.Holds x) :
    (4 * v.mantissa - v.gap : ℚ) * 2 ^ (v.exponent - 2) ≤ x ∧ x ≤ (4 * v.mantissa + 2 : ℚ) * 2 ^ (v.exponent - 2) ∧
      (v.mantissa % 2 = 1 → (4 * v.mantissa - v.gap : ℚ) * 2 ^ (v.exponent - 2) < x ∧
        x < (4 * v.mantissa + 2 : ℚ) * 2 ^ (v.exponent - 2)) := by
  unfold Holds at h
  dsimp only at h
  split at h
  next heven => exact ⟨h.1, h.2, fun hodd => by omega⟩
  next => exact ⟨h.1.le, h.2.le, fun _ => h⟩

end Dyadic

namespace Binary64

/-- a quotient near a whole number of units is rounded to that number -/
theorem nearest_inUnits {n d m : Nat} (hd : 0 < d) {q : Int} (hlow : (2 * m - 1 : ℚ) * 2 ^ q ≤ 2 * (n / d))
    (hhigh : 2 * ((n : ℚ) / d) ≤ (2 * m + 1) * 2 ^ q)
    (hodd : m % 2 = 1 → (2 * m - 1 : ℚ) * 2 ^ q < 2 * (n / d) ∧ 2 * ((n : ℚ) / d) < (2 * m + 1) * 2 ^ q) :
    Rounding.nearest .toEven (inUnits q n d).1 (inUnits q n d).2 = m := by
  have hunits := inUnits_eq q n d
  have hpos := inUnits_snd_pos q n hd
  generalize inUnits q n d = u at hunits hpos
  obtain ⟨a, b⟩ := u
  dsimp only at hunits hpos ⊢
  have hb : (0 : ℚ) < b := by exact_mod_cast hpos
  have hp := two_zpow_pos q
  have hquotient : (n : ℚ) / d = a / b * 2 ^ q := by rw [hunits, div_mul_cancel₀ _ hp.ne']
  have hsplit : (a : ℚ) = a / b * b := (div_mul_cancel₀ _ hb.ne').symm
  generalize (a : ℚ) / b = r at hquotient hsplit
  rw [hquotient] at hlow hhigh hodd
  have hr : 2 * (m : ℚ) - 1 ≤ 2 * r := by nlinarith
  have hr' : 2 * r ≤ 2 * (m : ℚ) + 1 := by nlinarith
  refine Rounding.nearest_eq hpos ?_ ?_ fun hm => ?_
  · have : 2 * (m : ℚ) * b ≤ 2 * a + b := by nlinarith
    exact_mod_cast this
  · have : 2 * (a : ℚ) ≤ 2 * m * b + b := by nlinarith
    exact_mod_cast this
  · obtain ⟨hlow, hhigh⟩ := hodd hm
    have hr : 2 * (m : ℚ) - 1 < 2 * r := by nlinarith
    have hr' : 2 * r < 2 * (m : ℚ) + 1 := by nlinarith
    constructor
    · have : 2 * (m : ℚ) * b < 2 * a + b := by nlinarith
      exact_mod_cast this
    · have : 2 * (a : ℚ) < 2 * m * b + b := by nlinarith
      exact_mod_cast this

/-- **A quotient in the interval around a dyadic number has that number's bits.** -/
theorem ofRatio_of_holds {v : Dyadic} (hv : v.Canonical) (hm : v.mantissa ≠ 0) {n d : Nat} (hd : 0 < d)
    (h : v.Holds (n / d)) : ofRatio n d = Float.ofBits (UInt64.ofNat v.bits) := by
  obtain ⟨hlow, hhigh, hodd⟩ := h.ends
  have hp := two_zpow_pos (v.exponent - 2)
  have hplace : (2 : ℚ) ^ v.exponent = 4 * 2 ^ (v.exponent - 2) := by
    rw [show v.exponent = v.exponent - 2 + 1 + 1 by omega, two_zpow_succ, two_zpow_succ]
    ring_nf
  have hgap : (v.gap : ℚ) ≤ 2 := by exact_mod_cast v.gap_le
  have hone : (1 : ℚ) ≤ v.mantissa := by exact_mod_cast Nat.one_le_iff_ne_zero.2 hm
  have hshort : (v.mantissa : ℚ) + 1 ≤ 2 ^ 53 := by exact_mod_cast hv.short
  have hn : 0 < n := by
    rcases Nat.eq_zero_or_pos n with rfl | hn
    · rw [Nat.cast_zero, zero_div] at hlow
      nlinarith
    · exact hn
  obtain ⟨hleast, hbelow, habove⟩ := lastPlace_spec hn hd
  have hbits : ∀ q m : _, lastPlace n d = q →
      Rounding.nearest .toEven (inUnits q n d).1 (inUnits q n d).2 = m →
      (q + 1074).toNat * 2 ^ 52 + m = v.bits → ofRatio n d = Float.ofBits (UInt64.ofNat v.bits) := by
    intro q m hq hnearest hsum
    have hword : v.bits ≤ infinityBits := by
      have hshort := hv.short
      have hmost := hv.most
      show (v.exponent + 1074).toNat * 2 ^ 52 + v.mantissa ≤ 2047 * 2 ^ 52
      omega
    unfold ofRatio
    rw [if_neg (Nat.ne_of_gt hn)]
    dsimp only
    rw [hq, hnearest, hsum, Nat.min_eq_left hword]
  generalize lastPlace n d = q at hleast hbelow habove hbits
  -- a higher place would leave too few bits
  have hle : q ≤ v.exponent := by
    by_contra hgt
    have hup : (2 : ℚ) ^ (v.exponent + 1) ≤ 2 ^ q := zpow_le_zpow_right₀ (by decide) (by omega)
    rw [two_zpow_succ, hplace] at hup
    rcases habove with hq | habove
    · have := hv.least
      omega
    · nlinarith
  rcases Int.lt_or_eq_of_le hle with hlt | rfl
  · -- the place below, of a number just under a power of two
    have hdown : (2 : ℚ) ^ q ≤ 2 ^ (v.exponent - 1) := zpow_le_zpow_right₀ (by decide) (by omega)
    have hhalf : (2 : ℚ) ^ (v.exponent - 1) = 2 * 2 ^ (v.exponent - 2) := by
      rw [← two_zpow_succ]
      congr 1
      omega
    have hpower : v.mantissa = 2 ^ 52 := by
      rcases hv.full with hfull | hfull
      · by_contra hne
        have : (2 : ℚ) ^ 52 + 1 ≤ v.mantissa := by exact_mod_cast Nat.lt_of_le_of_ne hfull (Ne.symm hne)
        nlinarith
      · omega
    have hgapone : v.gap = 1 := if_pos ⟨hpower, by omega⟩
    rw [hpower, hgapone] at hlow
    push_cast at hlow
    have hq : q = v.exponent - 1 := by
      by_contra hne
      have hfar : (2 : ℚ) ^ q ≤ 2 ^ (v.exponent - 2) := zpow_le_zpow_right₀ (by decide) (by omega)
      nlinarith
    subst hq
    rw [hhalf] at hbelow
    refine hbits _ (2 ^ 53) rfl (nearest_inUnits hd ?_ ?_ fun hodd => absurd hodd (by decide)) ?_
    · rw [hhalf]
      push_cast
      nlinarith
    · rw [hhalf]
      push_cast
      nlinarith
    · unfold Dyadic.bits
      rw [hpower]
      omega
  · refine hbits _ v.mantissa rfl (nearest_inUnits hd ?_ ?_ fun hm => ?_) rfl
    · rw [hplace]
      nlinarith
    · rw [hplace]
      nlinarith
    · obtain ⟨hlow, hhigh⟩ := hodd hm
      rw [hplace]
      constructor <;> nlinarith

end Binary64

end TradingRobots
