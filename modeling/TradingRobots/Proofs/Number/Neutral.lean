/-
Factors of one and of zero, zeros in sums, and sums that are numbers.

A finite double times one is itself, times minus one it has the other sign, and times zero it is a zero. A zero that is
added changes no number; the result may be the other zero only. So sums that differ in zeros alone, and in what they
start from, are the same number.

`one_mul_eq`, `value_neg_one_mul`, `isZero_zero_mul`: factors.
`SameNumber.add`, `sameNumber_add_zero`: zeros that are added.
`sameNumber_sums`: sums with and without zeros.
`IsNumber.add`, `isNumber_sub`: finite doubles that are added or subtracted make no NaN.
-/
import TradingRobots.Proofs.Number.Extent
import TradingRobots.Proofs.Number.Order

namespace TradingRobots.Binary64

open Float.Model Float.Model.UnpackedFloat
open Random.Stream (value value_add value_sub value_mul value_one)

variable {x y z : Float} {u v : UnpackedFloat}

/-! ## Factors -/

/-- what rounding leaves is told by its sign and its size -/
theorem eq_of_size_eq (hu : Rounded u) (hv : Rounded v) (hsign : signOf? u = signOf? v) (hsize : size u = size v) :
    u = v := by
  cases u with
  | zero s =>
    cases v with
    | zero t => exact congrArg UnpackedFloat.zero (Option.some.inj hsign)
    | finite t k f hk =>
      have hpos : (0 : ℚ) < k * 2 ^ f := mul_pos (by exact_mod_cast hk) (two_zpow_pos f)
      exact absurd hsize hpos.ne
    | _ => exact absurd hv id
  | finite s m e hm =>
    cases v with
    | zero t =>
      have hpos : (0 : ℚ) < m * 2 ^ e := mul_pos (by exact_mod_cast hm) (two_zpow_pos e)
      exact absurd hsize hpos.ne'
    | finite t k f hk =>
      have hbelow := not_gt_of_size_le hu hv hsize.le
      have habove := not_gt_of_size_le hv hu hsize.ge
      obtain rfl : s = t := Option.some.inj hsign
      obtain rfl : e = f := by omega
      obtain rfl : m = k := by omega
      rfl
    | _ => exact absurd hv id
  | _ => exact absurd hu id

/-- a number with its sign multiplied by another one -/
def signedBy (s : Sign) : UnpackedFloat → UnpackedFloat
  | .zero t => .zero (s * t)
  | .finite t m e hm => .finite (s * t) m e hm
  | .infinity t => .infinity (s * t)
  | .notANumber => .notANumber

theorem Rounded.signedBy (h : Rounded u) (s : Sign) : Rounded (signedBy s u) := by
  cases u with
  | zero t => trivial
  | finite t m e hm => exact h
  | _ => exact absurd h id

theorem Fits.signedBy (h : Fits u) (s : Sign) : Fits (signedBy s u) := by
  cases u with
  | zero t => trivial
  | finite t m e hm => exact h
  | _ => exact absurd h id

/-- **A factor of one, or of minus one, gives its sign** and changes nothing else. -/
theorem mul_unit (s : Sign) (hu : Rounded u) :
    UnpackedFloat.mul format (.finite s (2 ^ 52) (-52) (by decide)) u = signedBy s u := by
  cases u with
  | zero t => rfl
  | finite t k f hk =>
    have hlog : (2 ^ 52 * k).log2 = 52 + k.log2 := by
      rw [Nat.mul_comm, ← Nat.shiftLeft_eq, log2_shiftLeft (Nat.ne_of_gt hk), Nat.add_comm]
    have hround := nearest_roundWithAccuracy (s * t) (located_exact (2 ^ 52 * k)) (e := -52 + f) (by omega)
    have hunit : ((2 ^ 52 : Nat) : ℚ) * 2 ^ (-52 : Int) = 1 := by norm_num
    have hexact : ((2 ^ 52 * k : Nat) : ℚ) * 2 ^ (-52 + f) = k * 2 ^ f := by
      rw [zpow_add₀ (by norm_num), Nat.cast_mul, mul_mul_mul_comm, hunit, one_mul]
    rw [hexact] at hround
    refine eq_of_size_eq hround.rounded (hu.signedBy s) (signOf?_roundWithAccuracy _ _ _ _) ?_
    exact hround.exact hu.representable
  | _ => exact absurd hu id

theorem stored_signedBy (hx : x.isFinite = true) (s : Sign) : stored (signedBy s (value x)) = signedBy s (value x) :=
  stored_of_fits ((rounded_value hx).1.signedBy s) ((rounded_value hx).2.signedBy s)

theorem value_neg_one : value (-1.0) = .finite .negative (2 ^ 52) (-52) (by decide) := rfl

/-- **One times a number is the number.** -/
theorem one_mul_eq (hx : x.isFinite = true) : 1.0 * x = x := by
  apply eq_of_value
  rw [value_mul, value_one, mul_unit .positive (rounded_value hx).1, stored_signedBy hx]
  generalize value x = u
  cases u with
  | notANumber => rfl
  | _ t => cases t <;> rfl

/-- **Minus one times a number has the other sign.** -/
theorem value_neg_one_mul (hx : x.isFinite = true) : value (-1.0 * x) = signedBy .negative (value x) := by
  rw [value_mul, value_neg_one, mul_unit .negative (rounded_value hx).1, stored_signedBy hx]

theorem stored_zero (s : Sign) : stored (.zero s) = .zero s :=
  stored_of_fits trivial trivial

/-- a zero of either sign -/
def IsZero (x : Float) : Prop :=
  ∃ s, value x = .zero s

/-- **Zero times a number is a zero.** -/
theorem isZero_zero_mul (hx : x.isFinite = true) : IsZero (0.0 * x) := by
  have hproduct : ∃ s, UnpackedFloat.mul format (.zero .positive) (value x) = .zero s := by
    have hfinite : (value x).isFinite = true := hx
    generalize value x = u at hfinite
    cases u with
    | zero t => exact ⟨_, rfl⟩
    | finite t k f hk => exact ⟨_, rfl⟩
    | _ => cases hfinite
  obtain ⟨s, hs⟩ := hproduct
  exact ⟨s, by rw [value_mul, value_zero, hs, stored_zero]⟩

theorem IsZero.isFinite (h : IsZero x) : x.isFinite = true := by
  obtain ⟨s, hs⟩ := h
  rw [isFinite_eq, hs]
  rfl

theorem isFinite_neg_one_mul (hx : x.isFinite = true) : (-1.0 * x).isFinite = true := by
  have hfinite : (value x).isFinite = true := hx
  rw [isFinite_eq, value_neg_one_mul hx]
  generalize value x = u at hfinite
  cases u <;> exact hfinite

/-! ## Sides of zero -/

theorem IsZero.not_pos (h : IsZero x) : ¬0.0 < x := by
  obtain ⟨s, hs⟩ := h
  rw [lt_iff, hs, value_zero]
  exact Bool.false_ne_true

/-- minus one exchanges the sides of zero -/
theorem pos_neg_one_mul_iff (hx : x.isFinite = true) : 0.0 < -1.0 * x ↔ x < 0.0 := by
  rw [lt_iff, lt_iff, value_neg_one_mul hx, value_zero]
  generalize value x = u
  cases u with
  | notANumber => exact Iff.rfl
  | _ t => cases t <;> exact Iff.rfl

theorem neg_one_mul_neg_iff (hx : x.isFinite = true) : -1.0 * x < 0.0 ↔ 0.0 < x := by
  rw [lt_iff, lt_iff, value_neg_one_mul hx, value_zero]
  generalize value x = u
  cases u with
  | notANumber => exact Iff.rfl
  | _ t => cases t <;> exact Iff.rfl

theorem not_neg_of_pos (h : 0.0 < x) : ¬x < 0.0 := by
  rw [lt_iff, value_zero] at h ⊢
  generalize value x = u at h
  cases u with
  | notANumber => cases h
  | _ t => cases t <;> first | exact Bool.false_ne_true | cases h

/-- what is not below zero is a zero, or above -/
theorem isZero_or_pos (h : 0.0 ≤ x) : IsZero x ∨ 0.0 < x := by
  rw [le_iff, value_zero] at h
  rw [lt_iff, value_zero, IsZero]
  generalize value x = u at h
  cases u with
  | notANumber => cases h
  | zero t => exact .inl ⟨t, rfl⟩
  | _ t => cases t <;> first | exact .inr rfl | cases h

theorem value_neg (x : Float) : value (-x) = stored (value x).neg := rfl

/-- a zero is passed where zero is, on both sides -/
theorem IsZero.lt_iff_pos (h : IsZero x) (y : Float) : x < y ↔ 0.0 < y := by
  obtain ⟨s, hs⟩ := h
  rw [lt_iff, lt_iff, hs, value_zero]
  generalize value y = v
  cases v with
  | notANumber => exact Iff.rfl
  | _ t => cases t <;> exact Iff.rfl

theorem IsZero.lt_neg_iff (h : IsZero x) (y : Float) : y < -x ↔ y < 0.0 := by
  obtain ⟨s, hs⟩ := h
  rw [lt_iff, lt_iff, value_neg, hs, UnpackedFloat.neg, stored_zero, value_zero]
  generalize value y = v
  cases v with
  | notANumber => exact Iff.rfl
  | _ t => cases t <;> exact Iff.rfl

/-- what is below the opposite of a number above zero is below zero -/
theorem neg_of_lt_neg (hx : 0.0 < x) (h : y < -x) : y < 0.0 := by
  have hsign : signOf? (value (-x)) = some .negative := by
    rw [value_neg, signOf?_stored]
    rw [lt_iff, value_zero] at hx
    generalize value x = u at hx
    cases u with
    | notANumber => cases hx
    | zero s => cases hx
    | _ s =>
      cases s with
      | negative => cases hx
      | positive => rfl
  rw [lt_iff] at h
  rw [lt_iff, value_zero]
  generalize value (-x) = u at hsign h
  generalize value y = v at h ⊢
  cases u with
  | notANumber => cases hsign
  | _ s =>
    cases hsign
    cases v with
    | notANumber => cases h
    | zero t => cases h
    | _ t =>
      cases t with
      | negative => rfl
      | positive => cases h

theorem isZero_of_beq (h : x == 0.0) : IsZero x := by
  have hequal : ((value x).compare (value 0.0) == some .eq) = true := h
  rw [value_zero] at hequal
  rw [IsZero]
  generalize value x = u at hequal
  cases u with
  | notANumber => cases hequal
  | zero t => exact ⟨t, rfl⟩
  | _ t => cases t <;> cases hequal

/-! ## Zeros in sums -/

/-- the same double, or both zero -/
def SameNumber (x y : Float) : Prop :=
  x = y ∨ IsZero x ∧ IsZero y

/-- a zero that is added to a number leaves it -/
theorem zero_add_eq (hx : IsZero x) (hz : ¬IsZero z) : x + z = z := by
  obtain ⟨s, hs⟩ := hx
  apply eq_of_value
  have hadd : UnpackedFloat.add format (.zero s) (value z) = value z := by
    unfold IsZero at hz
    generalize value z = v at hz
    cases v with
    | zero t => exact absurd ⟨t, rfl⟩ hz
    | _ => rfl
  rw [value_add, hs, hadd, stored_value]

theorem isZero_add (hx : IsZero x) (hz : IsZero z) : IsZero (x + z) := by
  obtain ⟨s, hs⟩ := hx
  obtain ⟨t, ht⟩ := hz
  rw [IsZero, value_add, hs, ht]
  cases s <;> cases t <;> exact ⟨_, rfl⟩

/-- **A zero that is added changes no number.** -/
theorem sameNumber_add_zero (hz : IsZero z) (x : Float) : SameNumber (x + z) x := by
  by_cases hx : IsZero x
  · exact .inr ⟨isZero_add hx hz, hx⟩
  · left
    rw [Binary64.add_comm]
    exact zero_add_eq hz hx

theorem SameNumber.add (h : SameNumber x y) (z : Float) : SameNumber (x + z) (y + z) := by
  rcases h with rfl | ⟨hx, hy⟩
  · exact .inl rfl
  by_cases hz : IsZero z
  · exact .inr ⟨isZero_add hx hz, isZero_add hy hz⟩
  · left
    rw [zero_add_eq hx hz, zero_add_eq hy hz]

theorem SameNumber.trans (h : SameNumber x y) (h' : SameNumber y z) : SameNumber x z := by
  rcases h with rfl | ⟨hx, hy⟩
  · exact h'
  · rcases h' with rfl | ⟨-, hz⟩
    · exact .inr ⟨hx, hy⟩
    · exact .inr ⟨hx, hz⟩

theorem SameNumber.symm (h : SameNumber x y) : SameNumber y x :=
  h.imp Eq.symm And.symm

/-- **Sums that leave out zeros are the same number.** -/
theorem sameNumber_sums {α : Type} (f : α → Float) (p : α → Bool) {items : List α}
    (hzeros : ∀ a ∈ items, p a = false → IsZero (f a)) (h : SameNumber x y) :
    SameNumber (((items.filter p).map f).foldl (· + ·) x) ((items.map f).foldl (· + ·) y) := by
  induction items generalizing x y with
  | nil => exact h
  | cons a rest ih =>
    obtain ⟨hfirst, hrest⟩ := List.forall_mem_cons.1 hzeros
    rw [List.map_cons, List.foldl_cons]
    cases hp : p a with
    | true =>
      rw [List.filter_cons_of_pos hp, List.map_cons, List.foldl_cons]
      exact ih hrest (h.add (f a))
    | false =>
      rw [List.filter_cons_of_neg (by rw [hp]; exact Bool.false_ne_true)]
      exact ih hrest (h.trans (sameNumber_add_zero (hfirst hp) y).symm)

/-! ## Equality -/

/-- a double that is a number: finite or infinite -/
def IsNumber (x : Float) : Prop :=
  value x ≠ .notANumber

/-- **Doubles that are the same number are equal** as the program compares them. -/
theorem SameNumber.beq (h : SameNumber x y) (hx : IsNumber x) : x == y := by
  have hequal : (value x).compare (value y) = some .eq := by
    rcases h with rfl | ⟨⟨s, hs⟩, ⟨t, ht⟩⟩
    · unfold IsNumber at hx
      generalize value x = u at hx
      cases u with
      | notANumber => exact absurd rfl hx
      | infinity s => cases s <;> rfl
      | zero s => rfl
      | finite s m e hm => cases s <;> simp [UnpackedFloat.compare]
    · rw [hs, ht]
      rfl
  show ((value x).compare (value y) == some .eq) = true
  rw [hequal]
  rfl

theorem signOf?_normalize (m e : Int) : ∃ s, signOf? (UnpackedFloat.normalize format m e .positive) = some s := by
  unfold UnpackedFloat.normalize
  split
  · exact ⟨_, signOf?_round _ _ _⟩
  · exact ⟨_, rfl⟩
  · exact ⟨_, signOf?_round _ _ _⟩

/-- what has a sign is a number -/
theorem isNumber_of_sign {s : Sign} (h : signOf? (value x) = some s) : IsNumber x := by
  intro hnan
  rw [hnan] at h
  cases h

/-- a finite double that is added makes a number of a number -/
theorem IsNumber.add (hx : IsNumber x) (hz : z.isFinite = true) : IsNumber (x + z) := by
  have hfinite : (value z).isFinite = true := hz
  have hsigned : ∃ s, signOf? (UnpackedFloat.add format (value x) (value z)) = some s := by
    unfold IsNumber at hx
    generalize value x = u at hx
    generalize value z = v at hfinite
    cases v with
    | zero t =>
      cases u with
      | notANumber => exact absurd rfl hx
      | zero s => cases s <;> cases t <;> exact ⟨_, rfl⟩
      | _ => exact ⟨_, rfl⟩
    | finite t k f hk =>
      cases u with
      | notANumber => exact absurd rfl hx
      | finite s m e hm => exact signOf?_normalize _ _
      | _ => exact ⟨_, rfl⟩
    | _ => cases hfinite
  obtain ⟨s, hs⟩ := hsigned
  rw [← signOf?_stored, ← value_add] at hs
  exact isNumber_of_sign hs

/-- the program's test for zero holds of both zeros, and of nothing else -/
theorem beq_zero_iff : x == 0.0 ↔ IsZero x := by
  refine ⟨isZero_of_beq, fun h => ?_⟩
  exact SameNumber.beq (.inr ⟨h, .positive, value_zero⟩) (value_ne_notANumber h.isFinite)

theorem isNumber_of_finite (hx : x.isFinite = true) : IsNumber x :=
  value_ne_notANumber hx

theorem IsNumber.isNaN_eq (h : IsNumber x) : x.isNaN = false := by
  show (value x).isNaN = false
  unfold IsNumber at h
  generalize value x = u at h
  cases u with
  | notANumber => exact absurd rfl h
  | _ => rfl

/-- the difference of two finite doubles is a number, though it may be too large to be finite -/
theorem isNumber_sub (hx : x.isFinite = true) (hz : z.isFinite = true) : IsNumber (x - z) := by
  have hfinite : (value x).isFinite = true := hx
  have hfinite' : (value z).isFinite = true := hz
  have hsigned : ∃ s, signOf? (UnpackedFloat.sub format (value x) (value z)) = some s := by
    generalize value x = u at hfinite
    generalize value z = v at hfinite'
    cases u with
    | zero s =>
      cases v with
      | zero t => cases s <;> cases t <;> exact ⟨_, rfl⟩
      | finite t k f hk => exact ⟨_, rfl⟩
      | _ => cases hfinite'
    | finite s m e hm =>
      cases v with
      | zero t => exact ⟨_, rfl⟩
      | finite t k f hk => exact signOf?_normalize _ _
      | _ => cases hfinite'
    | _ => cases hfinite
  obtain ⟨s, hs⟩ := hsigned
  rw [← signOf?_stored, ← value_sub] at hs
  exact isNumber_of_sign hs

theorem isNumber_foldl {xs : List Float} (hxs : ∀ x ∈ xs, x.isFinite = true) (hx : IsNumber x) :
    IsNumber (xs.foldl (· + ·) x) := by
  induction xs generalizing x with
  | nil => exact hx
  | cons y rest ih =>
    obtain ⟨hy, hrest⟩ := List.forall_mem_cons.1 hxs
    exact ih hrest (hx.add hy)

end TradingRobots.Binary64
