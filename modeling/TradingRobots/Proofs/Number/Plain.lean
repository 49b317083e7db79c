/-
Decimals written without an exponent: digits, a point and digits.

Wherever the point stands, between the digits, before them or after them with zeros in the gap, the text is a row of
whole digits without a zero before others, a point, and a row of digits. Read as one row with a place for each digit
after the point, it has the size of the decimal.

`pointed_plain`: the parts of a written decimal.
`text_saved`: the text of a finite double, whose digits read back to it.
-/
import TradingRobots.Number.Text
import TradingRobots.Proofs.Number.Digits
import TradingRobots.Proofs.Number.Shortest

namespace TradingRobots

open Reading

/-! ## Decimals that a format writes -/

/-- digits that a format may write: zero has no zeros after it -/
def Decimal.Written (v : Decimal) : Prop :=
  v.digits = 0 → v.exponent ≤ 0

/-- the digits written for a double: one zero, or the shortest -/
theorem Decimal.written_of_double {x : Float} (h : x.isFinite = true) (tie : Rounding.Tie) :
    (if (Binary64.decode x).mantissa = 0 then ⟨0, 0⟩ else shortest tie (Binary64.decode x) : Decimal).Written := by
  have hv := Binary64.canonical_decode h
  split
  · exact fun _ => le_rfl
  · rename_i hm
    intro hzero
    exact absurd hzero (exponent_bounds hv hm (holds_shortest tie hv hm)).1

namespace Reading

/-- digits, a point and digits, which mean a decimal of the given size; no zero stands before other whole digits -/
structure Pointed (size : ℚ) (whole part : List Char) : Prop where
  whole_row : Row whole
  part_row : Row part
  lead : whole.head? = some '0' → whole.length = 1
  size_eq : (⟨Nat.ofDigitChars 10 (whole ++ part) 0, -(part.length : Int)⟩ : Decimal).size = size

end Reading

namespace Number

theorem toList_zeros (n : Nat) : (zeros n).toList = List.replicate n '0' :=
  String.toList_ofList

theorem digits_zeros (n : Nat) : ∀ c ∈ List.replicate n '0', isDigit c = true := fun c hc => by
  rw [List.eq_of_mem_replicate hc]
  decide

theorem length_toString (n : Nat) : (toString n).length = (Nat.toDigits 10 n).length := by
  rw [← String.length_toList, toList_toString_nat]

/-- all digits before the point, and zeros after them -/
theorem pointed_whole {v : Decimal} (h : v.Written) (hwhole : 0 ≤ v.exponent) :
    Pointed v.size (Nat.toDigits 10 v.digits ++ List.replicate v.exponent.toNat '0') ['0'] := by
  have hrow := row_toDigits v.digits
  refine ⟨hrow.append (digits_zeros _), row_toDigits 0, fun hhead => ?_, ?_⟩
  · rw [List.head?_append_of_ne_nil _ hrow.nonempty] at hhead
    have hzero : v.digits = 0 := by
      by_contra hne
      exact head?_toDigits_ne_zero hne hhead
    have hexponent : v.exponent = 0 := by
      have := h hzero
      omega
    rw [hzero, hexponent]
    rfl
  · obtain ⟨k, hk⟩ := Int.eq_ofNat_of_zero_le hwhole
    rw [hk, Int.toNat_natCast, Nat.ofDigitChars_append, Nat.ofDigitChars_append,
      Nat.ofDigitChars_toDigits (by decide) (by decide), Nat.ofDigitChars_replicate_zero]
    have hlast : ∀ n, Nat.ofDigitChars 10 ['0'] n = 10 * n := fun n => by simp [Nat.ofDigitChars_cons]
    rw [hlast, Decimal.size, Decimal.size, hk, zpow_natCast]
    show ((10 * (10 ^ k * v.digits) : Nat) : ℚ) * 10 ^ (-1 : Int) = v.digits * 10 ^ k
    push_cast
    rw [zpow_neg_one]
    ring

/-- all digits after the point, and zeros before them -/
theorem pointed_part {v : Decimal} {places : Nat} (hplaces : v.exponent = -(places : Int))
    (hshort : (Nat.toDigits 10 v.digits).length ≤ places) :
    Pointed v.size ['0']
      (List.replicate (places - (Nat.toDigits 10 v.digits).length) '0' ++ Nat.toDigits 10 v.digits) := by
  refine ⟨row_toDigits 0, (row_toDigits _).prepend (digits_zeros _), fun _ => rfl, ?_⟩
  rw [List.length_append, List.length_replicate, Nat.sub_add_cancel hshort, ← hplaces, Nat.ofDigitChars_append,
    Nat.ofDigitChars_append, Nat.ofDigitChars_replicate_zero]
  have hfirst : Nat.ofDigitChars 10 ['0'] 0 = 0 := rfl
  rw [hfirst, Nat.mul_zero, Nat.ofDigitChars_toDigits (by decide) (by decide)]

/-- the point between the digits -/
theorem pointed_between {v : Decimal} {places : Nat} (hplaces : v.exponent = -(places : Int)) (hpos : 0 < places)
    (hlong : places < (Nat.toDigits 10 v.digits).length) :
    Pointed v.size ((Nat.toDigits 10 v.digits).take ((Nat.toDigits 10 v.digits).length - places))
      ((Nat.toDigits 10 v.digits).drop ((Nat.toDigits 10 v.digits).length - places)) := by
  have hrow := row_toDigits v.digits
  have hvalue : Nat.ofDigitChars 10 (Nat.toDigits 10 v.digits) 0 = v.digits :=
    Nat.ofDigitChars_toDigits (by decide) (by decide)
  have hnonzero : v.digits ≠ 0 := by
    intro hzero
    rw [hzero] at hlong
    have hone : places < 1 := hlong
    omega
  have hlead := head?_toDigits_ne_zero hnonzero
  generalize Nat.toDigits 10 v.digits = ds at hlong hrow hlead hvalue
  have hcut : ds.length - places ≠ 0 := by omega
  have hwhole : Row (ds.take (ds.length - places)) :=
    ⟨fun hnil => hrow.nonempty ((List.take_eq_nil_iff.1 hnil).resolve_left hcut),
      fun c hc => hrow.digits c (List.mem_of_mem_take hc)⟩
  have hpart : Row (ds.drop (ds.length - places)) :=
    ⟨fun hnil => absurd (List.drop_eq_nil_iff.1 hnil) (by omega), fun c hc => hrow.digits c (List.mem_of_mem_drop hc)⟩
  refine ⟨hwhole, hpart, fun hhead => absurd ?_ hlead, ?_⟩
  · rwa [List.head?_take, if_neg hcut] at hhead
  · rw [List.take_append_drop, hvalue, List.length_drop, Nat.sub_sub_self hlong.le, ← hplaces]

/-- **The parts of a decimal written without an exponent.** -/
theorem pointed_plain {v : Decimal} (h : v.Written) :
    ∃ whole part, (plain true v).toList = whole ++ '.' :: part ∧ Pointed v.size whole part := by
  unfold plain
  dsimp only
  split
  next hwhole =>
    refine ⟨_, _, ?_, pointed_whole h hwhole⟩
    rw [String.toList_append, String.toList_append, toList_toString_nat, toList_zeros]
    rfl
  next hpart =>
    obtain ⟨places, hplaces⟩ : ∃ places : Nat, v.exponent = -(places : Int) := ⟨(-v.exponent).toNat, by omega⟩
    have hcount : (-v.exponent).toNat = places := by omega
    rw [hcount, length_toString]
    split
    next hshort =>
      refine ⟨_, _, ?_, pointed_part hplaces hshort⟩
      rw [String.toList_append, String.toList_append, toList_toString_nat, toList_zeros]
      rfl
    next hlong =>
      refine ⟨_, _, ?_, pointed_between hplaces (by omega) (by omega)⟩
      simp only [String.toList_append, String.toList_ofList, toList_toString_nat, List.append_assoc]
      rfl

/-! ## Doubles -/

theorem not_special {x : Float} (h : x.isFinite = true) : x.isNaN = false ∧ x.isInf = false := by
  have hfinite : x.toModel.unpack.isFinite = true := h
  show x.toModel.unpack.isNaN = false ∧ x.toModel.unpack.isInf = false
  cases hx : x.toModel.unpack with
  | notANumber =>
    rw [hx] at hfinite
    exact absurd hfinite Bool.false_ne_true
  | infinity sign =>
    rw [hx] at hfinite
    exact absurd hfinite Bool.false_ne_true
  | _ => exact ⟨rfl, rfl⟩

/-- **The text of a finite double**: its sign, and digits with a point that read back to it. -/
theorem text_saved {x : Float} (h : x.isFinite = true) :
    ∃ size whole part, (saved.text x).toList = (if (Binary64.decode x).negative then ['-'] else []) ++ (whole ++ '.' :: part) ∧
      Pointed size whole part ∧
      Binary64.withSign (Binary64.decode x).negative
        (Decimal.toFloat ⟨Nat.ofDigitChars 10 (whole ++ part) 0, -(part.length : Int)⟩) = x := by
  obtain ⟨hnan, hinf⟩ := not_special h
  obtain ⟨whole, part, hchars, hpointed⟩ := pointed_plain (Decimal.written_of_double h saved.tie)
  refine ⟨_, whole, part, ?_, hpointed, Decimal.withSign_toFloat h hpointed.size_eq⟩
  rw [Layout.text, hnan, hinf, if_neg Bool.false_ne_true, if_neg Bool.false_ne_true, ← hchars]
  dsimp only [signed]
  split
  · rw [String.toList_append]
    rfl
  · rfl

end Number

end TradingRobots
