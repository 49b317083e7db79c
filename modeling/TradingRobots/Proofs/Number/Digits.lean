/-
The decimal digits of counts and whole numbers.

A number is written as a row of digits, and only zero is written with a leading zero. Reading the row back gives the
number.

`digits?_toDigits`: a written count reads back.
`whole?_toString`: a written whole number of the signed machine word reads back.
-/
import TradingRobots.Number.Reading
import Mathlib.Tactic

namespace TradingRobots.Reading

/-- a row of characters of one class ends where the class ends -/
theorem span_append {p : Char → Bool} {row : List Char} (h : ∀ c ∈ row, p c = true) (rest : List Char)
    (hrest : ∀ c ∈ rest.head?, p c = false) : (row ++ rest).takeWhile p = row ∧ (row ++ rest).dropWhile p = rest := by
  rw [List.takeWhile_append_of_pos h, List.dropWhile_append_of_pos h]
  cases rest with
  | nil => simp
  | cons c rest =>
    have hc : p c = false := hrest c rfl
    simp [hc]

/-- a row of digits, at least one -/
structure Row (ds : List Char) : Prop where
  nonempty : ds ≠ []
  digits : ∀ c ∈ ds, isDigit c = true

theorem Row.append {ds es : List Char} (h : Row ds) (hes : ∀ c ∈ es, isDigit c = true) : Row (ds ++ es) :=
  ⟨List.append_ne_nil_of_left_ne_nil h.nonempty es, fun c hc => (List.mem_append.1 hc).elim (h.digits c) (hes c)⟩

theorem Row.prepend {ds es : List Char} (h : Row ds) (hes : ∀ c ∈ es, isDigit c = true) : Row (es ++ ds) :=
  ⟨List.append_ne_nil_of_right_ne_nil es h.nonempty, fun c hc => (List.mem_append.1 hc).elim (hes c) (h.digits c)⟩

theorem isDigit_iff {c : Char} : isDigit c = true ↔ c.isDigit = true := by
  simp only [isDigit, Char.isDigit, decide_eq_true_eq, Bool.and_eq_true, Char.le_def]

theorem row_toDigits (n : Nat) : Row (Nat.toDigits 10 n) :=
  ⟨Nat.toDigits_ne_nil, fun _ hc => isDigit_iff.2 (Nat.isDigit_of_mem_toDigits (by decide) (by decide) hc)⟩

/-- the value of a row is the fold over its digits -/
theorem ofDigits_map_digitValue (ds : List Char) : ofDigits 10 (ds.map digitValue) = Nat.ofDigitChars 10 ds 0 := by
  rw [ofDigits, List.foldl_map, Nat.ofDigitChars_eq_foldl]
  simp only [digitValue, Nat.mul_comm]

theorem digits?_of_row {ds : List Char} (h : Row ds) : digits? ds = some (Nat.ofDigitChars 10 ds 0) := by
  have hall : (!ds.isEmpty && ds.all isDigit) = true := by simpa [h.nonempty] using h.digits
  rw [digits?, if_pos hall, ofDigits_map_digitValue]

/-- **A written count reads back.** -/
theorem digits?_toDigits (n : Nat) : digits? (Nat.toDigits 10 n) = some n := by
  rw [digits?_of_row (row_toDigits n), Nat.ofDigitChars_toDigits (by decide) (by decide)]

/-- only zero has a leading zero -/
theorem head?_toDigits_ne_zero {n : Nat} (h : n ≠ 0) : (Nat.toDigits 10 n).head? ≠ some '0' := by
  induction n using Nat.strongRecOn with
  | ind n ih =>
    rw [Nat.toDigits_eq_if (by decide)]
    split
    · rename_i hlt
      interval_cases n
      · exact absurd rfl h
      all_goals decide
    · rename_i hge
      have hsmall := ih (n / 10) (by omega) (by omega)
      rwa [List.head?_append_of_ne_nil _ Nat.toDigits_ne_nil]

theorem toList_toString_nat (n : Nat) : (toString n).toList = Nat.toDigits 10 n := by
  rw [Nat.toString_eq_ofList_toDigits, String.toList_ofList]

/-- a whole number is written as the digits of its size, after a sign if it is negative -/
theorem toList_toString_int (i : Int) :
    (toString i).toList = (if i < 0 then ['-'] else []) ++ Nat.toDigits 10 i.natAbs := by
  rw [Int.toString_eq_repr]
  cases i with
  | ofNat n =>
    rw [if_neg (by simp)]
    exact toList_toString_nat n
  | negSucc n =>
    rw [if_pos (Int.negSucc_lt_zero n)]
    show ("-" ++ toString (n + 1)).toList = _
    rw [String.toList_append, toList_toString_nat]
    rfl

/-! ## Signs -/

/-- a number begins with its sign or a digit -/
def StartsNumber (c : Char) : Prop :=
  c = '-' ∨ isDigit c = true

theorem StartsNumber.ne {c d : Char} (h : StartsNumber c) (hsign : d ≠ '-') (hd : isDigit d = false) : c ≠ d := by
  rintro rfl
  rcases h with h | h
  · exact hsign h
  · exact Bool.false_ne_true (hd.symm.trans h)

/-- the sign of digits, with or without a minus before them -/
theorem splitSign_signed {ds : List Char} (h : Row ds) (negative : Bool) (rest : List Char) :
    splitSign ((if negative then ['-'] else []) ++ (ds ++ rest)) = (negative, ds ++ rest) := by
  cases negative with
  | true => rfl
  | false =>
    obtain ⟨c, more, rfl⟩ := List.exists_cons_of_ne_nil h.nonempty
    have hdigit := h.digits c List.mem_cons_self
    show splitSign (c :: (more ++ rest)) = (false, c :: (more ++ rest))
    unfold splitSign
    split
    next s hs =>
      rw [(List.cons.inj hs).1] at hdigit
      exact absurd hdigit (by decide)
    next s hs =>
      rw [(List.cons.inj hs).1] at hdigit
      exact absurd hdigit (by decide)
    next => rfl

/-- the sign of a written whole number, and the digits of its size -/
theorem splitSign_toString (i : Int) :
    splitSign (toString i).toList = (decide (i < 0), Nat.toDigits 10 i.natAbs) := by
  have hsign := splitSign_signed (row_toDigits i.natAbs) (decide (i < 0)) []
  rw [List.append_nil] at hsign
  rw [toList_toString_int, ← hsign]
  by_cases hneg : i < 0
  · rw [if_pos hneg, if_pos (decide_eq_true hneg)]
  · rw [if_neg hneg, if_neg (mt of_decide_eq_true hneg)]

/-- a whole number from its sign and its size -/
theorem signed_natAbs (i : Int) : (if decide (i < 0) = true then -(i.natAbs : Int) else (i.natAbs : Int)) = i := by
  split
  · rename_i hneg
    have hneg' : i < 0 := of_decide_eq_true hneg
    omega
  · rename_i hneg
    have hneg' : ¬i < 0 := fun hlt => hneg (decide_eq_true hlt)
    omega

/-- **A written whole number of the signed machine word reads back.** -/
theorem whole?_toString {i : Int} (h : -(2 ^ 63) ≤ i ∧ i < 2 ^ 63) : whole? (toString i) = some i := by
  unfold whole?
  rw [splitSign_toString]
  refine Option.bind_eq_some_iff.2 ⟨_, digits?_toDigits _, ?_⟩
  dsimp only
  rw [signed_natAbs]
  exact if_pos h

end TradingRobots.Reading
