/-
Numbers of JSON read back as the text they are written in.

The grammar of a number is a sign, digits without a zero before others, a point with digits, and an exponent. Counts,
whole numbers and finite doubles are written by it.

`number?_numeral`: a numeral is read up to its end.
`numeral_stored`: the text of a finite double is a numeral.
-/
import TradingRobots.Json.Reading
import TradingRobots.Proofs.Number.Plain

namespace TradingRobots.Json

open Reading

/-! ## The grammar -/

/-- what stands between the whole digits and the exponent -/
inductive PointPart : List Char → Prop
  | none : PointPart []
  | digits {ds : List Char} : Row ds → PointPart ('.' :: ds)

/-- an exponent with a sign, or nothing -/
inductive ExponentPart : List Char → Prop
  | none : ExponentPart []
  | digits {sign : Char} {ds : List Char} : sign = '+' ∨ sign = '-' → Row ds → ExponentPart ('e' :: sign :: ds)

/-- a number without its sign -/
inductive Magnitude : List Char → Prop
  | parts {whole point exponent : List Char} :
    Row whole → (whole.head? = some '0' → whole.length = 1) → PointPart point → ExponentPart exponent →
      Magnitude (whole ++ (point ++ exponent))

/-- a number as the grammar writes it -/
inductive Numeral : List Char → Prop
  | positive {cs : List Char} : Magnitude cs → Numeral cs
  | negative {cs : List Char} : Magnitude cs → Numeral ('-' :: cs)

/-- what may follow a value: nothing, the next item, or the closing mark on its line -/
def Follows (rest : Rest) : Prop :=
  ∀ c ∈ rest.head?, c = ',' ∨ c = '\n'

theorem Follows.not_digit {rest : Rest} (h : Follows rest) : ∀ c ∈ rest.head?, isDigit c = false := fun c hc => by
  rcases h c hc with rfl | rfl <;> decide

/-! ## Reading a number -/

theorem digitsPart?_row {ds : List Char} {rest : Rest} (h : Row ds) (hrest : ∀ c ∈ rest.head?, isDigit c = false) :
    digitsPart? (ds ++ rest) = some (ds, rest) := by
  obtain ⟨htake, hdrop⟩ := span_append h.digits rest hrest
  have hne : ds.isEmpty = false := List.isEmpty_eq_false_iff.2 h.nonempty
  rw [digitsPart?, htake, hdrop, hne]
  rfl

theorem exponentPart?_append {exponent : List Char} {rest : Rest} (h : ExponentPart exponent) (hrest : Follows rest) :
    exponentPart? (exponent ++ rest) = some (exponent, rest) := by
  cases h with
  | none =>
    cases rest with
    | nil => rfl
    | cons c rest => rcases hrest c rfl with rfl | rfl <;> rfl
  | digits hsign hrow =>
    rcases hsign with rfl | rfl
    all_goals
      rw [List.cons_append, List.cons_append, exponentPart?, if_pos (Or.inl rfl)]
      dsimp only
      rw [digitsPart?_row hrow hrest.not_digit]
      rfl

/-- digits end before an exponent, and before what follows the number -/
theorem not_digit_exponent {exponent : List Char} {rest : Rest} (h : ExponentPart exponent) (hrest : Follows rest) :
    ∀ c ∈ (exponent ++ rest).head?, isDigit c = false := by
  cases h with
  | none => exact hrest.not_digit
  | digits hsign hrow =>
    intro c hc
    obtain rfl : 'e' = c := Option.some.inj hc
    decide

theorem pointPart?_append {point exponent : List Char} {rest : Rest} (h : PointPart point)
    (hexponent : ExponentPart exponent) (hrest : Follows rest) :
    pointPart? (point ++ (exponent ++ rest)) = some (point, exponent ++ rest) := by
  cases h with
  | none =>
    rw [List.nil_append, pointPart?]
    intro s hs
    cases hexponent with
    | none =>
      have hpoint : '.' ∈ rest.head? := by
        rw [← List.nil_append rest, hs]
        rfl
      rcases hrest '.' hpoint with h | h <;> exact absurd h (by decide)
    | digits => exact absurd (List.cons.inj hs).1 (by decide)
  | digits hrow =>
    have hend := not_digit_exponent hexponent hrest
    rw [List.cons_append, pointPart?, digitsPart?_row hrow hend]
    rfl

theorem not_digit_point {point exponent : List Char} {rest : Rest} (h : PointPart point)
    (hexponent : ExponentPart exponent) (hrest : Follows rest) :
    ∀ c ∈ (point ++ (exponent ++ rest)).head?, isDigit c = false := by
  cases h with
  | none =>
    rw [List.nil_append]
    exact not_digit_exponent hexponent hrest
  | digits =>
    intro c hc
    obtain rfl : '.' = c := Option.some.inj hc
    decide

/-- the first character of a number without sign is a digit -/
theorem Magnitude.head {cs : List Char} (h : Magnitude cs) : ∃ c rest, cs = c :: rest ∧ isDigit c = true := by
  obtain @⟨whole, point, exponent, hrow, -, -, -⟩ := h
  obtain ⟨c, ds, rfl⟩ := List.exists_cons_of_ne_nil hrow.nonempty
  exact ⟨c, _, rfl, hrow.digits c List.mem_cons_self⟩

theorem Numeral.head {cs : List Char} (h : Numeral cs) : ∃ c rest, cs = c :: rest ∧ StartsNumber c := by
  cases h with
  | positive hmagnitude =>
    obtain ⟨c, rest, rfl, hdigit⟩ := hmagnitude.head
    exact ⟨c, rest, rfl, .inr hdigit⟩
  | negative => exact ⟨'-', _, rfl, .inl rfl⟩

/-- the parts of a number after its sign -/
theorem number?_magnitude {cs : List Char} {rest : Rest} (h : Magnitude cs) (hrest : Follows rest) (sign : List Char) :
    (do
      let (whole, s) ← digitsPart? (cs ++ rest)
      if whole.head? = some '0' ∧ whole.length ≠ 1 then none
      else do
        let (point, s) ← pointPart? s
        let (exponent, s) ← exponentPart? s
        some (String.ofList (sign ++ whole ++ point ++ exponent), s)) = some (String.ofList (sign ++ cs), rest) := by
  obtain @⟨whole, point, exponent, hrow, hzero, hpoint, hexponent⟩ := h
  have hlead : ¬(whole.head? = some '0' ∧ whole.length ≠ 1) := fun hbad => hbad.2 (hzero hbad.1)
  rw [List.append_assoc, List.append_assoc, digitsPart?_row hrow (not_digit_point hpoint hexponent hrest)]
  simp only [Option.bind_eq_bind, Option.bind_some, if_neg hlead, pointPart?_append hpoint hexponent hrest,
    exponentPart?_append hexponent hrest, List.append_assoc]

/-- **A numeral is read up to its end.** -/
theorem number?_numeral {text : String} {rest : Rest} (h : Numeral text.toList) (hrest : Follows rest) :
    number? (text.toList ++ rest) = some (text, rest) := by
  generalize hcs : text.toList = cs at h
  have htext : text = String.ofList cs := by rw [← hcs, String.ofList_toList]
  rw [htext]
  cases h with
  | positive hmagnitude =>
    obtain ⟨c, ds, rfl, hdigit⟩ := hmagnitude.head
    have hsign : c ≠ '-' := by
      rintro rfl
      exact absurd hdigit (by decide)
    have hread := number?_magnitude hmagnitude hrest []
    unfold number?
    split
    next sign s hsplit =>
      split at hsplit
      next hs => exact absurd (List.cons.inj hs).1 hsign
      next =>
        obtain ⟨rfl, rfl⟩ := Prod.mk.inj hsplit
        exact hread
  | negative hmagnitude => exact number?_magnitude hmagnitude hrest ['-']

/-! ## What is written -/

/-- a row of digits that is the whole number -/
theorem numeral_toDigits (n : Nat) : Magnitude (Nat.toDigits 10 n) := by
  have hzero : (Nat.toDigits 10 n).head? = some '0' → (Nat.toDigits 10 n).length = 1 := by
    intro hhead
    by_cases h : n = 0
    · subst h; rfl
    · exact absurd hhead (head?_toDigits_ne_zero h)
  have := Magnitude.parts (row_toDigits n) hzero .none .none
  rwa [List.append_nil, List.append_nil] at this

theorem numeral_count (n : Nat) : Numeral (toString n).toList := by
  rw [toList_toString_nat]
  exact .positive (numeral_toDigits n)

theorem numeral_whole (i : Int) : Numeral (toString i).toList := by
  rw [toList_toString_int]
  split
  · exact .negative (numeral_toDigits _)
  · exact .positive (numeral_toDigits _)

/-! ## Doubles -/

/-- without an exponent -/
theorem magnitude_plain {v : Decimal} (h : v.Written) : Magnitude (Number.plain true v).toList := by
  obtain ⟨whole, part, hchars, hpointed⟩ := Number.pointed_plain h
  have hmagnitude := Magnitude.parts hpointed.whole_row hpointed.lead (.digits hpointed.part_row) .none
  rwa [List.append_nil, ← hchars] at hmagnitude

/-- with an exponent: one digit, and the point before the others if there are any -/
theorem magnitude_pointAfterFirst (n : Nat) {exponent : List Char} (h : ExponentPart exponent) :
    Magnitude ((Number.pointAfterFirst n).toList ++ exponent) := by
  have hrow := row_toDigits n
  unfold Number.pointAfterFirst
  rw [toList_toString_nat]
  generalize Nat.toDigits 10 n = ds at hrow
  match ds, hrow with
  | [], hrow => exact absurd rfl hrow.nonempty
  | [c], hrow =>
    show Magnitude (c.toString.toList ++ exponent)
    have hchar : c.toString.toList = [c] := by simp
    rw [hchar]
    exact .parts hrow (fun _ => rfl) .none h
  | c :: d :: rest, hrow =>
    have hfirst : Row [c] := ⟨by simp, fun e he => hrow.digits e (by simp_all)⟩
    have hrest : Row (d :: rest) := ⟨by simp, fun e he => hrow.digits e (List.mem_cons_of_mem _ he)⟩
    have hchars : (c.toString ++ "." ++ String.ofList (d :: rest)).toList ++ exponent =
        [c] ++ ('.' :: (d :: rest) ++ exponent) := by
      rw [String.toList_append, String.toList_append, String.toList_ofList]
      simp
    show Magnitude ((c.toString ++ "." ++ String.ofList (d :: rest)).toList ++ exponent)
    rw [hchars]
    exact .parts hfirst (fun _ => rfl) (.digits hrest) h

theorem magnitude_stored {v : Decimal} (h : v.Written) : Magnitude (Number.stored.magnitude v).toList := by
  show Magnitude (if -5 ≤ Number.leading v ∧ Number.leading v ≤ 15 then Number.plain true v
    else Number.pointAfterFirst v.digits ++ "e" ++ (if Number.leading v < 0 then "-" else "+") ++
      toString (Number.leading v).natAbs).toList
  split
  · exact magnitude_plain h
  · have hrow := row_toDigits (Number.leading v).natAbs
    rw [String.toList_append, String.toList_append, String.toList_append, toList_toString_nat, List.append_assoc,
      List.append_assoc]
    refine magnitude_pointAfterFirst _ ?_
    split
    · exact .digits (.inr rfl) hrow
    · exact .digits (.inl rfl) hrow

/-- **The text of a finite double is a numeral.** -/
theorem numeral_stored {x : Float} (h : x.isFinite = true) : Numeral (Number.stored.text x).toList := by
  obtain ⟨hnan, hinf⟩ := Number.not_special h
  have hwritten := Decimal.written_of_double h Number.stored.tie
  rw [Number.Layout.text, hnan, hinf, if_neg Bool.false_ne_true, if_neg Bool.false_ne_true]
  dsimp only [Number.signed]
  split
  · rw [String.toList_append]
    exact .negative (magnitude_stored hwritten)
  · exact .positive (magnitude_stored hwritten)

end TradingRobots.Json
