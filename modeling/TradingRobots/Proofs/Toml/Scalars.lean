/-
Written scalars read back.

A scalar without quotation marks is a row of characters up to the end of its line: a word, a whole number, or a double
as digits with a point. No whole number has a point, so the kinds do not mix. A text between quotation marks reads back
unless it holds control characters.

`value?_written`: a written scalar is read up to the end of its line.
-/
import TradingRobots.Proofs.Number.Plain
import TradingRobots.Toml.Reading

namespace TradingRobots.Toml

open Reading

/-- scalars that read back: whole numbers of the signed machine word, finite doubles, texts without control characters -/
def Scalar.Writable : Scalar → Prop
  | flag _ => True
  | whole i => -(2 ^ 63) ≤ i ∧ i < 2 ^ 63
  | real x => x.isFinite = true
  | text s => ∀ c ∈ s.toList, isControl c = false

/-! ## Digits -/

/-- a row of digits has no underscores to drop -/
theorem ungrouped?_row {ds : List Char} (h : Row ds) : ungrouped? isDigit ds = some ds := by
  have hdigits := h.digits
  have hne := h.nonempty
  clear h
  fun_induction ungrouped? isDigit ds with
  | case1 => exact absurd rfl hne
  | case2 c hc => rfl
  | case3 c hc => exact absurd (hdigits c List.mem_cons_self) hc
  | case4 c rest hc ih => exact absurd (hdigits '_' (by simp)) (by decide)
  | case5 c rest hc => exact absurd (hdigits '_' (by simp)) (by decide)
  | case6 c rest hrest hmark hc ih =>
    rw [ih (fun d hd => hdigits d (List.mem_cons_of_mem _ hd)) hrest, Option.map_some]
  | case7 c rest _ _ hc => exact absurd (hdigits c List.mem_cons_self) hc

theorem wholeDigits?_row {ds : List Char} (h : Row ds) (hlead : ds.head? = some '0' → ds.length = 1) :
    wholeDigits? ds = some ds := by
  have hplain : ¬(ds.head? = some '0' ∧ ds.length ≠ 1) := fun hbad => hbad.2 (hlead hbad.1)
  rw [wholeDigits?, ungrouped?_row h, Option.bind_eq_bind, Option.bind_some, if_neg hplain]

/-- only digits and underscores make a row of digits -/
theorem ungrouped?_eq_none {cs : List Char} {d : Char} (hd : d ∈ cs) (hdigit : isDigit d = false) (hmark : d ≠ '_') :
    ungrouped? isDigit cs = none := by
  fun_induction ungrouped? isDigit cs with
  | case1 => rfl
  | case2 c hc =>
    obtain rfl := List.mem_singleton.1 hd
    exact absurd (hdigit.symm.trans hc) Bool.false_ne_true
  | case3 => rfl
  | case4 c rest hc ih =>
    have hrest : d ∈ rest := by
      rcases List.mem_cons.1 hd with rfl | hd
      · exact absurd (hdigit.symm.trans hc) Bool.false_ne_true
      · exact (List.mem_cons.1 hd).resolve_left hmark
    rw [ih hrest, Option.map_none]
  | case5 => rfl
  | case6 c rest hrest hunder hc ih =>
    have hrest : d ∈ rest := by
      rcases List.mem_cons.1 hd with rfl | hd
      · exact absurd (hdigit.symm.trans hc) Bool.false_ne_true
      · exact hd
    rw [ih hrest, Option.map_none]
  | case7 => rfl

/-! ## Whole numbers -/

/-- a number without the letter of a base is decimal -/
theorem whole?_eq_decimal {cs : List Char} (h : ∀ c ∈ cs, c = '-' ∨ c = '.' ∨ isDigit c = true) :
    whole? cs = decimalWhole? cs := by
  have hletter : ∀ d, d ≠ '-' → d ≠ '.' → isDigit d = false → ∀ s, cs ≠ '0' :: d :: s := by
    rintro d hminus hpoint hdigit s rfl
    rcases h d (by simp) with hd | hd | hd
    · exact hminus hd
    · exact hpoint hd
    · exact Bool.false_ne_true (hdigit.symm.trans hd)
  unfold whole?
  split
  · exact absurd rfl (hletter 'x' (by decide) (by decide) (by decide) _)
  · exact absurd rfl (hletter 'o' (by decide) (by decide) (by decide) _)
  · exact absurd rfl (hletter 'b' (by decide) (by decide) (by decide) _)
  · rfl

/-- the characters of a written whole number -/
theorem chars_toString (i : Int) : ∀ c ∈ (toString i).toList, c = '-' ∨ isDigit c = true := by
  intro c hc
  rw [toList_toString_int] at hc
  rcases List.mem_append.1 hc with hc | hc
  · split at hc
    · exact .inl (List.mem_singleton.1 hc)
    · exact absurd hc List.not_mem_nil
  · exact .inr ((row_toDigits _).digits c hc)

theorem whole?_toString {i : Int} (h : -(2 ^ 63) ≤ i ∧ i < 2 ^ 63) : whole? (toString i).toList = some i := by
  have hlead : (Nat.toDigits 10 i.natAbs).head? = some '0' → (Nat.toDigits 10 i.natAbs).length = 1 := by
    intro hhead
    by_cases hzero : i.natAbs = 0
    · rw [hzero]
      rfl
    · exact absurd hhead (head?_toDigits_ne_zero hzero)
  rw [whole?_eq_decimal fun c hc => (chars_toString i c hc).imp_right .inr, decimalWhole?, splitSign_toString]
  dsimp only
  rw [wholeDigits?_row (row_toDigits _) hlead, Option.bind_eq_bind, Option.bind_some, ofDigits_map_digitValue,
    Nat.ofDigitChars_toDigits (by decide) (by decide), signed_natAbs]
  exact if_pos h

/-! ## Doubles -/

variable {size : ℚ} {whole part : List Char}

/-- the characters of digits with a point and a sign -/
theorem chars_pointed (h : Pointed size whole part) {negative : Bool} :
    ∀ c ∈ (if negative then ['-'] else []) ++ (whole ++ '.' :: part), c = '-' ∨ c = '.' ∨ isDigit c = true := by
  intro c hc
  rcases List.mem_append.1 hc with hc | hc
  · cases negative with
    | true => exact .inl (List.mem_singleton.1 hc)
    | false => exact absurd hc List.not_mem_nil
  rcases List.mem_append.1 hc with hc | hc
  · exact .inr (.inr (h.whole_row.digits c hc))
  rcases List.mem_cons.1 hc with hc | hc
  · exact .inr (.inl hc)
  · exact .inr (.inr (h.part_row.digits c hc))

/-- digits with a point are no whole number -/
theorem whole?_pointed (h : Pointed size whole part) (negative : Bool) :
    whole? ((if negative then ['-'] else []) ++ (whole ++ '.' :: part)) = none := by
  have hpoint : ungrouped? isDigit (whole ++ '.' :: part) = none :=
    ungrouped?_eq_none (d := '.') (by simp) (by decide) (by decide)
  have hdigits : wholeDigits? (whole ++ '.' :: part) = none := by
    unfold wholeDigits?
    rw [hpoint]
    rfl
  rw [whole?_eq_decimal (chars_pointed h), decimalWhole?, splitSign_signed h.whole_row]
  dsimp only
  rw [hdigits]
  rfl

/-- the numeral of digits with a point is made of all of them -/
theorem decimalForm?_pointed (h : Pointed size whole part) :
    decimalForm? (whole ++ '.' :: part) = some (whole ++ '.' :: part) := by
  have hwhole : ∀ c ∈ whole, (isDigit c || decide (c = '_')) = true := fun c hc => by
    rw [h.whole_row.digits c hc, Bool.true_or]
  have hpart : ∀ c ∈ part, (isDigit c || decide (c = '_')) = true := fun c hc => by
    rw [h.part_row.digits c hc, Bool.true_or]
  obtain ⟨htake, hdrop⟩ := span_append hwhole ('.' :: part) fun c hc => by
    obtain rfl : '.' = c := Option.some.inj hc
    decide
  obtain ⟨htake', hdrop'⟩ := span_append hpart [] fun c hc => absurd hc (by simp)
  rw [List.append_nil] at htake' hdrop'
  unfold decimalForm?
  dsimp only
  rw [htake, hdrop, wholeDigits?_row h.whole_row h.lead, Option.bind_eq_bind, Option.bind_some]
  refine Option.bind_eq_some_iff.2 ⟨part, ?_, Option.bind_eq_some_iff.2 ⟨[], ?_, ?_⟩⟩
  · rw [htake', ungrouped?_row h.part_row]
  · rw [hdrop']
    rfl
  · rw [List.append_nil]

/-- digits are their own lower case -/
theorem toLower_digit {c : Char} (h : isDigit c = true) : c.toLower = c := by
  have hdigit : '0' ≤ c ∧ c ≤ '9' := of_decide_eq_true h
  have hhigh : c.val ≤ '9'.val := hdigit.2
  unfold Char.toLower
  rw [dif_neg]
  rintro ⟨hletter, -⟩
  exact absurd (UInt32.le_trans hletter hhigh) (by decide)

/-- what begins with a digit is no word -/
theorem lower_ne_word {c d : Char} {rest letters : List Char} {word : String} (h : isDigit c = true)
    (hword : word.toList = d :: letters) (hd : isDigit d = false) : lower (c :: rest) ≠ word := by
  intro heq
  have hchars := congrArg String.toList heq
  rw [lower, String.toList_ofList, hword, List.map_cons, toLower_digit h] at hchars
  rw [(List.cons.inj hchars).1] at h
  exact Bool.false_ne_true (hd.symm.trans h)

/-- digits with a point and nothing after them are a numeral -/
theorem unsigned?_pointed (h : Pointed size whole part) :
    unsigned? (whole ++ '.' :: part) = some ⟨Nat.ofDigitChars 10 (whole ++ part) 0, -(part.length : Int)⟩ := by
  obtain ⟨htake, hdrop⟩ := span_append h.whole_row.digits ('.' :: part) fun c hc => by
    obtain rfl : '.' = c := Option.some.inj hc
    decide
  obtain ⟨htake', hdrop'⟩ := span_append h.part_row.digits [] fun c hc => absurd hc (by simp)
  rw [List.append_nil] at htake' hdrop'
  have hempty : whole.isEmpty = false := List.isEmpty_eq_false_iff.2 h.whole_row.nonempty
  unfold unsigned?
  simp only [htake, hdrop, htake', hdrop', hempty, Bool.false_and, if_neg Bool.false_ne_true, ofDigits_map_digitValue]
  show some (⟨_, 0 - (part.length : Int)⟩ : Decimal) = _
  rw [Int.zero_sub]

/-- digits with a point mean the double nearest to them -/
theorem float?_pointed (h : Pointed size whole part) :
    float? (String.ofList (whole ++ '.' :: part)) =
      some (Decimal.toFloat ⟨Nat.ofDigitChars 10 (whole ++ part) 0, -(part.length : Int)⟩) := by
  have hsign := splitSign_signed h.whole_row false ('.' :: part)
  rw [if_neg Bool.false_ne_true, List.nil_append] at hsign
  have hnumeral := unsigned?_pointed h
  obtain ⟨c, rest, hwhole⟩ := List.exists_cons_of_ne_nil h.whole_row.nonempty
  have hdigit : isDigit c = true := h.whole_row.digits c (hwhole ▸ List.mem_cons_self)
  have hinf : lower (whole ++ '.' :: part) ≠ "inf" := hwhole ▸ lower_ne_word hdigit rfl (by decide)
  have hinfinity : lower (whole ++ '.' :: part) ≠ "infinity" := hwhole ▸ lower_ne_word hdigit rfl (by decide)
  have hnan : lower (whole ++ '.' :: part) ≠ "nan" := hwhole ▸ lower_ne_word hdigit rfl (by decide)
  unfold float?
  rw [String.toList_ofList, hsign]
  dsimp only
  rw [if_neg (by simp [hinf, hinfinity]), if_neg hnan, hnumeral, Option.map_some, Option.map_some,
    Binary64.withSign, if_neg Bool.false_ne_true]

theorem real?_pointed (h : Pointed size whole part) {x : Float} (hx : x.isFinite = true) (negative : Bool)
    (hread : Binary64.withSign negative
      (Decimal.toFloat ⟨Nat.ofDigitChars 10 (whole ++ part) 0, -(part.length : Int)⟩) = x) :
    real? ((if negative then ['-'] else []) ++ (whole ++ '.' :: part)) = some x := by
  have hfinite := Binary64.isFinite_of_withSign (hread.symm ▸ hx)
  obtain ⟨c, rest, hwhole⟩ := List.exists_cons_of_ne_nil h.whole_row.nonempty
  have hdigit : isDigit c = true := h.whole_row.digits c (hwhole ▸ List.mem_cons_self)
  have hword : ∀ d word, isDigit d = false → whole ++ '.' :: part ≠ d :: word := by
    intro d word hd heq
    rw [hwhole, List.cons_append] at heq
    rw [(List.cons.inj heq).1] at hdigit
    exact Bool.false_ne_true (hd.symm.trans hdigit)
  unfold real?
  rw [splitSign_signed h.whole_row]
  dsimp only
  rw [if_neg (hword 'i' _ (by decide)), if_neg (hword 'n' _ (by decide)), decimalForm?_pointed h]
  refine Option.bind_eq_some_iff.2 ⟨_, rfl, Option.bind_eq_some_iff.2 ⟨_, float?_pointed h, ?_⟩⟩
  rw [if_pos hfinite, hread]

/-! ## Scalars without quotation marks -/

/-- what begins like a number is no word -/
theorem ofChars?_whole {c : Char} {cs : List Char} {i : Int} (h : StartsNumber c) (hwhole : whole? (c :: cs) = some i) :
    Scalar.ofChars? (c :: cs) = some (.whole i) := by
  have hword : ∀ d word, d ≠ '-' → isDigit d = false → c :: cs ≠ d :: word := fun d word hminus hdigit heq =>
    h.ne hminus hdigit (List.cons.inj heq).1
  rw [Scalar.ofChars?, if_neg (hword 't' _ (by decide) (by decide)), if_neg (hword 'f' _ (by decide) (by decide)), hwhole]

theorem ofChars?_real {c : Char} {cs : List Char} {x : Float} (h : StartsNumber c) (hwhole : whole? (c :: cs) = none)
    (hreal : real? (c :: cs) = some x) : Scalar.ofChars? (c :: cs) = some (.real x) := by
  have hword : ∀ d word, d ≠ '-' → isDigit d = false → c :: cs ≠ d :: word := fun d word hminus hdigit heq =>
    h.ne hminus hdigit (List.cons.inj heq).1
  rw [Scalar.ofChars?, if_neg (hword 't' _ (by decide) (by decide)), if_neg (hword 'f' _ (by decide) (by decide)), hwhole,
    hreal]

theorem isScalarChar_digit {c : Char} (h : isDigit c = true) : isScalarChar c = true := by
  have halphanum : c.isAlphanum = true := by
    rw [Char.isAlphanum, isDigit_iff.1 h, Bool.or_true]
  rw [isScalarChar, halphanum]
  rfl

/-- characters that a scalar without quotation marks is written with -/
structure Bare (cs : List Char) (v : Scalar) : Prop where
  chars : ∀ c ∈ cs, isScalarChar c = true
  read : Scalar.ofChars? cs = some v

/-- no other character stands for one of a scalar -/
theorem isScalarChar_ne {c d : Char} (h : isScalarChar c = true) (hd : isScalarChar d = false) : c ≠ d := by
  rintro rfl
  exact Bool.false_ne_true (hd.symm.trans h)

/-- a scalar is written with some character -/
theorem Bare.head {cs : List Char} {v : Scalar} (h : Bare cs v) : ∃ c more, cs = c :: more ∧ isScalarChar c = true := by
  cases cs with
  | nil => cases h.read
  | cons c more => exact ⟨c, more, rfl, h.chars c List.mem_cons_self⟩

theorem bare_flag (b : Bool) : Bare (Scalar.flag b).written.toList (.flag b) := by
  cases b with
  | true => exact ⟨fun c hc => List.all_eq_true.1 (show ['t', 'r', 'u', 'e'].all isScalarChar = true by decide) c hc, rfl⟩
  | false =>
    exact ⟨fun c hc => List.all_eq_true.1 (show ['f', 'a', 'l', 's', 'e'].all isScalarChar = true by decide) c hc, rfl⟩

theorem bare_whole {i : Int} (h : (Scalar.whole i).Writable) : Bare (Scalar.whole i).written.toList (.whole i) := by
  refine ⟨fun c hc => ?_, ?_⟩
  · rcases chars_toString i c hc with rfl | hdigit
    · decide
    · exact isScalarChar_digit hdigit
  · have hread := whole?_toString h
    have hchars := chars_toString i
    show Scalar.ofChars? (toString i).toList = _
    generalize (toString i).toList = cs at hread hchars
    cases cs with
    | nil => cases hread
    | cons c cs => exact ofChars?_whole (hchars c List.mem_cons_self) hread

theorem bare_real {x : Float} (h : x.isFinite = true) : Bare (Scalar.real x).written.toList (.real x) := by
  obtain ⟨size, whole, part, htext, hpointed, hread⟩ := Number.text_saved h
  have hwhole := whole?_pointed hpointed (Binary64.decode x).negative
  have hreal := real?_pointed hpointed h (Binary64.decode x).negative hread
  show Bare (Number.saved.text x).toList _
  rw [htext]
  refine ⟨fun c hc => ?_, ?_⟩
  · rcases chars_pointed hpointed c hc with rfl | rfl | hdigit
    · decide
    · decide
    · exact isScalarChar_digit hdigit
  · have hstarts : ∃ c cs, (if (Binary64.decode x).negative then ['-'] else []) ++ (whole ++ '.' :: part) = c :: cs ∧
        StartsNumber c := by
      obtain ⟨c, cs, rfl⟩ := List.exists_cons_of_ne_nil hpointed.whole_row.nonempty
      cases (Binary64.decode x).negative with
      | true => exact ⟨'-', _, rfl, .inl rfl⟩
      | false => exact ⟨c, _, rfl, .inr (hpointed.whole_row.digits c List.mem_cons_self)⟩
    obtain ⟨c, cs, hcs, hstart⟩ := hstarts
    rw [hcs] at hwhole hreal ⊢
    exact ofChars?_real hstart hwhole hreal

/-- a scalar without quotation marks is read up to the end of its line -/
theorem value?_bare {cs : List Char} {v : Scalar} (h : Bare cs v) (rest : Rest) (fuel levels : Nat) :
    value? (fuel + 1) levels (cs ++ '\n' :: rest) = some (.scalar v, '\n' :: rest) := by
  obtain ⟨htake, hdrop⟩ := span_append h.chars ('\n' :: rest) fun c hc => by
    obtain rfl : '\n' = c := Option.some.inj hc
    decide
  have hscalar : scalar? (cs ++ '\n' :: rest) = some (v, '\n' :: rest) := by
    rw [scalar?, scalarRow, htake, hdrop]
    refine Option.bind_eq_some_iff.2 ⟨v, h.read, rfl⟩
  obtain ⟨c, more, rfl, hc⟩ := h.head
  rw [List.cons_append] at hscalar ⊢
  rw [value?, hscalar, Option.map_some]
  · exact fun _ heq => isScalarChar_ne hc (by decide) (List.cons.inj heq).1
  · exact fun _ heq => isScalarChar_ne hc (by decide) (List.cons.inj heq).1
  · exact fun _ _ heq _ => isScalarChar_ne hc (by decide) (List.cons.inj heq).1
  · exact fun _ _ heq _ => isScalarChar_ne hc (by decide) (List.cons.inj heq).1

/-! ## Texts -/

/-- the characters of a text as they are written -/
def bodyOf (cs : List Char) : List Char :=
  cs.flatMap fun c => (escape c).toList

theorem stringBody?_bodyOf {cs : List Char} (h : ∀ c ∈ cs, isControl c = false) (done : List Char) (rest : Rest)
    {fuel : Nat} (hfuel : cs.length < fuel) :
    stringBody? fuel done (bodyOf cs ++ '"' :: rest) = some (String.ofList (done.reverse ++ cs), rest) := by
  induction cs generalizing done fuel with
  | nil =>
    obtain ⟨fuel, rfl⟩ : ∃ n, fuel = n + 1 := ⟨fuel - 1, by omega⟩
    rw [List.append_nil]
    rfl
  | cons c cs ih =>
    rw [List.length_cons] at hfuel
    obtain ⟨fuel, rfl⟩ : ∃ n, fuel = n + 1 := ⟨fuel - 1, by omega⟩
    have hrest := ih (fun d hd => h d (List.mem_cons_of_mem _ hd)) (c :: done) (Nat.lt_of_succ_lt_succ hfuel)
    rw [List.reverse_cons, List.append_assoc, List.singleton_append] at hrest
    rw [bodyOf, List.flatMap_cons, List.append_assoc, ← bodyOf, escape]
    split
    next hmark =>
      subst hmark
      exact hrest
    split
    next hstroke =>
      subst hstroke
      exact hrest
    next hmark hstroke =>
      have hself : c.toString.toList = [c] := by simp
      rw [hself, List.singleton_append, stringBody?, h c List.mem_cons_self, if_neg Bool.false_ne_true, hrest]
      · exact hmark
      · exact hstroke

/-- no character is written by nothing -/
theorem length_le_bodyOf (cs : List Char) : cs.length ≤ (bodyOf cs).length := by
  induction cs with
  | nil => exact Nat.zero_le _
  | cons c cs ih =>
    have hone : 1 ≤ (escape c).toList.length := by
      unfold escape
      split
      · decide
      split
      · decide
      · simp
    rw [bodyOf, List.flatMap_cons, List.length_append, ← bodyOf, List.length_cons]
    omega

/-- a text between quotation marks does not look like one over lines -/
theorem bodyOf_ne_marks (cs : List Char) (rest more : Rest) : bodyOf cs ++ '"' :: '\n' :: rest ≠ '"' :: '"' :: more := by
  cases cs with
  | nil => exact fun heq => absurd (List.cons.inj (List.cons.inj heq).2).1 (by decide)
  | cons c cs =>
    rw [bodyOf, List.flatMap_cons, List.append_assoc, escape]
    split
    next => exact fun heq => absurd (List.cons.inj heq).1 (by decide)
    split
    next => exact fun heq => absurd (List.cons.inj heq).1 (by decide)
    next hmark _ =>
      have hself : c.toString.toList = [c] := by simp
      rw [hself]
      exact fun heq => hmark (List.cons.inj heq).1

theorem toList_text (s : String) : (Scalar.text s).written.toList = '"' :: (bodyOf s.toList ++ ['"']) := by
  rw [Scalar.written, String.toList_append, String.toList_append, String.toList_join, List.flatMap_map]
  rfl

theorem value?_text {s : String} (h : (Scalar.text s).Writable) (rest : Rest) (fuel levels : Nat) :
    value? (fuel + 1) levels ((Scalar.text s).written.toList ++ '\n' :: rest) =
      some (.scalar (.text s), '\n' :: rest) := by
  have hchars : (Scalar.text s).written.toList ++ '\n' :: rest = '"' :: (bodyOf s.toList ++ '"' :: '\n' :: rest) := by
    rw [toList_text, List.cons_append, List.append_assoc, List.singleton_append]
  have hlength : s.toList.length < (bodyOf s.toList ++ '"' :: '\n' :: rest).length + 1 := by
    have := length_le_bodyOf s.toList
    rw [List.length_append]
    omega
  rw [hchars, value?, string?, stringBody?_bodyOf h [] _ hlength, Option.map_some, List.reverse_nil, List.nil_append,
    String.ofList_toList]
  exact fun more heq => bodyOf_ne_marks _ _ _ heq

/-- no scalar begins with a blank -/
theorem written_head {v : Scalar} (h : v.Writable) : ∃ c more, v.written.toList = c :: more ∧ isBlank c = false := by
  have hbare : ∀ {cs : List Char}, Bare cs v → ∃ c more, cs = c :: more ∧ isBlank c = false := by
    intro cs hcs
    obtain ⟨c, more, rfl, hc⟩ := hcs.head
    have hspace : c ≠ ' ' := isScalarChar_ne hc (by decide)
    have htab : c ≠ '\t' := isScalarChar_ne hc (by decide)
    exact ⟨c, more, rfl, by simp [isBlank, hspace, htab]⟩
  cases v with
  | flag b => exact hbare (bare_flag b)
  | whole i => exact hbare (bare_whole h)
  | real x => exact hbare (bare_real h)
  | text s =>
    exact ⟨'"', _, toList_text s, by decide⟩

/-- **A written scalar is read up to the end of its line.** -/
theorem value?_written {v : Scalar} (h : v.Writable) (rest : Rest) (fuel levels : Nat) :
    value? (fuel + 1) levels (v.written.toList ++ '\n' :: rest) = some (.scalar v, '\n' :: rest) := by
  cases v with
  | flag b => exact value?_bare (bare_flag b) rest fuel levels
  | whole i => exact value?_bare (bare_whole h) rest fuel levels
  | real x => exact value?_bare (bare_real h) rest fuel levels
  | text s => exact value?_text h rest fuel levels

end TradingRobots.Toml
