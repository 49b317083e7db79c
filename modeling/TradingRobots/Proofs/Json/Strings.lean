/-
Strings of JSON read back: every text, whatever characters it holds.

A character is written as itself or as an escape. The reader first finds the closing mark, over the escapes as they
are written, and then spells the characters one by one.

`string?_quoted`: a quoted text reads back, and what follows it is left.
-/
import TradingRobots.Json.Reading
import Mathlib.Tactic

namespace TradingRobots.Json

/-! ## One character -/

/-- a control character is written by the value of its two last digits -/
theorem hexFour?_control {n : Nat} (h : n < 32) (s : Rest) :
    hexFour? ('0' :: '0' :: hexDigit (n / 16) :: hexDigit (n % 16) :: s) = some (n, s) := by
  have hdigits : ∀ n < 32, ['0', '0', hexDigit (n / 16), hexDigit (n % 16)].mapM Reading.hexValue? =
      some [0, 0, n / 16, n % 16] := by decide
  have hvalue : Reading.ofDigits 16 [0, 0, n / 16, n % 16] = n := by
    simp only [Reading.ofDigits, List.foldl_cons, List.foldl_nil]
    omega
  rw [hexFour?, hdigits n h, Option.bind_eq_bind, Option.bind_some, hvalue]

/-- the digits of a control character stand in the body of a string as they are -/
theorem hexDigit_plain : ∀ n < 16, 32 ≤ (hexDigit n).toNat ∧ hexDigit n ≠ '"' ∧ hexDigit n ≠ '\\' := by
  decide

/-- how a character may be written: as itself, by a letter after a stroke, or by a code -/
inductive Escape (c : Char) : List Char → Prop
  | plain : c ≠ '"' → c ≠ '\\' → 32 ≤ c.toNat → Escape c [c]
  | short (d : Char) : d ≠ 'u' → (∀ s, escaped? (d :: s) = some (some c, s)) → Escape c ['\\', d]
  | control : c.toNat < 32 → Escape c ['\\', 'u', '0', '0', hexDigit (c.toNat / 16), hexDigit (c.toNat % 16)]

theorem escape_kind (c : Char) : Escape c (escape c).toList := by
  unfold escape
  split
  next h => subst h; exact .short '"' (by decide) fun _ => rfl
  split
  next h => subst h; exact .short '\\' (by decide) fun _ => rfl
  split
  next h => subst h; exact .short 'n' (by decide) fun _ => rfl
  split
  next h => subst h; exact .short 'r' (by decide) fun _ => rfl
  split
  next h => subst h; exact .short 't' (by decide) fun _ => rfl
  split
  next h =>
    have hc : c = Char.ofNat 8 := by rw [← h, Char.ofNat_toNat]
    subst hc
    exact .short 'b' (by decide) fun _ => rfl
  split
  next h =>
    have hc : c = Char.ofNat 12 := by rw [← h, Char.ofNat_toNat]
    subst hc
    exact .short 'f' (by decide) fun _ => rfl
  split
  next h =>
    have hchars : ("\\u00" ++ String.ofList [hexDigit (c.toNat / 16), hexDigit (c.toNat % 16)]).toList =
        ['\\', 'u', '0', '0', hexDigit (c.toNat / 16), hexDigit (c.toNat % 16)] := by
      rw [String.toList_append, String.toList_ofList]
      simp
    rw [hchars]
    exact .control h
  next hmark hstroke _ _ _ _ _ hbig =>
    have hself : c.toString.toList = [c] := by simp
    rw [hself]
    exact .plain hmark hstroke (by omega)

theorem stringBody?_plain {c : Char} (done : List Char) (s : Rest) (hmark : c ≠ '"') (hstroke : c ≠ '\\')
    (h : 32 ≤ c.toNat) : stringBody? done (c :: s) = stringBody? (c :: done) s := by
  rw [stringBody?, if_neg (by omega)]
  · exact hmark
  · exact fun _ _ he _ => hstroke he

/-- the search for the closing mark goes over a written character -/
theorem Escape.passed {c : Char} {w : List Char} (h : Escape c w) (done : List Char) (s : Rest) :
    stringBody? done (w ++ s) = stringBody? (w.reverse ++ done) s := by
  have hdigit : ∀ n (done : List Char) (s : Rest), n < 16 →
      stringBody? done (hexDigit n :: s) = stringBody? (hexDigit n :: done) s := fun n done s hn =>
    stringBody?_plain done s (hexDigit_plain n hn).2.1 (hexDigit_plain n hn).2.2 (hexDigit_plain n hn).1
  have hzero : ∀ (done : List Char) (s : Rest), stringBody? done ('0' :: s) = stringBody? ('0' :: done) s := fun done s =>
    stringBody?_plain done s (by decide) (by decide) (by decide)
  cases h with
  | plain hmark hstroke h => exact stringBody?_plain done s hmark hstroke h
  | short d => rfl
  | control h =>
    show stringBody? ('u' :: '\\' :: done) ('0' :: '0' :: _) = _
    rw [hzero, hzero]
    show stringBody? _ (hexDigit _ :: hexDigit _ :: s) = _
    rw [hdigit _ _ _ (by omega), hdigit _ _ _ (by omega)]
    rfl

/-- a written character is spelled as that character -/
theorem Escape.spelt {c : Char} {w : List Char} (h : Escape c w) (fuel : Nat) (done : List (Option Char))
    (s : List Char) : spelled? (fuel + 1) done (w ++ s) = spelled? fuel (some c :: done) s := by
  cases h with
  | plain _ hstroke _ =>
    show spelled? (fuel + 1) done (c :: s) = _
    rw [spelled?]
    exact hstroke
  | short d _ h =>
    show spelled? (fuel + 1) done ('\\' :: d :: s) = _
    rw [spelled?, h, Option.bind_eq_bind, Option.bind_some]
  | control h =>
    have hcode : escaped? ('u' :: '0' :: '0' :: hexDigit (c.toNat / 16) :: hexDigit (c.toNat % 16) :: s) =
        some (some c, s) := by
      rw [escaped?, coded?, hexFour?_control h, Option.bind_eq_bind, Option.bind_some]
      dsimp only
      rw [if_neg (by omega), if_neg (by omega), Char.ofNat_toNat]
    show spelled? (fuel + 1) done ('\\' :: 'u' :: '0' :: '0' :: hexDigit _ :: hexDigit _ :: s) = _
    rw [spelled?, hcode, Option.bind_eq_bind, Option.bind_some]

theorem Escape.length_pos {c : Char} {w : List Char} (h : Escape c w) : 1 ≤ w.length := by
  cases h <;> simp only [List.length_cons] <;> omega

/-! ## All characters of a text -/

/-- the characters of a text as they are written -/
def bodyOf (cs : List Char) : List Char :=
  cs.flatMap fun c => (escape c).toList

theorem stringBody?_bodyOf (cs done : List Char) (s : Rest) :
    stringBody? done (bodyOf cs ++ '"' :: s) = some (done.reverse ++ bodyOf cs, s) := by
  induction cs generalizing done with
  | nil =>
    show stringBody? done ('"' :: s) = _
    rw [stringBody?, bodyOf, List.flatMap_nil, List.append_nil]
  | cons c cs ih =>
    rw [bodyOf, List.flatMap_cons, List.append_assoc, (escape_kind c).passed, ← bodyOf, ih]
    simp only [List.reverse_append, List.reverse_reverse, List.append_assoc]

/-- no character is written by nothing -/
theorem length_le_bodyOf (cs : List Char) : cs.length ≤ (bodyOf cs).length := by
  induction cs with
  | nil => exact Nat.zero_le _
  | cons c cs ih =>
    have hone := (escape_kind c).length_pos
    rw [bodyOf, List.flatMap_cons, List.length_append, ← bodyOf, List.length_cons]
    omega

theorem spelled?_bodyOf {fuel : Nat} {cs : List Char} (done : List (Option Char)) (h : cs.length ≤ fuel) :
    spelled? fuel done (bodyOf cs) = some (done.reverse ++ cs.map some) := by
  induction cs generalizing fuel done with
  | nil => rw [bodyOf, List.flatMap_nil, spelled?, List.map_nil, List.append_nil]
  | cons c cs ih =>
    obtain ⟨fuel, rfl⟩ : ∃ n, fuel = n + 1 := ⟨fuel - 1, by rw [List.length_cons] at h; omega⟩
    rw [bodyOf, List.flatMap_cons, (escape_kind c).spelt, ← bodyOf, ih _ (Nat.le_of_succ_le_succ h)]
    simp

theorem toList_quoted (text : String) : (quoted text).toList = '"' :: (bodyOf text.toList ++ ['"']) := by
  rw [quoted, String.toList_append, String.toList_append, String.toList_join, List.flatMap_map]
  rfl

/-- **A quoted text reads back.** -/
theorem string?_quoted (text : String) (rest : Rest) :
    string? ((quoted text).toList ++ rest) = some (some text, rest) := by
  have hmapM : (text.toList.map some).mapM id = some text.toList := by
    rw [List.mapM_map]
    exact (List.mapM_pure (f := id)).trans (by rw [List.map_id]; rfl)
  rw [toList_quoted, List.cons_append, List.append_assoc, List.singleton_append, string?, stringBody?_bodyOf,
    Option.bind_eq_bind, Option.bind_some, List.reverse_nil, List.nil_append]
  dsimp only
  rw [spelled?_bodyOf _ (length_le_bodyOf _), Option.bind_eq_bind, Option.bind_some, List.reverse_nil,
    List.nil_append, hmapM, Option.map_some, String.ofList_toList]

end TradingRobots.Json
