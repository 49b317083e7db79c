/-
What a ledger writes down, row by row.

A row is entered in two steps: its change scores the vote held so far, then its own vote is held. So a record is made by
a row with a change and pairs that change with the vote of the row entered just before, whatever lies between the two.
A vote whose next row has no change is replaced unscored.

`records_foldl_enter`: the records after any rows.
`mem_recordsOf_iff`: a record belongs to a row and the one before it.
`Counted.foldl_enter`: every record is counted once, by its outcome.
-/
import TradingRobots.Ledger
import Mathlib.Tactic

namespace TradingRobots

/-- what a row brings to its dataset's ledger: the change realized there, where it is known, and the vote -/
structure Entry where
  bar : Nat
  change : Option Float
  signal : Signal
deriving DecidableEq, Repr

namespace Ledger

/-- enters a row: the held vote is scored against its change, then its own vote is held -/
def enter (threshold : Float) (l : Ledger) (e : Entry) : Ledger :=
  (match e.change with
    | some change => (l.resolve e.bar change threshold).2
    | none => l).hold e.signal

/-- the record that a row makes of the vote held before it -/
def recordOf? (threshold : Float) (held : Option Signal) (e : Entry) : Option VoteRecord := do
  let signal ← held
  let change ← e.change
  some ⟨e.bar, signal, change, Outcome.resolve signal change threshold⟩

/-- the records that rows make one after the other -/
def recordsOf (threshold : Float) : Option Signal → List Entry → List VoteRecord
  | _, [] => []
  | held, e :: rest => (recordOf? threshold held e).toList ++ recordsOf threshold (some e.signal) rest

/-- the vote held after some rows, if one was held before them -/
def heldAfter (held : Option Signal) (entries : List Entry) : Option Signal :=
  entries.getLast?.elim held fun e => some e.signal

variable {threshold : Float} {held : Option Signal} {l : Ledger}

/-! ## One row -/

@[simp]
theorem held_enter (threshold : Float) (l : Ledger) (e : Entry) : (l.enter threshold e).held = some e.signal := rfl

/-- a record pairs the held vote with the row's change -/
theorem recordOf?_eq_some_iff {e : Entry} {r : VoteRecord} :
    recordOf? threshold held e = some r ↔
      ∃ signal change, held = some signal ∧ e.change = some change ∧
        r = ⟨e.bar, signal, change, Outcome.resolve signal change threshold⟩ := by
  constructor
  · intro h
    obtain ⟨signal, hsignal, h⟩ := Option.bind_eq_some_iff.1 h
    obtain ⟨change, hchange, h⟩ := Option.bind_eq_some_iff.1 h
    cases h
    exact ⟨signal, change, hsignal, hchange, rfl⟩
  · rintro ⟨signal, change, rfl, hchange, rfl⟩
    simp only [recordOf?, hchange, Option.bind_eq_bind, Option.bind_some]

theorem bar_of_recordOf? {e : Entry} {r : VoteRecord} (h : recordOf? threshold held e = some r) : r.bar = e.bar := by
  obtain ⟨signal, change, -, -, rfl⟩ := recordOf?_eq_some_iff.1 h
  rfl

theorem records_enter (threshold : Float) (l : Ledger) (e : Entry) :
    (l.enter threshold e).records = l.records ++ (recordOf? threshold l.held e).toList := by
  unfold enter recordOf?
  cases hchange : e.change with
  | none => cases l.held <;> exact (List.append_nil _).symm
  | some change =>
    cases hheld : l.held with
    | none => simp [resolve, hold, hheld]
    | some signal => simp [resolve, hold, hheld]

/-- every record is counted once, under its outcome -/
def Counted (l : Ledger) : Prop :=
  l.correct + l.wrong + l.out = l.records.length

theorem counted_empty : Counted empty := rfl

theorem Counted.enter (h : l.Counted) (threshold : Float) (e : Entry) : (l.enter threshold e).Counted := by
  unfold Counted at h ⊢
  unfold Ledger.enter
  cases hchange : e.change with
  | none => exact h
  | some change =>
    cases hheld : l.held with
    | none =>
      simp only [resolve, hold, hheld]
      exact h
    | some signal =>
      simp only [resolve, hold, hheld, List.length_append, List.length_singleton]
      cases Outcome.resolve signal change threshold with
      | correct =>
        simp
        omega
      | wrong =>
        simp
        omega
      | out =>
        simp
        omega

/-! ## Rows one after the other -/

theorem heldAfter_cons (held : Option Signal) (e : Entry) (rest : List Entry) :
    heldAfter held (e :: rest) = heldAfter (some e.signal) rest := by
  unfold heldAfter
  cases rest with
  | nil => rfl
  | cons x rest => rw [List.getLast?_cons_cons, List.getLast?_eq_some_getLast (List.cons_ne_nil x rest)]; rfl

/-- **The records after any rows**: those from before, and one for each row that makes one. -/
theorem records_foldl_enter (threshold : Float) (entries : List Entry) (l : Ledger) :
    (entries.foldl (enter threshold) l).records = l.records ++ recordsOf threshold l.held entries := by
  induction entries generalizing l with
  | nil => exact (List.append_nil _).symm
  | cons e rest ih => rw [List.foldl_cons, ih, records_enter, held_enter, recordsOf, List.append_assoc]

theorem Counted.foldl_enter (h : l.Counted) (threshold : Float) (entries : List Entry) :
    (entries.foldl (Ledger.enter threshold) l).Counted := by
  induction entries generalizing l with
  | nil => exact h
  | cons e rest ih => exact ih (h.enter threshold e)

/-- **A record belongs to a row and the one before it.** -/
theorem mem_recordsOf_iff {entries : List Entry} {r : VoteRecord} :
    r ∈ recordsOf threshold held entries ↔
      ∃ before e after, entries = before ++ e :: after ∧
        recordOf? threshold (heldAfter held before) e = some r := by
  induction entries generalizing held with
  | nil => simp [recordsOf]
  | cons e rest ih =>
    rw [recordsOf, List.mem_append, Option.mem_toList, ih]
    constructor
    · rintro (hr | ⟨before, x, after, rfl, hr⟩)
      · exact ⟨[], e, rest, rfl, hr⟩
      · refine ⟨e :: before, x, after, rfl, ?_⟩
        rwa [heldAfter_cons]
    · rintro ⟨before, x, after, hsplit, hr⟩
      cases before with
      | nil =>
        cases hsplit
        exact Or.inl hr
      | cons y before =>
        cases hsplit
        rw [heldAfter_cons] at hr
        exact Or.inr ⟨before, x, after, rfl, hr⟩

/-- records come in the order of their rows -/
theorem bars_recordsOf_sublist (threshold : Float) (held : Option Signal) (entries : List Entry) :
    ((recordsOf threshold held entries).map VoteRecord.bar).Sublist (entries.map Entry.bar) := by
  induction entries generalizing held with
  | nil => exact List.Sublist.refl []
  | cons e rest ih =>
    rw [recordsOf, List.map_append, List.map_cons]
    cases hr : recordOf? threshold held e with
    | none => exact (ih _).cons e.bar
    | some r =>
      have hbar : r.bar = e.bar := bar_of_recordOf? hr
      simpa [hbar] using ih (some e.signal)

/-! ## Rows in ascending order -/

/-- among some rows, one stands right before another -/
structure RightBefore (entries : List Entry) (prev e : Entry) : Prop where
  mem : prev ∈ entries
  lt : prev.bar < e.bar
  closest : ∀ x ∈ entries, x.bar ≤ prev.bar ∨ e.bar ≤ x.bar

theorem eq_of_bar_eq {entries : List Entry} (h : entries.Pairwise fun a b => a.bar < b.bar) {a b : Entry}
    (ha : a ∈ entries) (hb : b ∈ entries) (hbar : a.bar = b.bar) : a = b := by
  have hnodup : (entries.map Entry.bar).Nodup := List.pairwise_map.2 (h.imp Nat.ne_of_lt)
  exact List.inj_on_of_nodup_map hnodup ha hb hbar

/-- what has a smaller bar stands before a position -/
theorem mem_before_of_lt {before after : List Entry} {e x : Entry}
    (h : (before ++ e :: after).Pairwise fun a b => a.bar < b.bar) (hx : x ∈ before ++ e :: after)
    (hlt : x.bar < e.bar) : x ∈ before := by
  obtain ⟨-, hafter, -⟩ := List.pairwise_append.1 h
  rcases List.mem_append.1 hx with hx | hx
  · exact hx
  · rcases List.mem_cons.1 hx with rfl | hx
    · exact absurd hlt (Nat.lt_irrefl _)
    · have := (List.pairwise_cons.1 hafter).1 x hx
      omega

/-- the last of the rows before a position stands right before it -/
theorem rightBefore_getLast {before after : List Entry} {prev e : Entry}
    (h : (before ++ e :: after).Pairwise fun a b => a.bar < b.bar) (hlast : before.getLast? = some prev) :
    RightBefore (before ++ e :: after) prev e := by
  obtain ⟨init, rfl⟩ : ∃ init, before = init ++ [prev] := List.getLast?_eq_some_iff.1 hlast
  obtain ⟨hbefore, hafter, hcross⟩ := List.pairwise_append.1 h
  obtain ⟨-, -, hinit⟩ := List.pairwise_append.1 hbefore
  have hprev : prev ∈ init ++ [prev] := List.mem_append_right _ (List.mem_singleton_self prev)
  refine ⟨List.mem_append_left _ hprev, hcross prev hprev e List.mem_cons_self, fun x hx => ?_⟩
  rcases List.mem_append.1 hx with hx | hx
  · rcases List.mem_append.1 hx with hx | hx
    · exact Or.inl (Nat.le_of_lt (hinit x hx prev (List.mem_singleton_self prev)))
    · rw [List.mem_singleton.1 hx]
      exact Or.inl (Nat.le_refl _)
  · rcases List.mem_cons.1 hx with rfl | hx
    · exact Or.inr (Nat.le_refl _)
    · exact Or.inr (Nat.le_of_lt ((List.pairwise_cons.1 hafter).1 x hx))

/-- a row that stands right before a position is the last of the rows before it -/
theorem getLast_of_rightBefore {before after : List Entry} {prev e : Entry}
    (h : (before ++ e :: after).Pairwise fun a b => a.bar < b.bar)
    (hprev : RightBefore (before ++ e :: after) prev e) : before.getLast? = some prev := by
  obtain ⟨hmem, hlt, hclosest⟩ := hprev
  have hin : prev ∈ before := mem_before_of_lt h hmem hlt
  cases hlast : before.getLast? with
  | none =>
    rw [List.getLast?_eq_none_iff.1 hlast] at hin
    cases hin
  | some last =>
    have hother := rightBefore_getLast h hlast
    have hle : last.bar ≤ prev.bar := (hclosest last hother.mem).resolve_right (Nat.not_le.2 hother.lt)
    have hge : prev.bar ≤ last.bar := (hother.closest prev hmem).resolve_right (Nat.not_le.2 hlt)
    exact congrArg some (eq_of_bar_eq h hother.mem hmem (Nat.le_antisymm hle hge))

/-- a row with an earlier one has one right before it -/
theorem exists_rightBefore {entries : List Entry} (h : entries.Pairwise fun a b => a.bar < b.bar) {e x : Entry}
    (he : e ∈ entries) (hx : x ∈ entries) (hlt : x.bar < e.bar) : ∃ prev, RightBefore entries prev e := by
  obtain ⟨before, after, rfl⟩ := List.append_of_mem he
  have hin : x ∈ before := mem_before_of_lt h hx hlt
  cases hlast : before.getLast? with
  | none =>
    rw [List.getLast?_eq_none_iff.1 hlast] at hin
    cases hin
  | some prev => exact ⟨prev, rightBefore_getLast h hlast⟩

/-- **In ascending order, a record pairs a row's change with the vote of the row right before it.** -/
theorem mem_recordsOf_none_iff {entries : List Entry} (h : entries.Pairwise fun a b => a.bar < b.bar)
    {r : VoteRecord} :
    r ∈ recordsOf threshold none entries ↔
      ∃ e ∈ entries, ∃ prev, RightBefore entries prev e ∧ recordOf? threshold (some prev.signal) e = some r := by
  rw [mem_recordsOf_iff]
  constructor
  · rintro ⟨before, e, after, rfl, hr⟩
    refine ⟨e, List.mem_append_right _ List.mem_cons_self, ?_⟩
    cases hlast : before.getLast? with
    | none =>
      rw [heldAfter, hlast] at hr
      cases hr
    | some prev =>
      rw [heldAfter, hlast] at hr
      exact ⟨prev, rightBefore_getLast h hlast, hr⟩
  · rintro ⟨e, he, prev, hprev, hr⟩
    obtain ⟨before, after, rfl⟩ := List.append_of_mem he
    refine ⟨before, e, after, rfl, ?_⟩
    rw [heldAfter, getLast_of_rightBefore h hprev]
    exact hr

end Ledger

end TradingRobots
