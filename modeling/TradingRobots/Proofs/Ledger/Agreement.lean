/-
Robots and ledgers score alike.

A robot is told its new signal first, which makes the pending one current, and the change then scores the current one. A
ledger is given the change first, which scores the vote it holds, and holds the new vote after. Fed the same bars of a
dataset, both pair a bar's change with the signal of the bar before, and both drop a signal whose next bar has no
change. What a robot holds for a dataset is its `Slot`; a call on another dataset leaves the slot alone, so the agreement
does not depend on what else the robot is asked.

`answers_on`: a robot's answers on a dataset are those of its slot to the calls on that dataset.
`Slot.answers_rows`: a slot and a ledger that hold the same signal answer the same rows alike.
`scores_like_ledger`: the answers on a dataset are the ledger's, and the counters those of the ledger and of all other
answers.
-/
import TradingRobots.Proofs.Engine.Scoring
import TradingRobots.Proofs.Ledger.Entries
import TradingRobots.Proofs.Weight.Sound

namespace TradingRobots

/-! ## What a robot answers -/

namespace Robot

def Call.dataset : Call → String
  | .predict dataset _ => dataset
  | .resolve dataset _ _ => dataset

/-- the answer to a change is the outcome of the signal it scores, if there is one; a new signal has no answer -/
def answer? (r : Robot) : Call → Option (Option Outcome)
  | .predict _ _ => none
  | .resolve dataset change threshold => some (r.resolve dataset change threshold).1

/-- the answers to calls, one after the other, each under its dataset -/
def answers : Robot → List Call → List (String × Option Outcome)
  | _, [] => []
  | r, c :: rest => ((r.answer? c).toList.map fun answer => (c.dataset, answer)) ++ answers (r.call c) rest

/-- the answers on a dataset -/
def answersOn (dataset : String) (answers : List (String × Option Outcome)) : List (Option Outcome) :=
  (answers.filter fun a => a.1 = dataset).map Prod.snd

/-- the outcomes among the answers on all other datasets -/
def outcomesElsewhere (dataset : String) (answers : List (String × Option Outcome)) : List Outcome :=
  (answers.filter fun a => a.1 ≠ dataset).filterMap Prod.snd

/-! ## What a robot holds for a dataset -/

/-- the pending and the current signal of one dataset -/
structure Slot where
  pending : Option Signal
  current : Option Signal
deriving DecidableEq, Repr

def slot (r : Robot) (dataset : String) : Slot :=
  ⟨r.pending.find? dataset, r.current.find? dataset⟩

namespace Slot

/-- a call on the slot's dataset -/
def call (t : Slot) : Call → Slot
  | .predict _ signal => ⟨some signal, t.pending⟩
  | .resolve _ _ _ => ⟨t.pending, none⟩

def answer? (t : Slot) : Call → Option (Option Outcome)
  | .predict _ _ => none
  | .resolve _ change threshold => some (t.current.map fun signal => Outcome.resolve signal change threshold)

def answers : Slot → List Call → List (Option Outcome)
  | _, [] => []
  | t, c :: rest => (t.answer? c).toList ++ answers (t.call c) rest

theorem answers_append (t : Slot) (calls rest : List Call) :
    t.answers (calls ++ rest) = t.answers calls ++ (calls.foldl call t).answers rest := by
  induction calls generalizing t with
  | nil => rfl
  | cons c calls ih => simp only [List.cons_append, answers, ih, List.append_assoc, List.foldl_cons]

end Slot

theorem answer?_eq_slot (r : Robot) (c : Call) : r.answer? c = (r.slot c.dataset).answer? c := by
  cases c with
  | predict dataset signal => rfl
  | resolve dataset change threshold =>
    simp only [answer?, Slot.answer?, Call.dataset, slot, resolve]
    cases r.current.find? dataset with
    | none => rfl
    | some signal => rfl

/-- a call changes the slot of its dataset -/
theorem slot_call (r : Robot) (c : Call) : (r.call c).slot c.dataset = (r.slot c.dataset).call c := by
  cases c with
  | predict dataset signal =>
    simp only [call, Call.dataset, Slot.call, slot, current_predict]
    simp only [predict, NameTable.find?_insert, if_true]
  | resolve dataset change threshold =>
    simp only [call, Call.dataset, Slot.call, slot, pending_resolve]
    unfold resolve
    cases h : r.current.find? dataset with
    | none => simp only [h]
    | some signal => simp only [NameTable.find?_erase, if_true]

/-- and leaves all others alone -/
theorem slot_call_of_ne (r : Robot) {c : Call} {dataset : String} (h : c.dataset ≠ dataset) :
    (r.call c).slot dataset = r.slot dataset := by
  have hne : dataset ≠ c.dataset := Ne.symm h
  cases c with
  | predict other signal =>
    simp only [Call.dataset] at hne
    simp only [call, slot, predict, NameTable.find?_insert, if_neg hne]
    cases r.pending.find? other with
    | none => simp only [NameTable.find?_erase, if_neg hne]
    | some previous => simp only [NameTable.find?_insert, if_neg hne]
  | resolve other change threshold =>
    simp only [Call.dataset] at hne
    simp only [call, slot, pending_resolve]
    unfold resolve
    cases r.current.find? other with
    | none => rfl
    | some signal => simp only [NameTable.find?_erase, if_neg hne]

/-- **A robot's answers on a dataset are those of its slot to the calls on that dataset.** -/
theorem answers_on (dataset : String) (calls : List Call) (r : Robot) :
    answersOn dataset (r.answers calls) = (r.slot dataset).answers (calls.filter fun c => c.dataset = dataset) := by
  induction calls generalizing r with
  | nil => rfl
  | cons c rest ih =>
    have hrest : answersOn dataset ((r.call c).answers rest) = ((r.call c).slot dataset).answers _ := ih (r.call c)
    simp only [answersOn] at hrest
    simp only [answers, answersOn, List.filter_append, List.map_append, hrest]
    by_cases h : c.dataset = dataset
    · subst h
      rw [List.filter_cons_of_pos (by simp), Slot.answers, slot_call, ← answer?_eq_slot]
      cases r.answer? c with
      | none => rfl
      | some answer => simp
    · rw [List.filter_cons_of_neg (by simpa using h), slot_call_of_ne r h]
      cases r.answer? c with
      | none => rfl
      | some answer => simp [h]

/-! ## What a robot counts -/

theorem counts_call (r : Robot) (c : Call) :
    r.Counts (((r.answer? c).toList.map fun answer => (c.dataset, answer)).filterMap Prod.snd) (r.call c) := by
  cases c with
  | predict dataset signal => exact ⟨rfl, rfl, rfl⟩
  | resolve dataset change threshold =>
    have hcounts := counts_resolve r dataset change threshold
    have hanswer : (r.resolve dataset change threshold).1 =
        (r.current.find? dataset).map fun signal => Outcome.resolve signal change threshold :=
      Option.some.inj (answer?_eq_slot r (.resolve dataset change threshold))
    simp only [answer?, hanswer, Option.toList_some, List.map_singleton]
    cases h : r.current.find? dataset with
    | none =>
      rw [h] at hcounts
      exact hcounts
    | some signal =>
      rw [h] at hcounts
      exact hcounts

/-- calls count the outcomes they answer, and nothing else -/
theorem counts_after (r : Robot) (calls : List Call) :
    r.Counts ((r.answers calls).filterMap Prod.snd) (r.after calls) := by
  induction calls generalizing r with
  | nil => exact .none r
  | cons c rest ih =>
    rw [answers, List.filterMap_append]
    exact (counts_call r c).trans (ih (r.call c))

end Robot

/-! ## What a ledger answers -/

namespace Ledger

/-- the answer to a row's change, if it is known: the outcome of the vote held before -/
def answer? (threshold : Float) (l : Ledger) (e : Entry) : Option (Option Outcome) :=
  e.change.map fun change => (l.resolve e.bar change threshold).1

/-- the answers to rows, one after the other -/
def answers (threshold : Float) : Ledger → List Entry → List (Option Outcome)
  | _, [] => []
  | l, e :: rest => (l.answer? threshold e).toList ++ answers threshold (l.enter threshold e) rest

/-- what some outcomes add to a ledger -/
structure Tallied (before : Ledger) (scored : List Outcome) (after : Ledger) : Prop where
  records : after.records.length = before.records.length + scored.length
  correct : after.correct = before.correct + scored.count .correct
  wrong : after.wrong = before.wrong + scored.count .wrong

theorem Tallied.none (l : Ledger) : l.Tallied [] l :=
  ⟨rfl, rfl, rfl⟩

theorem Tallied.trans {a b c : Ledger} {xs ys : List Outcome} (h : a.Tallied xs b) (h' : b.Tallied ys c) :
    a.Tallied (xs ++ ys) c where
  records := by rw [h'.records, h.records, List.length_append, Nat.add_assoc]
  correct := by rw [h'.correct, h.correct, List.count_append, Nat.add_assoc]
  wrong := by rw [h'.wrong, h.wrong, List.count_append, Nat.add_assoc]

theorem fst_resolve (l : Ledger) (bar : Nat) (change threshold : Float) :
    (l.resolve bar change threshold).1 = l.held.map fun signal => Outcome.resolve signal change threshold := by
  unfold resolve
  cases l.held with
  | none => rfl
  | some signal => rfl

theorem tallied_enter (threshold : Float) (l : Ledger) (e : Entry) :
    l.Tallied ((l.answer? threshold e).toList.filterMap id) (l.enter threshold e) := by
  unfold answer? enter
  cases e.change with
  | none => exact ⟨rfl, rfl, rfl⟩
  | some change =>
    simp only [Option.map_some, Option.toList_some, fst_resolve]
    cases h : l.held with
    | none =>
      simp only [resolve, h]
      exact ⟨rfl, rfl, rfl⟩
    | some signal =>
      simp only [resolve, h, hold, Option.map_some]
      cases Outcome.resolve signal change threshold with
      | correct => exact ⟨List.length_append, rfl, rfl⟩
      | wrong => exact ⟨List.length_append, rfl, rfl⟩
      | out => exact ⟨List.length_append, rfl, rfl⟩

/-- rows tally the outcomes they answer, and nothing else -/
theorem tallied_foldl_enter (threshold : Float) (entries : List Entry) (l : Ledger) :
    l.Tallied ((l.answers threshold entries).filterMap id) (entries.foldl (enter threshold) l) := by
  induction entries generalizing l with
  | nil => exact .none l
  | cons e rest ih =>
    rw [answers, List.filterMap_append]
    exact (tallied_enter threshold l e).trans (ih (l.enter threshold e))

end Ledger

/-! ## Both together -/

/-- the calls by which a robot is told a row of a dataset: the signal, then the change, if it is known -/
def Entry.calls (dataset : String) (threshold : Float) (e : Entry) : List Robot.Call :=
  .predict dataset e.signal :: e.change.toList.map fun change => .resolve dataset change threshold

namespace Robot

/-- a row leaves its signal pending in a slot, as it leaves its vote held in a ledger -/
theorem Slot.pending_row (t : Slot) (dataset : String) (threshold : Float) (e : Entry) :
    ((e.calls dataset threshold).foldl Slot.call t).pending = some e.signal := by
  unfold Entry.calls
  cases e.change with
  | none => rfl
  | some change => rfl

/-- a row is answered alike by a slot and a ledger that hold the same signal -/
theorem Slot.answers_row {t : Slot} {l : Ledger} (h : t.pending = l.held) (dataset : String) (threshold : Float)
    (e : Entry) : t.answers (e.calls dataset threshold) = (l.answer? threshold e).toList := by
  unfold Entry.calls Ledger.answer?
  cases e.change with
  | none => rfl
  | some change =>
    simp only [Option.map_some, Option.toList_some, List.map_singleton, Slot.answers, Slot.answer?, Slot.call,
      Option.toList_none, List.nil_append, List.append_nil, Ledger.fst_resolve, h]

/-- **A slot and a ledger that hold the same signal answer the same rows alike.** -/
theorem Slot.answers_rows (dataset : String) (threshold : Float) (entries : List Entry) {t : Slot} {l : Ledger}
    (h : t.pending = l.held) :
    t.answers (entries.flatMap (Entry.calls dataset threshold)) = l.answers threshold entries := by
  induction entries generalizing t l with
  | nil => rfl
  | cons e rest ih =>
    rw [List.flatMap_cons, Slot.answers_append, Slot.answers_row h, Ledger.answers]
    have hnext : ((e.calls dataset threshold).foldl Slot.call t).pending = (l.enter threshold e).held :=
      Slot.pending_row t dataset threshold e
    rw [ih hnext]

/-- an answer stands under the dataset of its call -/
theorem exists_call_of_mem_answers {calls : List Call} {r : Robot} {a : String × Option Outcome}
    (h : a ∈ r.answers calls) : ∃ c ∈ calls, a.1 = c.dataset := by
  induction calls generalizing r with
  | nil => cases h
  | cons c rest ih =>
    rcases List.mem_append.1 h with h | h
    · obtain ⟨answer, -, rfl⟩ := List.mem_map.1 h
      exact ⟨c, List.mem_cons_self, rfl⟩
    · obtain ⟨c', hc', ha⟩ := ih h
      exact ⟨c', List.mem_cons_of_mem c hc', ha⟩

/-- the answers are those on a dataset and those elsewhere -/
theorem outcomes_split (dataset : String) (answers : List (String × Option Outcome)) :
    (answers.filterMap Prod.snd).Perm
      ((answersOn dataset answers).filterMap id ++ outcomesElsewhere dataset answers) := by
  have hsplit := (List.filter_append_perm (fun a => decide (a.1 = dataset)) answers).symm.filterMap Prod.snd
  rw [List.filterMap_append] at hsplit
  simpa only [answersOn, outcomesElsewhere, List.filterMap_map, Function.id_comp, decide_not] using hsplit

/-- of the outcomes that are directional, those not correct are wrong -/
theorem countP_directional (scored : List Outcome) :
    scored.countP (fun o => o ≠ .out) = scored.count .correct + scored.count .wrong := by
  induction scored with
  | nil => rfl
  | cons o rest ih =>
    rw [List.countP_cons, List.count_cons, List.count_cons, ih]
    cases o with
    | correct => simp; omega
    | wrong => simp; omega
    | out => simp

/-- a new robot's counters are those of the outcomes it answered -/
theorem counters_of_new (name : RobotName) (program : Program) (inherited : Float) (calls : List Call) :
    let r := Robot.new name program inherited
    let scored := (r.answers calls).filterMap Prod.snd
    (r.after calls).correct = scored.count .correct ∧ (r.after calls).wrong = scored.count .wrong ∧
      (r.after calls).outcomes = scored.length := by
  intro r scored
  obtain ⟨houtcomes, hpredictions, hcorrect⟩ := counts_after r calls
  have hcorrect : (r.after calls).correct = scored.count .correct := by
    rw [hcorrect, show r.correct = 0 from rfl, Nat.zero_add]
    rfl
  rw [show r.predictions = 0 from rfl, Nat.zero_add, countP_directional] at hpredictions
  rw [show r.outcomes = 0 from rfl, Nat.zero_add] at houtcomes
  refine ⟨hcorrect, ?_, houtcomes⟩
  rw [wrong, hpredictions, hcorrect, Nat.add_sub_cancel_left]

/-- the calls for rows of a dataset are calls on that dataset -/
theorem dataset_of_mem_rows {dataset : String} {threshold : Float} {entries : List Entry} {c : Call}
    (h : c ∈ entries.flatMap (Entry.calls dataset threshold)) : c.dataset = dataset := by
  obtain ⟨e, -, h⟩ := List.mem_flatMap.1 h
  rcases List.mem_cons.1 h with rfl | h
  · rfl
  · obtain ⟨change, -, rfl⟩ := List.mem_map.1 h
    rfl

/-- **Robots and ledgers score alike.** Let a new robot be told the rows of a dataset, the signal and then the change
where it is known, and let an empty ledger enter the same rows. Whatever the robot is told on other datasets in between,
its answers on the dataset are the ledger's; so its correct and wrong predictions and its outcomes are those of the
ledger, with those answered elsewhere on top, and without calls elsewhere they are the same. -/
theorem scores_like_ledger (name : RobotName) (program : Program) (inherited : Float) (dataset : String)
    (threshold : Float) (entries : List Entry) :
    let r := Robot.new name program inherited
    let l := entries.foldl (Ledger.enter threshold) .empty
    let alone := entries.flatMap (Entry.calls dataset threshold)
    (∀ calls : List Call, (calls.filter fun c => c.dataset = dataset) = alone →
      let elsewhere := outcomesElsewhere dataset (r.answers calls)
      answersOn dataset (r.answers calls) = Ledger.empty.answers threshold entries ∧
      (r.after calls).correct = l.correct + elsewhere.count .correct ∧
      (r.after calls).wrong = l.wrong + elsewhere.count .wrong ∧
      (r.after calls).outcomes = l.records.length + elsewhere.length) ∧
    (r.answers alone).map Prod.snd = Ledger.empty.answers threshold entries ∧
      (r.after alone).correct = l.correct ∧ (r.after alone).wrong = l.wrong ∧
      (r.after alone).outcomes = l.records.length := by
  intro r l alone
  have hmixed : ∀ calls : List Call, (calls.filter fun c => c.dataset = dataset) = alone →
      let elsewhere := outcomesElsewhere dataset (r.answers calls)
      answersOn dataset (r.answers calls) = Ledger.empty.answers threshold entries ∧
      (r.after calls).correct = l.correct + elsewhere.count .correct ∧
      (r.after calls).wrong = l.wrong + elsewhere.count .wrong ∧
      (r.after calls).outcomes = l.records.length + elsewhere.length := by
    intro calls hcalls elsewhere
    have hanswers : answersOn dataset (r.answers calls) = Ledger.empty.answers threshold entries := by
      rw [answers_on, hcalls]
      exact Slot.answers_rows dataset threshold entries rfl
    have hsplit := outcomes_split dataset (r.answers calls)
    rw [hanswers] at hsplit
    obtain ⟨hcorrect, hwrong, houtcomes⟩ := counters_of_new name program inherited calls
    obtain ⟨hrecords, hright, hfalse⟩ := Ledger.tallied_foldl_enter threshold entries .empty
    refine ⟨hanswers, ?_, ?_, ?_⟩
    · rw [hcorrect, hsplit.count_eq, List.count_append, hright, Ledger.empty, Nat.zero_add]
    · rw [hwrong, hsplit.count_eq, List.count_append, hfalse, Ledger.empty, Nat.zero_add]
    · rw [houtcomes, hsplit.length_eq, List.length_append, hrecords, Ledger.empty, List.length_nil, Nat.zero_add]
  refine ⟨hmixed, ?_⟩
  have hown : ∀ a ∈ r.answers alone, a.1 = dataset := by
    intro a ha
    obtain ⟨c, hc, h⟩ := exists_call_of_mem_answers ha
    rw [h, dataset_of_mem_rows hc]
  have halone := hmixed alone (List.filter_eq_self.2 fun c hc => by simp [dataset_of_mem_rows hc])
  have hnone : outcomesElsewhere dataset (r.answers alone) = [] := by
    rw [outcomesElsewhere, List.filter_eq_nil_iff.2 fun a ha => by simp [hown a ha], List.filterMap_nil]
  have hall : answersOn dataset (r.answers alone) = (r.answers alone).map Prod.snd := by
    rw [answersOn, List.filter_eq_self.2 fun a ha => by simp [hown a ha]]
  simpa only [hnone, hall, List.count_nil, List.length_nil, Nat.add_zero] using halone

/-- four rows of one dataset, told in between the calls for another: the first change has nothing to score, the third
row has none and drops a signal -/
theorem scores_like_ledger_gold :
    let entries : List Entry :=
      [⟨0, some 2.0, .long⟩, ⟨1, some 5.0, .short⟩, ⟨3, none, .long⟩, ⟨4, some (-1.0), .out⟩]
    let calls : List Call := [.predict "oil" .short, .predict "gold" .long, .resolve "oil" 1.0 0.5,
      .resolve "gold" 2.0 0.5, .predict "gold" .short, .predict "oil" .long, .resolve "oil" (-3.0) 0.5,
      .resolve "gold" 5.0 0.5, .predict "gold" .long, .predict "gold" .out, .resolve "gold" (-1.0) 0.5]
    let r := Robot.new ⟨7⟩ ⟨[.emit .long], 1⟩ 0.0
    (calls.filter fun c => c.dataset = "gold") = entries.flatMap (Entry.calls "gold" 0.5) ∧
      answersOn "gold" (r.answers calls) = [none, some .correct, some .wrong] ∧
      (r.after calls).correct = 1 + 1 := by
  intro entries calls r
  have hrows : (calls.filter fun c => c.dataset = "gold") = entries.flatMap (Entry.calls "gold" 0.5) := rfl
  obtain ⟨hanswers, hcorrect, -, -⟩ :=
    (scores_like_ledger ⟨7⟩ ⟨[.emit .long], 1⟩ 0.0 "gold" 0.5 entries).1 calls hrows
  refine ⟨hrows, hanswers.trans (by decide +kernel), hcorrect.trans ?_⟩
  have hledger : (entries.foldl (Ledger.enter 0.5) .empty).correct = 1 := by decide +kernel
  have helsewhere : (outcomesElsewhere "gold" (r.answers calls)).count .correct = 1 := by decide +kernel
  rw [hledger, helsewhere]

/-- a robot counts over all datasets: told one row of gold, which has nothing to score, it counts what it answers on oil,
and the ledger of gold has no record -/
theorem counters_over_datasets :
    let entries : List Entry := [⟨0, some 2.0, .long⟩]
    let calls : List Call := [.predict "gold" .long, .resolve "gold" 2.0 0.5, .predict "oil" .long,
      .predict "oil" .short, .resolve "oil" 1.0 0.5]
    let r := Robot.new ⟨7⟩ ⟨[.emit .long], 1⟩ 0.0
    let l := entries.foldl (Ledger.enter 0.5) .empty
    (calls.filter fun c => c.dataset = "gold") = entries.flatMap (Entry.calls "gold" 0.5) ∧
      (r.after calls).correct ≠ l.correct ∧ (r.after calls).outcomes ≠ l.records.length := by
  intro entries calls r l
  have hrobot : (r.after calls).correct = 1 ∧ (r.after calls).outcomes = 1 := by decide +kernel
  have hledger : l.correct = 0 ∧ l.records.length = 0 := by decide +kernel
  rw [hrobot.1, hrobot.2, hledger.1, hledger.2]
  exact ⟨rfl, Nat.one_ne_zero, Nat.one_ne_zero⟩

end Robot

end TradingRobots
