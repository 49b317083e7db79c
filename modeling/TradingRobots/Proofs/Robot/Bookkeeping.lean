/-
The books of a robot, whatever is done to it.

Signals are recorded, changes are resolved and children are born, in any order and on any datasets. What a robot holds for
a dataset can be read off the events before: the pending signal is the latest one recorded there, and the current one is
the one before that, unless a change was resolved there since. So a change scores the last signal but one of its dataset,
and no change after it scores that signal again.

The counters count what happened: the calls and the bias count signals, the outcomes count the changes that scored one.

`held_run`: the signals that a robot holds for a dataset, read off the events.
`scored?_inj`: no two changes score one signal.
`fewer_run`: a dataset has fewer outcomes than signals.
`booked_run`: what the counters count, and what every change scores, after any events.
-/
import TradingRobots.Proofs.Ledger.Agreement

namespace TradingRobots.Robot

/-! ## Events -/

/-- what is done to a robot: a call on a dataset, or the birth of a child -/
inductive Event where
  | call (c : Call)
  | bear

namespace Event

/-- the signal that is recorded -/
def signal? : Event → Option Signal
  | .call (.predict _ signal) => some signal
  | _ => none

/-- the signal that is recorded on a dataset -/
def signalOn? (dataset : String) : Event → Option Signal
  | .call (.predict name signal) => if name = dataset then some signal else none
  | _ => none

/-- a change is resolved on a dataset -/
def ResolvesOn (dataset : String) : Event → Prop
  | .call (.resolve name _ _) => name = dataset
  | _ => False

/-- the call on a dataset -/
def callOn? (dataset : String) : Event → Option Call
  | .call c => if c.dataset = dataset then some c else none
  | .bear => none

end Event

/-- the signals recorded, on all datasets -/
def signals (events : List Event) : List Signal :=
  events.filterMap Event.signal?

/-- the signals recorded on a dataset -/
def signalsOn (dataset : String) (events : List Event) : List Signal :=
  events.filterMap (Event.signalOn? dataset)

/-- the calls on a dataset -/
def callsOn (dataset : String) (events : List Event) : List Call :=
  events.filterMap (Event.callOn? dataset)

/-- the events since the latest signal on a dataset, the last one first -/
def sinceSignal (dataset : String) (events : List Event) : List Event :=
  events.reverse.takeWhile fun e => (e.signalOn? dataset).isNone

/-- no change was resolved on a dataset since the latest signal there -/
def Unresolved (dataset : String) (events : List Event) : Prop :=
  ∀ e ∈ sinceSignal dataset events, ¬e.ResolvesOn dataset

def step (r : Robot) : Event → Robot
  | .call c => r.call c
  | .bear => r.bear

/-- a robot after events, one after the other -/
def run (r : Robot) (events : List Event) : Robot :=
  events.foldl step r

/-- the outcome that an event returns, with its dataset -/
def outcome? (r : Robot) : Event → Option (String × Outcome)
  | .call (.resolve dataset change threshold) => (r.resolve dataset change threshold).1.map fun o => (dataset, o)
  | _ => none

/-- the outcomes that events return -/
def outcomesOf (r : Robot) : List Event → List (String × Outcome)
  | [] => []
  | e :: rest => (r.outcome? e).toList ++ outcomesOf (r.step e) rest

/-- the outcomes that events return on a dataset -/
def outcomesOn (dataset : String) (r : Robot) (events : List Event) : List (String × Outcome) :=
  (r.outcomesOf events).filter fun o => o.1 = dataset

/-- the signal that an event scores: its dataset, and its place among the signals recorded there -/
def scored? (r : Robot) (events : List Event) (i : Nat) : Option (String × Nat) := do
  let e ← events[i]?
  let (dataset, _) ← (r.run (events.take i)).outcome? e
  some (dataset, (signalsOn dataset (events.take i)).length - 2)

variable {r : Robot} {events rest : List Event} {e : Event} {d : String}

/-! ## One more event -/

theorem run_concat (r : Robot) (events : List Event) (e : Event) : r.run (events ++ [e]) = (r.run events).step e :=
  List.foldl_concat _ _ _ _

theorem outcomesOf_append (r : Robot) (events rest : List Event) :
    r.outcomesOf (events ++ rest) = r.outcomesOf events ++ (r.run events).outcomesOf rest := by
  induction events generalizing r with
  | nil => rfl
  | cons e events ih =>
    have htail := ih (r.step e)
    rw [List.cons_append, outcomesOf, outcomesOf, htail, List.append_assoc]
    rfl

theorem outcomesOf_concat (r : Robot) (events : List Event) (e : Event) :
    r.outcomesOf (events ++ [e]) = r.outcomesOf events ++ ((r.run events).outcome? e).toList := by
  rw [outcomesOf_append, outcomesOf, outcomesOf, List.append_nil]

theorem signalsOn_append (d : String) (events rest : List Event) :
    signalsOn d (events ++ rest) = signalsOn d events ++ signalsOn d rest :=
  List.filterMap_append

theorem signalsOn_concat_some {signal : Signal} (h : e.signalOn? d = some signal) :
    signalsOn d (events ++ [e]) = signalsOn d events ++ [signal] := by
  rw [signalsOn_append, signalsOn, signalsOn, List.filterMap_cons_some h, List.filterMap_nil]

theorem signalsOn_concat_none (h : e.signalOn? d = none) : signalsOn d (events ++ [e]) = signalsOn d events := by
  rw [signalsOn_append, signalsOn, signalsOn, List.filterMap_cons_none h, List.filterMap_nil, List.append_nil]

/-- a new signal is unresolved; any other event leaves unresolved what was, unless it resolves a change -/
theorem unresolved_concat : Unresolved d (events ++ [e]) ↔
    (e.signalOn? d).isSome = true ∨ ¬e.ResolvesOn d ∧ Unresolved d events := by
  unfold Unresolved sinceSignal
  rw [List.reverse_concat, List.takeWhile_cons]
  cases h : e.signalOn? d with
  | some signal => simp
  | none => simp

theorem outcome?_eq_some {o : Outcome} : r.outcome? e = some (d, o) ↔
    ∃ change threshold, e = .call (.resolve d change threshold) ∧ (r.resolve d change threshold).1 = some o := by
  constructor
  · intro h
    match e, h with
    | .call (.resolve dataset change threshold), h =>
      obtain ⟨outcome, houtcome, heq⟩ := Option.map_eq_some_iff.1 h
      cases heq
      exact ⟨change, threshold, rfl, houtcome⟩
  · rintro ⟨change, threshold, rfl, h⟩
    simp [outcome?, h]

/-! ## What is held for a dataset -/

/-- what a robot holds for a dataset after events: the latest signal there, and the one before unless it was scored -/
structure Held (t : Slot) (d : String) (events : List Event) : Prop where
  pending : t.pending = (signalsOn d events).getLast?
  current : Unresolved d events → t.current = (signalsOn d events).dropLast.getLast?
  spent : ¬Unresolved d events → t.current = none

/-- events elsewhere change nothing -/
theorem Held.elsewhere {t : Slot} (h : Held t d events) (hsignal : e.signalOn? d = none) (hresolve : ¬e.ResolvesOn d) :
    Held t d (events ++ [e]) := by
  have hsame : Unresolved d (events ++ [e]) ↔ Unresolved d events := by
    rw [unresolved_concat, hsignal]
    simp [hresolve]
  refine ⟨?_, ?_, ?_⟩
  · rw [signalsOn_concat_none hsignal]
    exact h.pending
  · rw [signalsOn_concat_none hsignal, hsame]
    exact h.current
  · rw [hsame]
    exact h.spent

/-- one more event -/
theorem Held.step (h : Held (r.slot d) d events) (e : Event) : Held ((r.step e).slot d) d (events ++ [e]) := by
  cases e with
  | bear => exact Held.elsewhere h rfl id
  | call c =>
    by_cases hdataset : c.dataset = d
    · have hslot : (r.step (.call c)).slot d = (r.slot d).call c := by
        subst hdataset
        exact slot_call r c
      rw [hslot]
      cases c with
      | predict dataset signal =>
        have hsignal : (Event.call (.predict dataset signal)).signalOn? d = some signal := if_pos hdataset
        have hopen : Unresolved d (events ++ [.call (.predict dataset signal)]) := by
          rw [unresolved_concat, hsignal]
          exact .inl rfl
        refine ⟨?_, fun _ => ?_, absurd hopen⟩
        · rw [signalsOn_concat_some hsignal, List.getLast?_concat]
          rfl
        · rw [signalsOn_concat_some hsignal, List.dropLast_concat]
          exact h.pending
      | resolve dataset change threshold =>
        have hresolve : (Event.call (.resolve dataset change threshold)).ResolvesOn d := hdataset
        refine ⟨?_, fun hopen => ?_, fun _ => rfl⟩
        · rw [signalsOn_concat_none rfl]
          exact h.pending
        · rcases unresolved_concat.1 hopen with hsome | ⟨hnot, -⟩
          · cases hsome
          · exact absurd hresolve hnot
    · have hslot : (r.step (.call c)).slot d = r.slot d := slot_call_of_ne r hdataset
      rw [hslot]
      cases c with
      | predict dataset signal => exact h.elsewhere (if_neg hdataset) id
      | resolve dataset change threshold => exact h.elsewhere rfl hdataset

variable (name : RobotName) (program : Program) (inherited : Float)

/-- **What a robot holds for a dataset, read off the events.** -/
theorem held_run (d : String) (events : List Event) : Held (((new name program inherited).run events).slot d) d events := by
  induction events using List.reverseRecOn with
  | nil => exact ⟨rfl, fun _ => rfl, fun _ => rfl⟩
  | append_singleton events e ih =>
    rw [run_concat]
    exact ih.step e

/-- the answer to a change is the outcome of the current signal -/
theorem resolve_eq_slot (r : Robot) (d : String) (change threshold : Float) :
    (r.resolve d change threshold).1 = (r.slot d).current.map fun signal => Outcome.resolve signal change threshold :=
  Option.some.inj (answer?_eq_slot r (.resolve d change threshold))

variable {name program inherited}

/-- **A change is answered** when its dataset has two signals at least, and no change was resolved there since the
latest. -/
theorem answered_iff (change threshold : Float) :
    (((new name program inherited).run events).resolve d change threshold).1.isSome = true ↔
      2 ≤ (signalsOn d events).length ∧ Unresolved d events := by
  have hheld := held_run name program inherited d events
  rw [resolve_eq_slot, Option.isSome_map]
  by_cases hopen : Unresolved d events
  · rw [hheld.current hopen, List.getLast?_isSome, ← List.length_pos_iff, List.length_dropLast]
    constructor
    · intro hsome
      exact ⟨by omega, hopen⟩
    · rintro ⟨htwo, -⟩
      omega
  · rw [hheld.spent hopen]
    exact ⟨fun h => absurd h Bool.false_ne_true, fun h => absurd h.2 hopen⟩

/-- **It is the outcome of the last signal but one.** -/
theorem answer_eq (change threshold : Float) {o : Outcome}
    (h : (((new name program inherited).run events).resolve d change threshold).1 = some o) :
    ∃ signal, (signalsOn d events).dropLast.getLast? = some signal ∧ o = Outcome.resolve signal change threshold := by
  have hheld := held_run name program inherited d events
  have hopen := (answered_iff change threshold).1 (Option.isSome_of_eq_some h)
  rw [resolve_eq_slot, hheld.current hopen.2] at h
  obtain ⟨signal, hsignal, rfl⟩ := Option.map_eq_some_iff.1 h
  exact ⟨signal, hsignal, rfl⟩

/-! ## Every signal is scored once -/

/-- after a change a dataset is unresolved again only with a new signal -/
theorem signalsOn_ne_nil (hresolve : e.ResolvesOn d) (h : Unresolved d (events ++ e :: rest)) : signalsOn d rest ≠ [] := by
  induction rest using List.reverseRecOn with
  | nil =>
    rcases unresolved_concat.1 h with hsome | ⟨hnot, -⟩
    · match e, hresolve with
      | .call (.resolve _ _ _), _ => cases hsome
    · exact absurd hresolve hnot
  | append_singleton rest last ih =>
    rw [← List.cons_append, ← List.append_assoc, unresolved_concat] at h
    rw [signalsOn_append]
    rcases h with hsome | ⟨-, hbefore⟩
    · obtain ⟨signal, hsignal⟩ := Option.isSome_iff_exists.1 hsome
      simp [signalsOn, hsignal]
    · simp [ih hbefore]

/-- an event that scores a signal -/
theorem scored?_eq_some {i k : Nat} (h : (new name program inherited).scored? events i = some (d, k)) :
    ∃ e, events[i]? = some e ∧ e.signalOn? d = none ∧ e.ResolvesOn d ∧ 2 ≤ (signalsOn d (events.take i)).length ∧
      Unresolved d (events.take i) ∧ k = (signalsOn d (events.take i)).length - 2 := by
  obtain ⟨e, he, h⟩ := Option.bind_eq_some_iff.1 h
  obtain ⟨⟨dataset, o⟩, houtcome, h⟩ := Option.bind_eq_some_iff.1 h
  cases h
  obtain ⟨change, threshold, rfl, hanswer⟩ := outcome?_eq_some.1 houtcome
  obtain ⟨htwo, hopen⟩ := (answered_iff change threshold).1 (Option.isSome_of_eq_some hanswer)
  have hresolve : (Event.call (.resolve d change threshold)).ResolvesOn d := rfl
  exact ⟨_, he, rfl, hresolve, htwo, hopen, rfl⟩

/-- a later change scores a later signal -/
theorem scored?_lt {i j k l : Nat} (hlt : i < j) (hi : (new name program inherited).scored? events i = some (d, k))
    (hj : (new name program inherited).scored? events j = some (d, l)) : k < l := by
  obtain ⟨e, he, hsignal, hresolve, htwo, -, rfl⟩ := scored?_eq_some hi
  obtain ⟨-, -, -, -, -, hopen, rfl⟩ := scored?_eq_some hj
  obtain ⟨m, rfl⟩ : ∃ m, j = i + (m + 1) := ⟨j - i - 1, by omega⟩
  obtain ⟨hbound, rfl⟩ := List.getElem?_eq_some_iff.1 he
  have hbetween : events.take (i + (m + 1)) = events.take i ++ events[i] :: (events.drop (i + 1)).take m := by
    rw [List.take_add, List.drop_eq_getElem_cons hbound, List.take_succ_cons]
  rw [hbetween] at hopen ⊢
  have hsome := List.length_pos_iff.2 (signalsOn_ne_nil hresolve hopen)
  have hsignals : signalsOn d (events[i] :: (events.drop (i + 1)).take m) = signalsOn d ((events.drop (i + 1)).take m) :=
    List.filterMap_cons_none hsignal
  rw [signalsOn_append, hsignals, List.length_append]
  omega

/-- **No two changes score one signal.** -/
theorem scored?_inj {i j : Nat} {signal : String × Nat} (hi : (new name program inherited).scored? events i = some signal)
    (hj : (new name program inherited).scored? events j = some signal) : i = j := by
  rcases lt_trichotomy i j with hlt | heq | hgt
  · exact absurd (scored?_lt hlt hi hj) (lt_irrefl _)
  · exact heq
  · exact absurd (scored?_lt hgt hj hi) (lt_irrefl _)

/-! ## Fewer outcomes than signals -/

theorem outcomesOn_concat (d : String) (r : Robot) (events : List Event) (e : Event) :
    outcomesOn d r (events ++ [e]) =
      outcomesOn d r events ++ ((r.run events).outcome? e).toList.filter fun o => o.1 = d := by
  rw [outcomesOn, outcomesOf_concat, List.filter_append]
  rfl

/-- so many outcomes are fewer than the signals on a dataset, by two while the last signal but one waits for a change -/
structure Fewer (d : String) (events : List Event) (n : Nat) : Prop where
  all : n ≤ (signalsOn d events).length - 1
  waiting : Unresolved d events → 2 ≤ (signalsOn d events).length → n + 1 ≤ (signalsOn d events).length - 1

/-- a signal makes room for one more outcome -/
theorem Fewer.signal {n : Nat} {signal : Signal} (h : Fewer d events n) (hsignal : e.signalOn? d = some signal) :
    Fewer d (events ++ [e]) n := by
  have hall := h.all
  constructor
  · rw [signalsOn_concat_some hsignal, List.length_append, List.length_singleton]
    omega
  · intro _ htwo
    rw [signalsOn_concat_some hsignal, List.length_append, List.length_singleton] at htwo ⊢
    omega

/-- an event without a signal leaves the room there is -/
theorem Fewer.quiet {n : Nat} (h : Fewer d events n) (hsignal : e.signalOn? d = none) : Fewer d (events ++ [e]) n := by
  constructor
  · rw [signalsOn_concat_none hsignal]
    exact h.all
  · intro hopen
    rw [signalsOn_concat_none hsignal]
    rcases unresolved_concat.1 hopen with hsome | ⟨-, hbefore⟩
    · rw [hsignal] at hsome
      cases hsome
    · exact h.waiting hbefore

/-- an outcome takes it -/
theorem Fewer.outcome {n : Nat} (h : Fewer d events n) (hsignal : e.signalOn? d = none) (hresolve : e.ResolvesOn d)
    (hopen : Unresolved d events) (htwo : 2 ≤ (signalsOn d events).length) : Fewer d (events ++ [e]) (n + 1) := by
  constructor
  · rw [signalsOn_concat_none hsignal]
    exact h.waiting hopen htwo
  · intro hstill
    rcases unresolved_concat.1 hstill with hsome | ⟨hnot, -⟩
    · rw [hsignal] at hsome
      cases hsome
    · exact absurd hresolve hnot

/-- **A dataset has fewer outcomes than signals.** -/
theorem fewer_run (name : RobotName) (program : Program) (inherited : Float) (d : String) (events : List Event) :
    Fewer d events (outcomesOn d (new name program inherited) events).length := by
  induction events using List.reverseRecOn with
  | nil => exact ⟨le_rfl, fun _ htwo => absurd htwo (Nat.not_succ_le_zero 1)⟩
  | append_singleton events e ih =>
    rw [outcomesOn_concat, List.length_append]
    cases houtcome : ((new name program inherited).run events).outcome? e with
    | none =>
      cases hsignal : e.signalOn? d with
      | some signal => exact ih.signal hsignal
      | none => exact ih.quiet hsignal
    | some answer =>
      obtain ⟨dataset, o⟩ := answer
      obtain ⟨change, threshold, rfl, hanswer⟩ := outcome?_eq_some.1 houtcome
      by_cases hdataset : dataset = d
      · subst hdataset
        have hresolve : (Event.call (.resolve dataset change threshold)).ResolvesOn dataset := rfl
        obtain ⟨htwo, hopen⟩ := (answered_iff change threshold).1 (Option.isSome_of_eq_some hanswer)
        simp only [Option.toList_some, List.filter_cons, decide_true, if_true, List.filter_nil, List.length_singleton]
        exact ih.outcome rfl hresolve hopen htwo
      · have hother : ([(dataset, o)].filter fun o => o.1 = d) = [] := by simp [hdataset]
        rw [Option.toList_some, hother]
        exact ih.quiet rfl

/-! ## What is counted -/

/-- what signals add to a robot's counters -/
structure Noted (before : Robot) (signals : List Signal) (after : Robot) : Prop where
  calls : after.calls = before.calls + signals.length
  bias : after.bias = before.bias + (signals.map Signal.polarity).sum
  isPredicting : after.isPredicting = (before.isPredicting || signals.any Signal.isDirectional)

theorem Noted.none {before after : Robot} (hcalls : after.calls = before.calls) (hbias : after.bias = before.bias)
    (hpredicting : after.isPredicting = before.isPredicting) : before.Noted [] after where
  calls := hcalls
  bias := by rw [hbias, List.map_nil, List.sum_nil, Int.add_zero]
  isPredicting := by rw [hpredicting, List.any_nil, Bool.or_false]

theorem Noted.trans {a b c : Robot} {xs ys : List Signal} (h : a.Noted xs b) (h' : b.Noted ys c) :
    a.Noted (xs ++ ys) c where
  calls := by rw [h'.calls, h.calls, List.length_append, Nat.add_assoc]
  bias := by rw [h'.bias, h.bias, List.map_append, List.sum_append, Int.add_assoc]
  isPredicting := by rw [h'.isPredicting, h.isPredicting, List.any_append, Bool.or_assoc]

/-- an event notes the signal that it records -/
theorem noted_step (r : Robot) (e : Event) : r.Noted e.signal?.toList (r.step e) := by
  match e with
  | .call (.predict dataset signal) =>
    refine ⟨rfl, ?_, ?_⟩
    · exact congrArg (r.bias + ·) (Int.add_zero signal.polarity).symm
    · exact congrArg (r.isPredicting || ·) (Bool.or_false signal.isDirectional).symm
  | .call (.resolve dataset change threshold) =>
    show r.Noted [] (r.resolve dataset change threshold).2
    unfold resolve
    cases r.current.find? dataset with
    | none => exact .none rfl rfl rfl
    | some signal => exact .none rfl rfl rfl
  | .bear => exact .none rfl rfl rfl

theorem noted_run (r : Robot) (events : List Event) : r.Noted (signals events) (r.run events) := by
  induction events generalizing r with
  | nil => exact .none rfl rfl rfl
  | cons e rest ih =>
    have hsignals : signals (e :: rest) = e.signal?.toList ++ signals rest := by
      simp only [signals, List.filterMap_cons]
      cases e.signal? with
      | none => rfl
      | some signal => rfl
    rw [hsignals]
    exact (noted_step r e).trans (ih (r.step e))

/-- an event counts the outcome that it returns -/
theorem counts_step (r : Robot) (e : Event) : r.Counts ((r.outcome? e).toList.map Prod.snd) (r.step e) := by
  match e with
  | .call (.predict dataset signal) => exact ⟨rfl, rfl, rfl⟩
  | .call (.resolve dataset change threshold) =>
    have hcounts := counts_resolve r dataset change threshold
    have hanswer := resolve_eq_slot r dataset change threshold
    simp only [outcome?, hanswer, slot]
    cases h : r.current.find? dataset with
    | none =>
      rw [h] at hcounts
      exact hcounts
    | some signal =>
      rw [h] at hcounts
      exact hcounts
  | .bear => exact ⟨rfl, rfl, rfl⟩

theorem counts_run (r : Robot) (events : List Event) : r.Counts ((r.outcomesOf events).map Prod.snd) (r.run events) := by
  induction events generalizing r with
  | nil => exact .none r
  | cons e rest ih =>
    rw [outcomesOf, List.map_append]
    exact (counts_step r e).trans (ih (r.step e))

/-- the counters are in order -/
structure Ordered (r : Robot) : Prop where
  correct_le : r.correct ≤ r.predictions
  predictions_le : r.predictions ≤ r.outcomes
  atLastChild_le : r.outcomesAtLastChild ≤ r.outcomes

/-- outcomes keep the counters in order -/
theorem Ordered.counts {after : Robot} {scored : List Outcome} (h : r.Ordered) (hcounts : r.Counts scored after)
    (hchild : after.outcomesAtLastChild = r.outcomesAtLastChild) : after.Ordered := by
  have hright : scored.countP (fun o => o = .correct) ≤ scored.countP fun o => o ≠ .out := by
    refine List.countP_mono_left fun o _ ho => ?_
    rw [of_decide_eq_true ho]
    rfl
  have hcounted : scored.countP (fun o => o ≠ .out) ≤ scored.length := List.countP_le_length
  refine ⟨?_, ?_, ?_⟩
  · rw [hcounts.correct, hcounts.predictions]
    exact Nat.add_le_add h.correct_le hright
  · rw [hcounts.predictions, hcounts.outcomes]
    exact Nat.add_le_add h.predictions_le hcounted
  · rw [hchild, hcounts.outcomes]
    exact h.atLastChild_le.trans (Nat.le_add_right _ _)

theorem Ordered.step (h : r.Ordered) (e : Event) : (r.step e).Ordered := by
  match e with
  | .call (.predict dataset signal) => exact h.counts (counts_step r _) rfl
  | .call (.resolve dataset change threshold) =>
    refine h.counts (counts_step r _) ?_
    show (r.resolve dataset change threshold).2.outcomesAtLastChild = r.outcomesAtLastChild
    unfold resolve
    cases r.current.find? dataset with
    | none => rfl
    | some signal => rfl
  | .bear => exact ⟨h.correct_le, h.predictions_le, le_rfl⟩

theorem Ordered.run (h : r.Ordered) (events : List Event) : (r.run events).Ordered := by
  induction events generalizing r with
  | nil => exact h
  | cons e rest ih => exact ih (h.step e)

/-- what is held for a dataset comes from the calls there -/
theorem slot_run (d : String) (r : Robot) (events : List Event) :
    (r.run events).slot d = (callsOn d events).foldl Slot.call (r.slot d) := by
  induction events generalizing r with
  | nil => rfl
  | cons e rest ih =>
    have hrest : (r.run (e :: rest)).slot d = (callsOn d rest).foldl Slot.call ((r.step e).slot d) := ih (r.step e)
    rw [hrest]
    unfold callsOn
    match e with
    | .bear => rw [List.filterMap_cons_none rfl]; rfl
    | .call c =>
      by_cases hdataset : c.dataset = d
      · have hcall : (Event.call c).callOn? d = some c := if_pos hdataset
        subst hdataset
        rw [List.filterMap_cons_some hcall, List.foldl_cons, ← slot_call]
        rfl
      · have hcall : (Event.call c).callOn? d = none := if_neg hdataset
        rw [List.filterMap_cons_none hcall, ← slot_call_of_ne r hdataset]
        rfl

/-! ## The books -/

/-- what the books of a newborn say after events -/
structure Booked (newborn : Robot) (events : List Event) : Prop where
  /-- every signal recorded is a call, -/
  calls : (newborn.run events).calls = (signals events).length
  /-- adds its polarity to the bias, -/
  bias : (newborn.run events).bias = ((signals events).map Signal.polarity).sum
  /-- and one with a direction makes the robot a predicting one. -/
  isPredicting : (newborn.run events).isPredicting = true ↔ ∃ signal ∈ signals events, signal.isDirectional = true
  /-- the outcomes are those returned, -/
  outcomes : (newborn.run events).outcomes = (newborn.outcomesOf events).length
  /-- a change that comes next returns one if its dataset has two signals, and none was resolved since the latest; -/
  answered : ∀ d change threshold, ((newborn.run events).resolve d change threshold).1.isSome = true ↔
    2 ≤ (signalsOn d events).length ∧ Unresolved d events
  /-- it scores the last signal but one, -/
  answer : ∀ d change threshold o, ((newborn.run events).resolve d change threshold).1 = some o →
    ∃ signal, (signalsOn d events).dropLast.getLast? = some signal ∧ o = Outcome.resolve signal change threshold
  /-- no two changes score one signal, -/
  once : ∀ i j signal, newborn.scored? events i = some signal → newborn.scored? events j = some signal → i = j
  /-- and a dataset has fewer outcomes than signals. -/
  fewer : ∀ d, (outcomesOn d newborn events).length ≤ (signalsOn d events).length - 1
  /-- what a call on a dataset returns depends on the earlier calls there only. -/
  apart : ∀ d others, callsOn d others = callsOn d events →
    ∀ c : Call, c.dataset = d → (newborn.run others).answer? c = (newborn.run events).answer? c
  /-- the counters are in order. -/
  ordered : (newborn.run events).Ordered

/-- **The books of a newborn**, after any events on any datasets. -/
theorem booked_run (name : RobotName) (program : Program) (inherited : Float) (events : List Event) :
    Booked (new name program inherited) events := by
  have hnoted := noted_run (new name program inherited) events
  have hcounts := counts_run (new name program inherited) events
  have hordered : (new name program inherited).Ordered := ⟨le_rfl, le_rfl, le_rfl⟩
  refine
    { calls := hnoted.calls.trans (Nat.zero_add _)
      bias := hnoted.bias.trans (Int.zero_add _)
      isPredicting := ?_
      outcomes := ?_
      answered := fun d change threshold => answered_iff change threshold
      answer := fun d change threshold o => answer_eq change threshold
      once := fun i j signal => scored?_inj
      fewer := fun d => (fewer_run name program inherited d events).all
      apart := ?_
      ordered := hordered.run events }
  · rw [hnoted.isPredicting]
    exact List.any_eq_true
  · rw [hcounts.outcomes, List.length_map]
    exact Nat.zero_add _
  · rintro d others hcalls c rfl
    rw [answer?_eq_slot, answer?_eq_slot, slot_run, slot_run, hcalls]

end TradingRobots.Robot
