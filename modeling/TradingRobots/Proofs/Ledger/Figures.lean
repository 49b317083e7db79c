/-
The counters of a ledger and its profit figures tell the same story.

A ledger is told votes to hold and changes to resolve them against, in any order. A change scores the vote held by the
call right before it, if that call is a vote; so no vote is scored twice. Each record goes into one counter, by its
outcome. Correct records have a profit above zero and wrong ones below it, as the threshold is not below zero. Records
whose vote is out have a profit of zero, of some sign, and the sums come to the same number with and without them.

`Scored.profit_pos`, `Scored.profit_neg`, `Scored.outcome_correct`: outcomes and profits.
`held_after`, `booked_after`: the vote held, the records and the counters after any calls.
`Booked.total`: the sum of the trades and the sum of all records.
`figures_tell_records`: counters, records and figures agree.
-/
import TradingRobots.Ledger
import TradingRobots.Proofs.Number.Counts
import TradingRobots.Proofs.Number.Neutral

namespace TradingRobots

open Binary64
open Random.Stream (value)

/-! ## Outcomes and profits -/

namespace Outcome

variable {signal : Signal} {change threshold : Float}

theorem resolve_eq_correct_iff :
    resolve signal change threshold = correct ↔ signal ≠ .out ∧ direction change threshold = signal := by
  unfold resolve
  cases signal <;> cases direction change threshold <;> simp

theorem resolve_eq_wrong_iff :
    resolve signal change threshold = wrong ↔
      signal = .long ∧ direction change threshold = .short ∨ signal = .short ∧ direction change threshold = .long := by
  unfold resolve
  cases signal <;> cases direction change threshold <;> simp

/-- only a rise confirms the long side, -/
theorem pos_of_direction (hthreshold : 0.0 ≤ threshold) (h : direction change threshold = .long) : 0.0 < change := by
  have habove : threshold < change := by
    unfold direction at h
    split at h
    next habove => exact habove
    next => split at h <;> cases h
  rcases isZero_or_pos hthreshold with hzero | hpos
  · exact (hzero.lt_iff_pos change).1 habove
  · exact pos_of_le hpos (le_of_less habove)

/-- and only a fall the short side. -/
theorem neg_of_direction (hthreshold : 0.0 ≤ threshold) (h : direction change threshold = .short) : change < 0.0 := by
  have hbelow : change < -threshold := by
    unfold direction at h
    split at h
    next => cases h
    next =>
      split at h
      next hbelow => exact hbelow
      next => cases h
  rcases isZero_or_pos hthreshold with hzero | hpos
  · exact (hzero.lt_neg_iff change).1 hbelow
  · exact neg_of_lt_neg hpos hbelow

/-- a threshold of zero leaves no other band than zero -/
theorem direction_of_zero (hzero : IsZero threshold) :
    direction change threshold = if 0.0 < change then .long else if change < 0.0 then .short else .out := by
  unfold direction
  simp only [GT.gt, hzero.lt_iff_pos change, hzero.lt_neg_iff change]

end Outcome

namespace VoteRecord

variable {r : VoteRecord} {threshold : Float}

/-- a record that a ledger writes: of a finite change, with its outcome under a threshold -/
structure Scored (threshold : Float) (r : VoteRecord) : Prop where
  isFinite : r.change.isFinite = true
  outcome : r.outcome = Outcome.resolve r.signal r.change threshold

theorem profit_pos_iff (h : r.change.isFinite = true) :
    0.0 < r.profit ↔ r.signal = .long ∧ 0.0 < r.change ∨ r.signal = .short ∧ r.change < 0.0 := by
  unfold profit
  cases r.signal with
  | long =>
    rw [show Signal.long.factor = 1.0 from rfl, one_mul_eq h]
    simp
  | short =>
    rw [show Signal.short.factor = -1.0 from rfl, pos_neg_one_mul_iff h]
    simp
  | out =>
    have hzero : IsZero (Signal.out.factor * r.change) := isZero_zero_mul h
    simp [hzero.not_pos]

theorem isFinite_profit (h : r.change.isFinite = true) : r.profit.isFinite = true := by
  unfold profit
  cases r.signal with
  | long =>
    rw [show Signal.long.factor = 1.0 from rfl, one_mul_eq h]
    exact h
  | short => exact isFinite_neg_one_mul h
  | out => exact (isZero_zero_mul h).isFinite

/-- a vote that is out makes no profit -/
theorem isZero_profit (h : r.change.isFinite = true) (hout : r.signal.isDirectional = false) : IsZero r.profit := by
  have hsignal : r.signal = .out := by
    cases hs : r.signal <;> simp [Signal.isDirectional, hs] at hout ⊢
  rw [profit, hsignal]
  exact isZero_zero_mul h

/-- only a vote that takes a side is correct or wrong -/
theorem Scored.isDirectional (h : r.Scored threshold) (hscored : r.outcome = .correct ∨ r.outcome = .wrong) :
    r.signal.isDirectional = true := by
  rw [h.outcome, Outcome.resolve_eq_correct_iff, Outcome.resolve_eq_wrong_iff] at hscored
  cases hs : r.signal with
  | out => simp [hs] at hscored
  | _ => rfl

/-- **A correct record has a profit above zero.** -/
theorem Scored.profit_pos (h : r.Scored threshold) (hthreshold : 0.0 ≤ threshold) (hcorrect : r.outcome = .correct) :
    0.0 < r.profit := by
  rw [h.outcome, Outcome.resolve_eq_correct_iff] at hcorrect
  obtain ⟨hdirectional, hdirection⟩ := hcorrect
  rw [profit_pos_iff h.isFinite]
  cases hs : r.signal with
  | long =>
    rw [hs] at hdirection
    exact .inl ⟨rfl, Outcome.pos_of_direction hthreshold hdirection⟩
  | short =>
    rw [hs] at hdirection
    exact .inr ⟨rfl, Outcome.neg_of_direction hthreshold hdirection⟩
  | out => exact absurd hs hdirectional

/-- **A wrong record has a profit below zero.** -/
theorem Scored.profit_neg (h : r.Scored threshold) (hthreshold : 0.0 ≤ threshold) (hwrong : r.outcome = .wrong) :
    r.profit < 0.0 := by
  rw [h.outcome, Outcome.resolve_eq_wrong_iff] at hwrong
  unfold profit
  rcases hwrong with ⟨hs, hdirection⟩ | ⟨hs, hdirection⟩
  · rw [hs, show Signal.long.factor = 1.0 from rfl, one_mul_eq h.isFinite]
    exact Outcome.neg_of_direction hthreshold hdirection
  · rw [hs, show Signal.short.factor = -1.0 from rfl, neg_one_mul_neg_iff h.isFinite]
    exact Outcome.pos_of_direction hthreshold hdirection

/-- **Under a threshold of zero all profit is correct.** -/
theorem Scored.outcome_correct (h : r.Scored threshold) (hzero : IsZero threshold) (hprofit : 0.0 < r.profit) :
    r.outcome = .correct := by
  rw [h.outcome, Outcome.resolve_eq_correct_iff, Outcome.direction_of_zero hzero]
  rcases (profit_pos_iff h.isFinite).1 hprofit with ⟨hs, hchange⟩ | ⟨hs, hchange⟩
  · rw [hs, if_pos hchange]
    exact ⟨by decide, rfl⟩
  · rw [hs, if_neg fun hpos => not_neg_of_pos hpos hchange, if_pos hchange]
    exact ⟨by decide, rfl⟩

end VoteRecord

/-! ## Records and counters -/

namespace Ledger

/-- a call on a ledger: a vote to hold, or a change to score the held vote against -/
inductive Call where
  | hold (signal : Signal)
  | resolve (bar : Nat) (change : Float)

variable {threshold : Float} {l : Ledger}

/-- the ledger after a call -/
def call (threshold : Float) (l : Ledger) : Call → Ledger
  | .hold signal => l.hold signal
  | .resolve bar change => (l.resolve bar change threshold).2

/-- a new ledger after calls, one after the other -/
def after (threshold : Float) (calls : List Call) : Ledger :=
  calls.foldl (call threshold) .empty

/-- the vote that a call leaves held: its own, or none -/
def Call.held? : Call → Option Signal
  | .hold signal => some signal
  | .resolve _ _ => none

theorem held_call (threshold : Float) (l : Ledger) (c : Call) : (l.call threshold c).held = c.held? := by
  cases c with
  | hold signal => rfl
  | resolve bar change =>
    unfold call resolve
    cases h : l.held with
    | none => exact h
    | some signal => rfl

/-- **A ledger holds what the last call left.** -/
theorem held_after (threshold : Float) (calls : List Call) :
    (after threshold calls).held = calls.getLast?.bind Call.held? := by
  rcases List.eq_nil_or_concat calls with rfl | ⟨init, last, rfl⟩
  · rfl
  · rw [after, List.concat_eq_append, List.foldl_append, List.getLast?_append]
    exact held_call threshold _ last

/-- every record is scored under the threshold, and counted by its outcome -/
structure Booked (threshold : Float) (l : Ledger) : Prop where
  scored : ∀ r ∈ l.records, r.Scored threshold
  correct : l.correct = l.records.countP fun r => r.outcome = .correct
  wrong : l.wrong = l.records.countP fun r => r.outcome = .wrong
  out : l.out = l.records.countP fun r => r.outcome = .out

theorem booked_empty (threshold : Float) : empty.Booked threshold :=
  ⟨fun _ h => absurd h List.not_mem_nil, rfl, rfl, rfl⟩

/-- a change that scores a vote -/
theorem resolve_of_held {signal : Signal} (h : l.held = some signal) (bar : Nat) (change threshold : Float) :
    (l.resolve bar change threshold).2.records =
      l.records ++ [⟨bar, signal, change, Outcome.resolve signal change threshold⟩] := by
  simp only [resolve, h]

/-- a change without a vote held scores nothing -/
theorem resolve_of_none (h : l.held = none) (bar : Nat) (change threshold : Float) :
    l.resolve bar change threshold = (none, l) := by
  simp only [resolve, h]

theorem Booked.call (h : l.Booked threshold) {c : Call}
    (hfinite : ∀ bar change, c = .resolve bar change → change.isFinite = true) : (l.call threshold c).Booked threshold := by
  cases c with
  | hold signal => exact ⟨h.scored, h.correct, h.wrong, h.out⟩
  | resolve bar change =>
    show ((l.resolve bar change threshold).2).Booked threshold
    cases hheld : l.held with
    | none =>
      rw [resolve_of_none hheld]
      exact h
    | some signal =>
      have hscored : VoteRecord.Scored threshold ⟨bar, signal, change, Outcome.resolve signal change threshold⟩ :=
        ⟨hfinite bar change rfl, rfl⟩
      have hrecords := List.forall_mem_append.2 ⟨h.scored, List.forall_mem_singleton.2 hscored⟩
      simp only [resolve, hheld]
      constructor
      · exact hrecords
      · simp only [List.countP_append, List.countP_singleton, ← h.correct]
        split <;> simp_all
      · simp only [List.countP_append, List.countP_singleton, ← h.wrong]
        split <;> simp_all
      · simp only [List.countP_append, List.countP_singleton, ← h.out]
        split <;> simp_all

theorem Booked.foldl (h : l.Booked threshold) {calls : List Call}
    (hfinite : ∀ bar change, Call.resolve bar change ∈ calls → change.isFinite = true) :
    (calls.foldl (Ledger.call threshold) l).Booked threshold := by
  induction calls generalizing l with
  | nil => exact h
  | cons c rest ih =>
    refine ih (h.call fun bar change hc => ?_) fun bar change hc => hfinite bar change (List.mem_cons_of_mem c hc)
    exact hfinite bar change (hc ▸ List.mem_cons_self)

/-- **Records and counters after any calls.** -/
theorem booked_after {calls : List Call}
    (hfinite : ∀ bar change, Call.resolve bar change ∈ calls → change.isFinite = true) :
    (after threshold calls).Booked threshold :=
  (booked_empty threshold).foldl hfinite

theorem Booked.counted (h : l.Booked threshold) : l.correct + l.wrong + l.out = l.records.length := by
  rw [h.correct, h.wrong, h.out]
  generalize l.records = records
  induction records with
  | nil => rfl
  | cons r rest ih =>
    simp only [List.countP_cons, List.length_cons, ← ih]
    cases r.outcome <;> simp <;> omega

/-! ## Figures -/

/-- the records whose votes take a side -/
def trades (l : Ledger) : List VoteRecord :=
  l.records.filter fun r => r.signal.isDirectional

/-- how many trades gained, -/
def winning (l : Ledger) : Nat :=
  l.trades.countP fun r => 0.0 < r.profit

/-- and how many did not. -/
def losing (l : Ledger) : Nat :=
  l.trades.countP fun r => r.profit ≤ 0.0

theorem figures_eq_nil_iff (l : Ledger) : l.figures = [] ↔ l.trades = [] := by
  rw [figures, Profit.figures, ← trades]
  cases h : l.trades with
  | nil => simp
  | cons r rest => simp

/-- the figures that are there whenever there is a trade -/
theorem lookup_figures (h : l.trades ≠ []) :
    l.figures.lookup "trades" = some (ofCount l.trades.length) ∧
      l.figures.lookup "win_rate" = some (ofCount l.winning / ofCount l.trades.length * 100.0) ∧
      l.figures.lookup "total_profit_pct" = some (sumOf (l.trades.map VoteRecord.profit)) := by
  have hgains : ((l.trades.map VoteRecord.profit).filter fun p => p > 0.0).length = l.winning := by
    rw [← List.countP_eq_length_filter, List.countP_map]
    rfl
  have hsome : ¬l.trades.isEmpty = true := by simpa using h
  rw [figures, Profit.figures, ← trades, if_neg hsome]
  simp only [hgains, List.length_map, List.lookup_append]
  refine ⟨?_, ?_, ?_⟩ <;> split_ifs <;> rfl

/-- records that are trades of a kind -/
theorem countP_le_trades {p q : VoteRecord → Bool} (l : Ledger)
    (h : ∀ r ∈ l.records, p r = true → q r = true ∧ r.signal.isDirectional = true) :
    l.records.countP p ≤ l.trades.countP q := by
  rw [trades, List.countP_filter]
  exact List.countP_mono_left fun r hr hp => Bool.and_eq_true_iff.2 (h r hr hp)

theorem Booked.correct_le (h : l.Booked threshold) (hthreshold : 0.0 ≤ threshold) : l.correct ≤ l.winning := by
  rw [h.correct]
  refine l.countP_le_trades fun r hr hcorrect => ?_
  have hcorrect := of_decide_eq_true hcorrect
  have habove := (h.scored r hr).profit_pos hthreshold hcorrect
  exact ⟨decide_eq_true habove, (h.scored r hr).isDirectional (.inl hcorrect)⟩

theorem Booked.wrong_le (h : l.Booked threshold) (hthreshold : 0.0 ≤ threshold) : l.wrong ≤ l.losing := by
  rw [h.wrong]
  refine l.countP_le_trades fun r hr hwrong => ?_
  have hwrong := of_decide_eq_true hwrong
  have hbelow := (h.scored r hr).profit_neg hthreshold hwrong
  exact ⟨decide_eq_true (le_of_less hbelow), (h.scored r hr).isDirectional (.inr hwrong)⟩

theorem Booked.winning_le (h : l.Booked threshold) (hzero : IsZero threshold) : l.winning ≤ l.correct := by
  rw [h.correct, winning, trades, List.countP_filter]
  refine List.countP_mono_left fun r hr hwinning => ?_
  have hprofit := of_decide_eq_true (Bool.and_eq_true_iff.1 hwinning).1
  exact decide_eq_true ((h.scored r hr).outcome_correct hzero hprofit)

/-- what some of the records gained is not NaN, though it may be infinite -/
theorem Booked.isNumber_gain (h : l.Booked threshold) {records : List VoteRecord} (hsome : records ⊆ l.records) :
    IsNumber (sumOf (records.map VoteRecord.profit)) := by
  have hfinite : ∀ x ∈ records.map VoteRecord.profit, x.isFinite = true := by
    intro x hx
    obtain ⟨r, hr, rfl⟩ := List.mem_map.1 hx
    exact VoteRecord.isFinite_profit (h.scored r (hsome hr)).isFinite
  exact isNumber_foldl hfinite fun hnan => nomatch hnan

/-- **What the trades gained is what all records gained.** -/
theorem Booked.total (h : l.Booked threshold) :
    SameNumber (sumOf (l.trades.map VoteRecord.profit)) l.totalProfit :=
  sameNumber_sums VoteRecord.profit (·.signal.isDirectional)
    (fun r hr hout => VoteRecord.isZero_profit (h.scored r hr).isFinite hout) (.inl rfl)

/-! ## One story -/

/-- the counters, the profits of the records and the figures of a ledger agree -/
structure Agrees (threshold : Float) (l : Ledger) : Prop where
  counted : l.correct + l.wrong + l.out = l.records.length
  profit_pos : ∀ r ∈ l.records, r.outcome = .correct → 0.0 < r.profit
  profit_neg : ∀ r ∈ l.records, r.outcome = .wrong → r.profit < 0.0
  correct_le : l.correct ≤ l.winning
  wrong_le : l.wrong ≤ l.losing
  correct_eq : threshold == 0.0 → l.correct = l.winning
  figures_eq_nil : l.figures = [] ↔ l.trades = []
  /-- without trades nothing is gained, -/
  untraded : l.trades = [] → l.totalProfit == 0.0
  /-- and with trades the figures count them and sum up the gain. -/
  traded : l.trades ≠ [] →
    l.figures.lookup "trades" = some (ofCount l.trades.length) ∧
      l.figures.lookup "win_rate" = some (ofCount l.winning / ofCount l.trades.length * 100.0) ∧
      ∃ total, l.figures.lookup "total_profit_pct" = some total ∧ total == l.totalProfit
  /-- While a double tells the trades apart, their number is exact, and so is the rate but for two roundings. -/
  rounded : l.trades ≠ [] → l.trades.length ≤ 2 ^ 53 →
    size (value (ofCount l.trades.length)) = l.trades.length ∧
      Plain (ofCount l.winning / ofCount l.trades.length * 100.0) ∧
      |size (value (ofCount l.winning / ofCount l.trades.length * 100.0)) - 100 * (l.winning / l.trades.length)| ≤
        100 * (l.winning / l.trades.length) / 2 ^ 51

theorem Booked.agrees (h : l.Booked threshold) (hthreshold : 0.0 ≤ threshold) : l.Agrees threshold where
  counted := h.counted
  profit_pos r hr := (h.scored r hr).profit_pos hthreshold
  profit_neg r hr := (h.scored r hr).profit_neg hthreshold
  correct_le := h.correct_le hthreshold
  wrong_le := h.wrong_le hthreshold
  correct_eq hzero := Nat.le_antisymm (h.correct_le hthreshold) (h.winning_le (isZero_of_beq hzero))
  figures_eq_nil := l.figures_eq_nil_iff
  untraded hnone := by
    have htotal := h.total
    rw [hnone] at htotal
    have hstart : SameNumber (sumOf []) 0.0 := .inr ⟨⟨.negative, rfl⟩, ⟨.positive, rfl⟩⟩
    exact (htotal.symm.trans hstart).beq (h.isNumber_gain (List.Subset.refl _))
  traded hsome := by
    obtain ⟨htrades, hrate, htotal⟩ := lookup_figures hsome
    have htraded : l.trades ⊆ l.records := List.filter_subset_self l.records
    have hnumber := h.isNumber_gain htraded
    exact ⟨htrades, hrate, _, htotal, h.total.beq hnumber⟩
  rounded hsome hfew :=
    ⟨size_ofCount hfew, rate_close List.countP_le_length (List.length_pos_of_ne_nil hsome) hfew⟩

/-- **Counters, records and figures tell one story.** After any calls with finite changes, a change that comes right after a
vote adds one record and any other change adds none; and the counters, the profits of the records and the figures agree. -/
theorem figures_tell_records (hthreshold : 0.0 ≤ threshold) {calls : List Call}
    (hfinite : ∀ bar change, Call.resolve bar change ∈ calls → change.isFinite = true) :
    (∀ signal bar change, calls.getLast? = some (.hold signal) →
      (after threshold (calls ++ [.resolve bar change])).records =
        (after threshold calls).records ++ [⟨bar, signal, change, Outcome.resolve signal change threshold⟩]) ∧
    (∀ bar change, (∀ signal, calls.getLast? ≠ some (.hold signal)) →
      (after threshold calls).resolve bar change threshold = (none, after threshold calls)) ∧
    (after threshold calls).Agrees threshold := by
  refine ⟨fun signal bar change hlast => ?_, fun bar change hlast => ?_, (booked_after hfinite).agrees hthreshold⟩
  · have hheld : (after threshold calls).held = some signal := by rw [held_after, hlast]; rfl
    rw [after, List.foldl_append]
    exact resolve_of_held hheld bar change threshold
  · refine resolve_of_none ?_ bar change threshold
    rw [held_after]
    cases h : calls.getLast? with
    | none => rfl
    | some c =>
      cases c with
      | hold signal => exact absurd h (hlast signal)
      | resolve _ _ => rfl

/-- a rise that is voted for, a neutral change, a vote that is out, a vote replaced, and changes without a vote -/
def manyCalls : List Call :=
  [.resolve 0 1.0, .hold .long, .resolve 1 2.0, .resolve 2 3.0, .hold .short, .resolve 3 0.25, .hold .out,
    .resolve 4 (-1.0), .hold .long, .hold .short, .resolve 5 4.0, .hold .long]

theorem figures_tell_records_manyCalls :
    (after 0.5 manyCalls).Agrees 0.5 ∧
      ((after 0.5 manyCalls).correct, (after 0.5 manyCalls).wrong, (after 0.5 manyCalls).out) = (1, 1, 2) ∧
      (after 0.5 manyCalls).trades.length = 3 := by
  have hfinite : ∀ bar change, Call.resolve bar change ∈ manyCalls → change.isFinite = true := by
    intro bar change h
    simp only [manyCalls, List.mem_cons, List.not_mem_nil, or_false, reduceCtorEq, false_or,
      Call.resolve.injEq] at h
    rcases h with ⟨-, rfl⟩ | ⟨-, rfl⟩ | ⟨-, rfl⟩ | ⟨-, rfl⟩ | ⟨-, rfl⟩ | ⟨-, rfl⟩ <;> rfl
  exact ⟨(figures_tell_records (by decide) hfinite).2.2, by decide, by decide⟩

end Ledger

end TradingRobots
