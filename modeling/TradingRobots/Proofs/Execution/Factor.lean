/-
More budget lets a run go on, and changes nothing about a run that ended.

The budget is looked at between dispatches alone, so two budgets give the same run up to the smaller one. A run that
ends before it is cut off ends in the same way under every larger budget; a run that a larger budget cuts off is cut off
by the smaller one too. The same holds of the run without cells that tells where a program first looks for data.

`execute_eq_of_le`: a run that was not cut off is the run of every larger factor.
`Ends.le_dispatched`: a run dispatches at least as often as the machine without a budget was seen to go on.
`headAfter?_of_emptied`: as long as nothing is looked for, it does not matter that there are no cells.
`budget_only_cuts`: what a larger factor does to a run.
-/
import TradingRobots.Proofs.Execution.Budget

namespace TradingRobots

/-! ## Windows without cells -/

namespace Window

variable {w : Window}

theorem read?_emptied (column offset : Nat) : w.emptied.read? column offset = none := by
  simp only [read?, emptied, Array.getElem?_map]
  cases w.columns[column]? <;> simp

theorem cell?_emptied (ref : DataRef) : w.emptied.cell? ref = none := by
  rw [cell?]
  cases w.emptied.clampColumn? ref.column with
  | none => rfl
  | some column => exact read?_emptied column _

theorem fold?_emptied (column length : Nat) (f : Float → Float → Float) (start : Float) :
    w.emptied.fold? column length f start = none := by
  have hlength : ∃ n, w.emptied.clampLength length = n + 1 := Nat.exists_eq_succ_of_ne_zero (by rw [clampLength]; omega)
  obtain ⟨n, hn⟩ := hlength
  rw [fold?, hn]
  cases w.emptied.clampColumn? column with
  | none => rfl
  | some k => simp [foldFrom?, read?_emptied]

theorem scan?_emptied (use : ColumnScan) (column length : Nat) : w.emptied.scan? use column length = none := by
  cases use <;> simp [scan?, fold?_emptied]

end Window

/-- without cells an instruction lacks data, or does what it does with them -/
theorem Instruction.step_emptied (w : Window) (r : Registers) (i : Instruction) :
    i.step w.emptied r = .missing ∨ i.step w.emptied r = i.step w r := by
  cases i with
  | data use source register =>
    left
    simp only [step, Window.cell?_emptied]
  | scan use column length register =>
    left
    simp only [step, Window.scan?_emptied]
  | _ => exact Or.inr rfl

namespace Program

variable {p : Program} {w : Window} {f g : Nat}

/-- **As long as no data is looked for, it does not matter that there are no cells.** -/
theorem headAfter?_of_emptied {n : Nat} {h : Head} (hh : p.headAfter? w.emptied n = some h) :
    p.headAfter? w n = some h := by
  induction n generalizing h with
  | zero => exact hh
  | succ n ih =>
    obtain ⟨before, i, hbefore, hi, hstep⟩ := headAfter?_succ_eq_some hh
    have hsame : i.step w.emptied before.registers = i.step w before.registers := by
      rcases i.step_emptied w before.registers with hmissing | hsame
      · rcases hstep with ⟨hnext, -⟩ | ⟨target, hjump, -⟩
        · rw [hmissing] at hnext
          cases hnext
        · rw [hmissing] at hjump
          cases hjump
      · exact hsame
    rw [hsame] at hstep
    rcases hstep with ⟨hnext, hposition⟩ | ⟨target, hjump, hregisters, hposition⟩
    · rw [headAfter?_next (ih hbefore) hi hnext, ← hposition]
    · rw [headAfter?_jump (ih hbefore) hi hjump, ← hregisters, ← hposition]

/-! ## Two budgets -/

theorem budget_mono (p : Program) (hfg : f ≤ g) : p.budget f ≤ p.budget g := by
  have := Nat.mul_le_mul_left p.length hfg
  rw [budget, budget]
  omega

/-- an end that is not a cut is an end under every larger budget -/
theorem Ends.of_le {least most : Nat} {e : Execution} (he : p.Ends w least e) (hle : least ≤ most)
    (hdone : e.termination ≠ .budgetExhausted) : p.Ends w most e := by
  cases he with
  | ranOffEnd hn hh ho => exact .ranOffEnd (hn.trans hle) hh ho
  | budgetExhausted hh hi => exact absurd rfl hdone
  | emitted hn hh hi hs => exact .emitted (hn.trans_le hle) hh hi hs
  | missingData hn hh hi hs => exact .missingData (hn.trans_le hle) hh hi hs

/-- **A run that was not cut off is the run of every larger factor.** -/
theorem execute_eq_of_le (hfg : f ≤ g) (hdone : (p.execute f w).termination ≠ .budgetExhausted) :
    p.execute g w = p.execute f w :=
  ends_iff_execute.1 ((ends_execute p f w).of_le (p.budget_mono hfg) hdone)

theorem Ends.signal_of_cut {budget : Nat} {e : Execution} (he : p.Ends w budget e)
    (hcut : e.termination = .budgetExhausted) : e.signal = .out := by
  by_contra hsignal
  rw [he.emitted_of_signal hsignal] at hcut
  cases hcut

/-- no head follows one outside the program -/
theorem advance?_of_outside {h : Head} (ho : p.length ≤ h.position) : p.advance? w h = none := by
  have hnone : p.instructions[h.position]? = none := List.getElem?_eq_none ho
  simp [advance?, hnone]

/-- **A run dispatches at least as often as the machine was seen to go on**, if its budget allows. -/
theorem Ends.le_dispatched {budget n : Nat} {e : Execution} {h : Head} (he : p.Ends w budget e)
    (hh : p.headAfter? w n = some h) (hn : n ≤ budget) : n ≤ e.dispatched := by
  -- the machine stops at the head of every end but a cut, so that head is not left by a later dispatch
  have hlast : ∀ {m : Nat} {last : Head}, p.headAfter? w m = some last → p.advance? w last = none → n ≤ m := by
    intro m last hm hstop
    by_contra hlt
    exact advance?_ne_none hm hh (Nat.lt_of_not_le hlt) hstop
  cases he with
  | ranOffEnd _ hm ho => exact hlast hm (advance?_of_outside ho)
  | budgetExhausted hm hi => exact hn
  | emitted _ hm hi hs => exact (hlast hm (advance?_of_emit hi hs)).trans (Nat.le_succ _)
  | missingData _ hm hi hs => exact (hlast hm (advance?_of_missing hi hs)).trans (Nat.le_succ _)

theorem dispatched_mono (hfg : f ≤ g) : (p.execute f w).dispatched ≤ (p.execute g w).dispatched := by
  by_cases hcut : (p.execute f w).termination = .budgetExhausted
  · obtain ⟨hd, h, hh, -⟩ := (ends_execute p f w).budgetExhausted_iff.1 hcut
    have hle : (p.execute f w).dispatched ≤ p.budget g := by
      rw [hd]
      exact p.budget_mono hfg
    exact (ends_execute p g w).le_dispatched hh hle
  · rw [execute_eq_of_le hfg hcut]

/-- a run that is cut off without cells is cut off with them -/
theorem cut_of_emptied (hcut : (p.execute f w.emptied).termination = .budgetExhausted) :
    (p.execute f w).termination = .budgetExhausted := by
  obtain ⟨hd, h, hh, hi⟩ := (ends_execute p f w.emptied).budgetExhausted_iff.1 hcut
  rw [hd] at hh
  rw [ends_iff_execute.1 (.budgetExhausted (headAfter?_of_emptied hh) hi)]

/-- a run that was not cut off has looked for data, or never will -/
theorem looksForData_eq_of_le (hfg : f ≤ g) (hdone : (p.execute f w).termination ≠ .budgetExhausted) :
    p.looksForData g w = p.looksForData f w := by
  rw [looksForData, looksForData, execute_eq_of_le hfg (mt cut_of_emptied hdone)]

/-- **The budget only cuts runs short.** Let one factor be at most another. A run under the smaller factor that does not
use up its budget is the run under the larger one: the same signal after as many dispatches, for the same reason; and it
breaks down under both or neither. A run that the larger factor cuts off is cut off by the smaller one too, without a
direction, and, unless that budget exceeds the word size, after the length of the program times the factor. In any case
the smaller factor does not dispatch more. -/
theorem budget_only_cuts (p : Program) (w : Window) {f g : Nat} (hfg : f ≤ g) :
    let short := p.execute f w
    let long := p.execute g w
    (short.termination ≠ .budgetExhausted → long = short ∧ p.breaksDown g w = p.breaksDown f w) ∧
    (long.termination = .budgetExhausted →
      short.termination = .budgetExhausted ∧ short.signal = .out ∧
        (p.length * f < Binary64.wordLimit → short.dispatched = p.length * f)) ∧
    short.dispatched ≤ long.dispatched := by
  intro short long
  have he : p.Ends w (p.budget f) short := ends_execute p f w
  refine ⟨fun hdone => ⟨execute_eq_of_le hfg hdone, ?_⟩, fun hlong => ?_, dispatched_mono hfg⟩
  · rw [breaksDown, breaksDown, looksForData_eq_of_le hfg hdone]
  · have hcut : short.termination = .budgetExhausted := by
      by_contra hdone
      rw [show long = short from execute_eq_of_le hfg hdone] at hlong
      exact hdone hlong
    refine ⟨hcut, he.signal_of_cut hcut, fun hword => ?_⟩
    rw [(he.budgetExhausted_iff.1 hcut).1, budget]
    omega

/-- a program that goes round once before it emits: a factor of one cuts it off, and two or more let it end -/
theorem budget_only_cuts_once :
    let p : Program := ⟨[.jumpIf .zero 0 2, .emit .long, .constant .add 1.0 0, .jump 0], 1⟩
    let w : Window := ⟨#[#[1.5]], 0, 1, none⟩
    (p.execute 1 w).termination = .budgetExhausted ∧ (p.execute 0 w).dispatched = p.length * 0 ∧
      (p.execute 2 w).termination = .emitted ∧ p.execute 9 w = p.execute 2 w ∧
      p.breaksDown 9 w = p.breaksDown 2 w ∧ (p.execute 1 w).dispatched ≤ (p.execute 2 w).dispatched := by
  intro p w
  have hone : (p.execute 1 w).termination = .budgetExhausted := by decide +kernel
  have htwo : (p.execute 2 w).termination = .emitted := by decide +kernel
  obtain ⟨hsame, hdown⟩ := (budget_only_cuts p w (show 2 ≤ 9 by decide)).1 (by rw [htwo]; decide)
  obtain ⟨-, -, hzero⟩ := (budget_only_cuts p w (show 0 ≤ 1 by decide)).2.1 hone
  exact ⟨hone, hzero (by decide), htwo, hsame, hdown, (budget_only_cuts p w (show 1 ≤ 2 by decide)).2.2⟩

end Program

end TradingRobots
