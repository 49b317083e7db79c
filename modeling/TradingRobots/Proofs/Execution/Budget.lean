/-
The budget of a run: every run ends within it, and the reported termination tells exactly how.

`jumpFree_position`: without jumps the position counts the dispatches, so a run cannot dispatch more than the program
has instructions.
`execute_within_budget`: the bound on the dispatches, what a direction means, when a run is cut off, when it has left
the program, and that a program without jumps is never cut off. Nothing breaks down as long as memory holds the
registers and the row of the window has a successor.
`registers_beyond_memory`: a register file that memory cannot hold breaks the run down, so the bound on the registers
is needed.
-/
import TradingRobots.Proofs.Execution.Dispatch

namespace TradingRobots

namespace Instruction

/-- may send the position somewhere else -/
def isJump : Instruction → Bool
  | jump _ => true
  | jumpIf .. => true
  | jumpIfGreater .. => true
  | _ => false

theorem isJump_of_step {w : Window} {r : Registers} {i : Instruction} {target : Nat}
    (h : i.step w r = .jump target) : i.isJump = true := by
  cases i with
  | jump _ => rfl
  | jumpIf _ _ _ => rfl
  | jumpIfGreater _ _ _ => rfl
  | _ =>
    simp only [step] at h
    repeat' split at h
    all_goals cases h

end Instruction

namespace Program

variable {p : Program} {w : Window}

/-! ## Bounds on the dispatches -/

theorem Ends.dispatched_le {budget : Nat} {e : Execution} (he : p.Ends w budget e) : e.dispatched ≤ budget := by
  cases he with
  | ranOffEnd hn => exact hn
  | budgetExhausted => exact Nat.le_refl _
  | emitted hn => exact hn
  | missingData hn => exact hn

theorem Ends.emitted_of_signal {budget : Nat} {e : Execution} (he : p.Ends w budget e) (hs : e.signal ≠ .out) :
    e.termination = .emitted := by
  cases he with
  | emitted => rfl
  | _ => exact absurd rfl hs

theorem Ends.budgetExhausted_iff {budget : Nat} {e : Execution} (he : p.Ends w budget e) :
    e.termination = .budgetExhausted ↔
      e.dispatched = budget ∧ ∃ h, p.headAfter? w e.dispatched = some h ∧ h.position < p.length := by
  cases he with
  | @ranOffEnd n h hn hh ho =>
    refine iff_of_false (by simp) ?_
    rintro ⟨-, g, hg, hi⟩
    rw [hh] at hg
    cases hg
    omega
  | budgetExhausted hh hi => exact iff_of_true rfl ⟨rfl, _, hh, hi⟩
  | emitted hn hh hi hs =>
    refine iff_of_false (by simp) ?_
    rintro ⟨-, g, hg, -⟩
    exact advance?_ne_none hh hg (Nat.lt_succ_self _) (advance?_of_emit hi hs)
  | missingData hn hh hi hs =>
    refine iff_of_false (by simp) ?_
    rintro ⟨-, g, hg, -⟩
    exact advance?_ne_none hh hg (Nat.lt_succ_self _) (advance?_of_missing hi hs)

theorem Ends.ranOffEnd_iff {budget : Nat} {e : Execution} (he : p.Ends w budget e) :
    e.termination = .ranOffEnd ↔ ∃ h, p.headAfter? w e.dispatched = some h ∧ p.length ≤ h.position := by
  cases he with
  | ranOffEnd hn hh ho => exact iff_of_true rfl ⟨_, hh, ho⟩
  | budgetExhausted hh hi =>
    refine iff_of_false (by simp) ?_
    rintro ⟨g, hg, ho⟩
    rw [hh] at hg
    cases hg
    omega
  | emitted hn hh hi hs =>
    refine iff_of_false (by simp) ?_
    rintro ⟨g, hg, -⟩
    exact advance?_ne_none hh hg (Nat.lt_succ_self _) (advance?_of_emit hi hs)
  | missingData hn hh hi hs =>
    refine iff_of_false (by simp) ?_
    rintro ⟨g, hg, -⟩
    exact advance?_ne_none hh hg (Nat.lt_succ_self _) (advance?_of_missing hi hs)

/-! ## Programs without jumps -/

theorem jumpFree_position (hj : ∀ i ∈ p.instructions, i.isJump = false) {n : Nat} {h : Head}
    (hh : p.headAfter? w n = some h) : h.position = n ∧ n ≤ p.length := by
  induction n generalizing h with
  | zero =>
    cases hh
    exact ⟨rfl, Nat.zero_le _⟩
  | succ n ih =>
    obtain ⟨g, i, hg, hi, hstep⟩ := headAfter?_succ_eq_some hh
    obtain ⟨hlt, -⟩ := List.getElem?_eq_some_iff.1 hi
    have hpos : g.position = n := (ih hg).1
    rcases hstep with ⟨-, hp⟩ | ⟨target, hs, -⟩
    · exact ⟨by omega, by rw [length]; omega⟩
    · have := Instruction.isJump_of_step hs
      rw [hj i (List.mem_of_getElem? hi)] at this
      cases this

/-- the instruction that ends a run without jumps is one of the program's, and each of them ran once -/
theorem Ends.dispatched_le_length {budget : Nat} {e : Execution} (he : p.Ends w budget e)
    (hj : ∀ i ∈ p.instructions, i.isJump = false) : e.dispatched ≤ p.length := by
  have hinside : ∀ {n h i}, p.headAfter? w n = some h → p.instructions[h.position]? = some i → n < p.length := by
    intro n h i hh hi
    rw [← (jumpFree_position hj hh).1]
    exact (List.getElem?_eq_some_iff.1 hi).1
  cases he with
  | ranOffEnd hn hh ho => exact (jumpFree_position hj hh).2
  | budgetExhausted hh hi => exact (jumpFree_position hj hh).2
  | emitted hn hh hi hs => exact hinside hh hi
  | missingData hn hh hi hs => exact hinside hh hi

theorem length_le_budget {factor : Nat} (hf : 1 ≤ factor) (hl : p.length < Binary64.wordLimit) :
    p.length ≤ p.budget factor := by
  have := Nat.le_mul_of_pos_right p.length hf
  rw [budget]
  omega

/-! ## The budget of a run -/

theorem not_breaksDown {factor : Nat} (hr : p.registers ≤ mostRegisters) (hw : w.row + 1 < Binary64.wordLimit) :
    p.breaksDown factor w = false := by
  have hnext : w.hasNext = true := by simpa [Window.hasNext, Binary64.wordLimit] using hw
  simp [breaksDown, isRunnable, hr, hnext]

/-- **Every run ends within its budget, and is classified exactly.** The dispatches stay within the program's length
times the factor, up to the word size. Only an emission gives a direction. A run is cut off exactly when it has used
up its budget and stands inside the program; it has run off the end exactly when it stands outside, whatever is left
of the budget. Without jumps a program dispatches at most its length, so a factor of at least one never cuts it off.
-/
theorem execute_within_budget (p : Program) (factor : Nat) (w : Window) :
    let run := p.execute factor w
    (p.registers ≤ mostRegisters → w.row + 1 < Binary64.wordLimit → p.breaksDown factor w = false) ∧
    run.dispatched ≤ min (p.length * factor) (Binary64.wordLimit - 1) ∧
    (run.signal ≠ .out → run.termination = .emitted) ∧
    (run.termination = .budgetExhausted ↔
      run.dispatched = p.budget factor ∧ ∃ h, p.headAfter? w run.dispatched = some h ∧ h.position < p.length) ∧
    (run.termination = .ranOffEnd ↔ ∃ h, p.headAfter? w run.dispatched = some h ∧ p.length ≤ h.position) ∧
    ((∀ i ∈ p.instructions, i.isJump = false) →
      run.dispatched ≤ p.length ∧
      (1 ≤ factor → p.length < Binary64.wordLimit → run.termination ≠ .budgetExhausted)) := by
  intro run
  have he : p.Ends w (p.budget factor) run := ends_execute p factor w
  refine ⟨not_breaksDown, he.dispatched_le, he.emitted_of_signal, he.budgetExhausted_iff, he.ranOffEnd_iff, ?_⟩
  intro hj
  refine ⟨he.dispatched_le_length hj, fun hf hl hcut => ?_⟩
  obtain ⟨hd, h, hh, hi⟩ := he.budgetExhausted_iff.1 hcut
  have hpos := (jumpFree_position hj hh).1
  have := length_le_budget hf hl
  omega

/-- a straight program of two instructions on a window with one row -/
theorem execute_within_budget_two :
    let p : Program := ⟨[.data .move ⟨0, 0⟩ 0, .emitSignOf 0], 1⟩
    let w : Window := ⟨#[#[1.5]], 0, 1, none⟩
    p.breaksDown 1 w = false ∧ (p.execute 1 w).signal = .long ∧ (p.execute 1 w).termination = .emitted ∧
      (p.execute 1 w).dispatched ≤ p.length ∧ (p.execute 1 w).termination ≠ .budgetExhausted := by
  intro p w
  obtain ⟨hdown, -, hemit, -, -, hstraight⟩ := execute_within_budget p 1 w
  have hlong : (p.execute 1 w).signal = .long := by decide
  obtain ⟨hlen, hcut⟩ := hstraight (by decide)
  exact ⟨hdown (by decide) (by decide), hlong, hemit (by rw [hlong]; decide), hlen, hcut (by decide) (by decide)⟩

/-- **A register file beyond memory breaks the run down**, even for a program that only emits. -/
theorem registers_beyond_memory :
    let p : Program := ⟨[.emit .long], 2 ^ 62⟩
    let w : Window := ⟨#[#[1.5]], 0, 1, none⟩
    p.breaksDown 1 w = true ∧ ¬∀ (p : Program) (factor : Nat) (w : Window), p.breaksDown factor w = false := by
  intro p w
  have hdown : p.breaksDown 1 w = true := by decide
  refine ⟨hdown, fun hall => ?_⟩
  rw [hall p 1 w] at hdown
  cases hdown

end Program

end TradingRobots
