/-
The machine without a budget, and how a budgeted run relates to it.

A `Head` is where the machine stands when it looks for its next instruction. `headAfter?` is the head after a number of
dispatches, as long as each of them goes on; it knows no budget. `Ends` says how a run that may use up to a budget ends:
the position has left the program, the budget is used up inside it, or an instruction emits or lacks data.

`ends_iff_execute`: the run of a program ends in exactly one of these ways, the one that `execute` reports.
-/
import TradingRobots.Execution
import Mathlib.Tactic

namespace TradingRobots

/-- an instruction leaves the number of registers -/
theorem Instruction.size_of_step {w : Window} {r r' : Registers} {i : Instruction} (h : i.step w r = .next r') :
    r'.size = r.size := by
  unfold step at h
  grind [Registers.size_write]

namespace Program

/-! ## The machine without a budget -/

/-- where the machine stands when it looks for its next instruction -/
structure Head where
  registers : Registers
  position : Nat
deriving DecidableEq, Repr

/-- one dispatch, if there is an instruction and it goes on -/
def advance? (p : Program) (w : Window) (h : Head) : Option Head := do
  match (← p.instructions[h.position]?).step w h.registers with
  | .next r => some ⟨r, h.position + 1⟩
  | .jump target => some ⟨h.registers, target % p.length⟩
  | _ => none

/-- the head after so many dispatches -/
def headAfter? (p : Program) (w : Window) : Nat → Option Head
  | 0 => some ⟨.blank p.registers, 0⟩
  | n + 1 => (p.headAfter? w n).bind (p.advance? w)

variable {p : Program} {w : Window}

theorem headAfter?_succ (n : Nat) : p.headAfter? w (n + 1) = (p.headAfter? w n).bind (p.advance? w) := rfl

theorem headAfter?_next {n : Nat} {h : Head} {i : Instruction} {r : Registers} (hh : p.headAfter? w n = some h)
    (hi : p.instructions[h.position]? = some i) (hs : i.step w h.registers = .next r) :
    p.headAfter? w (n + 1) = some ⟨r, h.position + 1⟩ := by
  simp [headAfter?_succ, hh, advance?, hi, hs]

theorem headAfter?_jump {n target : Nat} {h : Head} {i : Instruction} (hh : p.headAfter? w n = some h)
    (hi : p.instructions[h.position]? = some i) (hs : i.step w h.registers = .jump target) :
    p.headAfter? w (n + 1) = some ⟨h.registers, target % p.length⟩ := by
  simp [headAfter?_succ, hh, advance?, hi, hs]

/-- a head that was reached by a dispatch has an earlier head, with an instruction that went on -/
theorem headAfter?_succ_eq_some {n : Nat} {h : Head} (hh : p.headAfter? w (n + 1) = some h) :
    ∃ g i, p.headAfter? w n = some g ∧ p.instructions[g.position]? = some i ∧
      (i.step w g.registers = .next h.registers ∧ h.position = g.position + 1 ∨
        ∃ target, i.step w g.registers = .jump target ∧ h.registers = g.registers ∧
          h.position = target % p.length) := by
  rw [headAfter?_succ] at hh
  obtain ⟨g, hg, hadv⟩ := Option.bind_eq_some_iff.1 hh
  obtain ⟨i, hi, hadv⟩ := Option.bind_eq_some_iff.1 hadv
  refine ⟨g, i, hg, hi, ?_⟩
  cases hs : i.step w g.registers with
  | next r =>
    simp only [hs, Option.some.injEq] at hadv
    subst hadv
    exact Or.inl ⟨rfl, rfl⟩
  | jump target =>
    simp only [hs, Option.some.injEq] at hadv
    subst hadv
    exact Or.inr ⟨target, rfl, rfl, rfl⟩
  | emit s => simp [hs] at hadv
  | missing => simp [hs] at hadv

/-- no head follows one at which the machine stops -/
theorem headAfter?_eq_none_of_stop {n m : Nat} {h : Head} (hh : p.headAfter? w n = some h)
    (hstop : p.advance? w h = none) (hm : n < m) : p.headAfter? w m = none := by
  induction m with
  | zero => omega
  | succ m ih =>
    rw [headAfter?_succ]
    rcases Nat.lt_succ_iff_lt_or_eq.1 hm with hlt | rfl
    · simp [ih hlt]
    · simp [hh, hstop]

/-- a head that a later dispatch left has an instruction that went on -/
theorem advance?_ne_none {n m : Nat} {h g : Head} (hh : p.headAfter? w n = some h) (hg : p.headAfter? w m = some g)
    (hm : n < m) : p.advance? w h ≠ none := by
  intro hstop
  rw [headAfter?_eq_none_of_stop hh hstop hm] at hg
  cases hg

theorem advance?_of_emit {h : Head} {i : Instruction} {s : Signal} (hi : p.instructions[h.position]? = some i)
    (hs : i.step w h.registers = .emit s) : p.advance? w h = none := by
  simp [advance?, hi, hs]

theorem advance?_of_missing {h : Head} {i : Instruction} (hi : p.instructions[h.position]? = some i)
    (hs : i.step w h.registers = .missing) : p.advance? w h = none := by
  simp [advance?, hi, hs]

/-! ## How a run with a budget ends -/

/-- the ways a run may end that dispatches up to a budget -/
inductive Ends (p : Program) (w : Window) (budget : Nat) : Execution → Prop where
  /-- the position has left the program; this is looked at before the budget -/
  | ranOffEnd {n : Nat} {h : Head} (hn : n ≤ budget) (hh : p.headAfter? w n = some h) (ho : p.length ≤ h.position) :
    Ends p w budget ⟨.out, n, .ranOffEnd⟩
  /-- the budget is used up with the position inside the program -/
  | budgetExhausted {h : Head} (hh : p.headAfter? w budget = some h) (hi : h.position < p.length) :
    Ends p w budget ⟨.out, budget, .budgetExhausted⟩
  | emitted {n : Nat} {h : Head} {i : Instruction} {s : Signal} (hn : n < budget) (hh : p.headAfter? w n = some h)
    (hi : p.instructions[h.position]? = some i) (hs : i.step w h.registers = .emit s) :
    Ends p w budget ⟨s, n + 1, .emitted⟩
  | missingData {n : Nat} {h : Head} {i : Instruction} (hn : n < budget) (hh : p.headAfter? w n = some h)
    (hi : p.instructions[h.position]? = some i) (hs : i.step w h.registers = .missing) :
    Ends p w budget ⟨.out, n + 1, .missingData⟩

/-- from a head that was reached, the run ends as the unbudgeted machine allows -/
theorem ends_runFrom {left n : Nat} {r : Registers} {position : Nat} (hh : p.headAfter? w n = some ⟨r, position⟩) :
    p.Ends w (n + left) (runFrom p.instructions.toArray w left n r position) := by
  induction left generalizing n r position with
  | zero =>
    rw [runFrom]
    cases hi : p.instructions[position]? with
    | none =>
      simp only [List.getElem?_toArray, hi]
      exact .ranOffEnd (Nat.le_refl n) hh (List.getElem?_eq_none_iff.1 hi)
    | some i =>
      simp only [List.getElem?_toArray, hi]
      exact .budgetExhausted hh (List.getElem?_eq_some_iff.1 hi).1
  | succ left ih =>
    rw [runFrom]
    have hlater : n + (left + 1) = n + 1 + left := by omega
    cases hi : p.instructions[position]? with
    | none =>
      simp only [List.getElem?_toArray, hi]
      exact .ranOffEnd (Nat.le_add_right n _) hh (List.getElem?_eq_none_iff.1 hi)
    | some i =>
      simp only [List.getElem?_toArray, hi]
      cases hs : i.step w r with
      | next r' =>
        rw [hlater]
        exact ih (headAfter?_next hh hi hs)
      | jump target =>
        rw [hlater]
        simpa [length] using ih (headAfter?_jump hh hi hs)
      | emit s => exact .emitted (by omega) hh hi hs
      | missing => exact .missingData (by omega) hh hi hs

theorem ends_execute (p : Program) (factor : Nat) (w : Window) : p.Ends w (p.budget factor) (p.execute factor w) := by
  have h : p.Ends w (0 + p.budget factor) (p.execute factor w) := ends_runFrom rfl
  rwa [Nat.zero_add] at h

/-- a run passes through every head that its budget reaches -/
theorem execute_eq_runFrom {factor n : Nat} {h : Head} (hh : p.headAfter? w n = some h) (hn : n ≤ p.budget factor) :
    p.execute factor w = runFrom p.instructions.toArray w (p.budget factor - n) n h.registers h.position := by
  induction n generalizing h with
  | zero =>
    cases hh
    rfl
  | succ n ih =>
    obtain ⟨g, i, hg, hi, hstep⟩ := headAfter?_succ_eq_some hh
    rw [ih hg (by omega), show p.budget factor - n = p.budget factor - (n + 1) + 1 by omega, runFrom]
    simp only [List.getElem?_toArray, hi]
    rcases hstep with ⟨hs, hp⟩ | ⟨target, hs, hr, hp⟩
    · simp [hs, hp]
    · simp [hs, hr, hp, length]

/-- **A run ends in exactly one way.** What `execute` gives is the only end that the unbudgeted machine and the budget
allow. -/
theorem ends_iff_execute {factor : Nat} {e : Execution} :
    p.Ends w (p.budget factor) e ↔ p.execute factor w = e := by
  constructor
  · intro he
    cases he with
    | ranOffEnd hn hh ho =>
      rw [execute_eq_runFrom hh hn, runFrom]
      simp [List.getElem?_eq_none ho]
    | budgetExhausted hh hi =>
      rw [execute_eq_runFrom hh (Nat.le_refl _), Nat.sub_self, runFrom]
      simp [List.getElem?_eq_getElem hi]
    | @emitted n h i s hn hh hi hs =>
      rw [execute_eq_runFrom hh (Nat.le_of_lt hn), show p.budget factor - n = p.budget factor - (n + 1) + 1 by omega,
        runFrom]
      simp [hi, hs]
    | @missingData n h i hn hh hi hs =>
      rw [execute_eq_runFrom hh (Nat.le_of_lt hn), show p.budget factor - n = p.budget factor - (n + 1) + 1 by omega,
        runFrom]
      simp [hi, hs]
  · rintro rfl
    exact ends_execute p factor w

end Program

end TradingRobots
