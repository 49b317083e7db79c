/-
Registers always hold finite numbers.

An instruction that goes on writes one number to its destination, or nothing at all; every other end of it leaves the
file as it is. A write turns what is not finite into zero, so whatever an instruction computes from cells, constants and
other registers, NaN and infinities do not get into the file. A division is made only by a divisor that is not a zero.

`Instruction.after_cases`: what an instruction can do to the registers; all else about it follows from this.
`Program.allFinite_headAfter?`: the registers after any number of dispatches.
`Program.registers_stay_finite`: the file, and what each instruction reads and changes in it, at every point of a run.
-/
import TradingRobots.Proofs.Execution.Dispatch
import TradingRobots.Proofs.Number.Neutral

namespace TradingRobots

open Binary64 (IsZero)

/-! ## Files -/

namespace Registers

/-- so many registers, each with a finite number -/
structure Filled (r : Registers) (count : Nat) : Prop where
  length : r.numbers.length = count
  finite : ∀ x ∈ r.numbers, x.isFinite = true

/-- a finite number in every place -/
def AllFinite (r : Registers) : Prop :=
  ∀ place, (r.numberAt place).isFinite = true

variable {r : Registers}

theorem isFinite_settled (x : Float) : (settled x).isFinite = true := by
  rw [settled]
  split
  next h => exact h
  next => rfl

theorem allFinite_blank (count : Nat) : (blank count).AllFinite := by
  intro place
  have hzero : (blank count).numberAt place = 0.0 := rfl
  rw [hzero]
  rfl

/-- a write keeps the numbers finite, whatever is written -/
theorem AllFinite.write (h : r.AllFinite) (register : Nat) (x : Float) : (r.write register x).AllFinite := by
  intro place
  rw [numberAt_write]
  split
  · exact isFinite_settled x
  · exact h place

theorem AllFinite.read (h : r.AllFinite) (register : Nat) : (r.read register).isFinite = true :=
  h (register % r.size)

theorem AllFinite.filled (h : r.AllFinite) : r.Filled r.size := by
  refine ⟨by rw [numbers, List.length_map, List.length_range], fun x hx => ?_⟩
  obtain ⟨place, -, rfl⟩ := List.mem_map.1 hx
  exact h place

end Registers

/-! ## Instructions -/

namespace Instruction

/-- the register that an instruction writes; jumps and emissions write none -/
def destination? : Instruction → Option Nat
  | data _ _ register => some register
  | scan _ _ _ register => some register
  | constant _ _ register => some register
  | pair _ _ target => some target
  | alter _ register => some register
  | jump _ => none
  | jumpIf .. => none
  | jumpIfGreater .. => none
  | emit _ => none
  | emitSignOf _ => none
  | emitIfGreater .. => none

/-- the registers after an instruction, however it ends -/
def after (w : Window) (r : Registers) (i : Instruction) : Registers :=
  match i.step w r with
  | .next r => r
  | _ => r

variable {w : Window} {r : Registers}

theorem after_of_next {i : Instruction} {r' : Registers} (h : i.step w r = .next r') : i.after w r = r' := by
  rw [after, h]

/-- **An instruction writes one number to its destination, or nothing.** -/
theorem after_cases (w : Window) (r : Registers) (i : Instruction) :
    i.after w r = r ∨ ∃ register x, i.destination? = some register ∧ i.after w r = r.write register x := by
  cases i with
  | data use source register =>
    cases hcell : w.cell? source with
    | none =>
      left
      simp only [after, step, hcell]
    | some x =>
      exact .inr ⟨register, use.apply (r.read register) x, rfl, after_of_next (by simp only [step, hcell])⟩
  | scan use column length register =>
    cases hscan : w.scan? use column length with
    | none =>
      left
      simp only [after, step, hscan]
    | some x => exact .inr ⟨register, x, rfl, after_of_next (by simp only [step, hscan])⟩
  | constant use value register => exact .inr ⟨register, _, rfl, rfl⟩
  | pair use source target =>
    cases huse : use.apply? (r.read target) (r.read source) with
    | none => exact .inl (after_of_next (by simp only [step, huse]))
    | some x => exact .inr ⟨target, x, rfl, after_of_next (by simp only [step, huse])⟩
  | alter use register => exact .inr ⟨register, _, rfl, rfl⟩
  | jumpIf test register target =>
    left
    by_cases htest : test.holds (r.read register) = true
    · simp only [after, step, if_pos htest]
    · simp only [after, step, if_neg htest]
  | jumpIfGreater left right target =>
    left
    by_cases hgreater : r.read left > r.read right
    · simp only [after, step, if_pos hgreater]
    · simp only [after, step, if_neg hgreater]
  | _ => exact .inl rfl

/-- an instruction leaves the number of registers, however it ends -/
theorem size_after (w : Window) (r : Registers) (i : Instruction) : (i.after w r).size = r.size := by
  rcases i.after_cases w r with h | ⟨register, x, -, h⟩
  · rw [h]
  · rw [h, Registers.size_write]

/-- **An instruction keeps the numbers finite**, whatever it computes. -/
theorem allFinite_after (w : Window) (h : r.AllFinite) (i : Instruction) : (i.after w r).AllFinite := by
  rcases i.after_cases w r with hafter | ⟨register, x, -, hafter⟩
  · rwa [hafter]
  · rw [hafter]
    exact h.write register x

/-- what an instruction may do to the registers it runs on -/
structure Confined (i : Instruction) (w : Window) (r : Registers) : Prop where
  size : (i.after w r).size = r.size
  /-- only the number at the destination may change -/
  elsewhere : ∀ place, (∀ register ∈ i.destination?, place ≠ register % r.size) →
    (i.after w r).numberAt place = r.numberAt place
  /-- what has no destination, as jumps and emissions, changes nothing -/
  unchanged : i.destination? = none → i.after w r = r
  /-- nor does a division by a register that holds a zero -/
  undivided : ∀ source target, i = .pair .divide source target → IsZero (r.read source) → i.step w r = .next r
  /-- any other division writes the quotient -/
  divided : ∀ source target, i = .pair .divide source target → ¬IsZero (r.read source) →
    i.step w r = .next (r.write target (r.read target / r.read source))

/-- **Every instruction keeps to its destination**, on every window and every file. -/
theorem confined (w : Window) (r : Registers) (i : Instruction) : i.Confined w r := by
  refine
    { size := i.size_after w r
      elsewhere := fun place hplace => ?_
      unchanged := fun hnone => ?_
      undivided := ?_
      divided := ?_ }
  · rcases i.after_cases w r with h | ⟨register, x, hdestination, h⟩
    · rw [h]
    · rw [h, Registers.numberAt_write, if_neg]
      rintro ⟨-, hequal⟩
      exact hplace register hdestination hequal
  · rcases i.after_cases w r with h | ⟨register, x, hdestination, -⟩
    · exact h
    · rw [hnone] at hdestination
      cases hdestination
  · rintro source target rfl hzero
    simp only [step, PairUse.apply?, if_pos (Binary64.beq_zero_iff.2 hzero)]
  · rintro source target rfl hzero
    simp only [step, PairUse.apply?, if_neg (mt Binary64.beq_zero_iff.1 hzero)]

end Instruction

/-! ## Runs -/

namespace Program

variable {p : Program} {w : Window}

/-- **After any number of dispatches** the file has the program's registers, all of them with finite numbers. -/
theorem allFinite_headAfter? {n : Nat} {h : Head} (hh : p.headAfter? w n = some h) :
    h.registers.size = p.registers ∧ h.registers.AllFinite := by
  induction n generalizing h with
  | zero =>
    cases hh
    exact ⟨rfl, Registers.allFinite_blank _⟩
  | succ n ih =>
    obtain ⟨g, i, hg, -, hstep⟩ := headAfter?_succ_eq_some hh
    obtain ⟨hsize, hfinite⟩ := ih hg
    rcases hstep with ⟨hnext, -⟩ | ⟨target, -, hregisters, -⟩
    · rw [← Instruction.after_of_next hnext]
      exact ⟨(i.size_after w g.registers).trans hsize, i.allFinite_after w hfinite⟩
    · rw [hregisters]
      exact ⟨hsize, hfinite⟩

/-- before a head that was reached there are heads at which an instruction was dispatched -/
theorem exists_dispatch_of_lt {n m : Nat} {last : Head} (hh : p.headAfter? w m = some last) (hlt : n < m) :
    ∃ h i, p.headAfter? w n = some h ∧ p.instructions[h.position]? = some i := by
  induction m generalizing last with
  | zero => omega
  | succ m ih =>
    obtain ⟨g, i, hg, hi, -⟩ := headAfter?_succ_eq_some hh
    rcases Nat.lt_succ_iff_lt_or_eq.1 hlt with hbefore | rfl
    · exact ih hg hbefore
    · exact ⟨g, i, hg, hi⟩

/-- **Each dispatch of a run is made at a head that the machine without a budget reaches.** -/
theorem Ends.exists_dispatch {budget n : Nat} {e : Execution} (he : p.Ends w budget e) (hn : n < e.dispatched) :
    ∃ h i, p.headAfter? w n = some h ∧ p.instructions[h.position]? = some i := by
  cases he with
  | ranOffEnd _ hh _ => exact exists_dispatch_of_lt hh hn
  | budgetExhausted hh _ => exact exists_dispatch_of_lt hh hn
  | emitted _ hh hi _ =>
    rcases Nat.lt_succ_iff_lt_or_eq.1 hn with hbefore | rfl
    · exact exists_dispatch_of_lt hh hbefore
    · exact ⟨_, _, hh, hi⟩
  | missingData _ hh hi _ =>
    rcases Nat.lt_succ_iff_lt_or_eq.1 hn with hbefore | rfl
    · exact exists_dispatch_of_lt hh hbefore
    · exact ⟨_, _, hh, hi⟩

/-- **Registers stay finite.** Whatever the constants of a program and the cells of a window are, at every point of a run
the file has as many registers as the program counts, and each holds a finite number. So no register is read as NaN, and
the difference of two registers is not NaN either, which leaves none to comparisons, tests of a sign and jumps. Each
instruction changes at most its destination, and jumps and emissions change nothing. A division is made by a number that
is not a zero, and changes nothing if its divisor holds one. Every dispatch of a run with a budget happens at such a
point, and the registers after it, the last one's too, are such a file again. -/
theorem registers_stay_finite (p : Program) (w : Window) :
    (∀ n h, p.headAfter? w n = some h →
      h.registers.Filled p.registers ∧
      (∀ register, (h.registers.read register).isNaN = false) ∧
      ∀ left right, (h.registers.read left - h.registers.read right).isNaN = false) ∧
    (∀ (i : Instruction) (r : Registers), i.Confined w r) ∧
    ∀ factor n, n < (p.execute factor w).dispatched → ∃ h i, p.headAfter? w n = some h ∧
      p.instructions[h.position]? = some i ∧ (i.after w h.registers).Filled p.registers := by
  refine ⟨fun n h hh => ?_, fun i r => i.confined w r, fun factor n hn => ?_⟩
  · obtain ⟨hsize, hfinite⟩ := allFinite_headAfter? hh
    refine ⟨hsize ▸ hfinite.filled, fun register => ?_, fun left right => ?_⟩
    · exact (Binary64.isNumber_of_finite (hfinite.read register)).isNaN_eq
    · exact (Binary64.isNumber_sub (hfinite.read left) (hfinite.read right)).isNaN_eq
  · obtain ⟨h, i, hh, hi⟩ := (ends_execute p factor w).exists_dispatch hn
    obtain ⟨hsize, hfinite⟩ := allFinite_headAfter? hh
    have hafter := (i.allFinite_after w hfinite).filled
    rw [i.size_after, hsize] at hafter
    exact ⟨h, i, hh, hi, hafter⟩

/-- an infinite constant, an average over NaN, the logarithm of zero and a product too large to be stored; then a
division by what they left -/
theorem registers_stay_finite_collapse :
    let p : Program :=
      ⟨[.constant .move Binary64.infinity 0, .scan .average 0 2 1, .alter .logarithm 1, .constant .add 1e300 2,
        .pair .multiply 2 2, .pair .divide 2 1, .emitIfGreater 1 2], 3⟩
    let w : Window := ⟨#[#[1.0, Binary64.notANumber]], 1, 2, none⟩
    (∃ h, p.headAfter? w 6 = some h ∧ h.registers.Filled 3 ∧ (h.registers.read 2).isNaN = false) ∧
      (∃ h, p.headAfter? w 5 = some h ∧ (Instruction.pair .divide 2 1).step w h.registers = .next h.registers) ∧
      (p.execute 1 w).dispatched = 7 ∧
      ∃ h i, p.headAfter? w 6 = some h ∧ p.instructions[h.position]? = some i ∧
        (i.after w h.registers).Filled 3 := by
  intro p w
  obtain ⟨hheads, hconfined, hruns⟩ := registers_stay_finite p w
  have hdispatched : (p.execute 1 w).dispatched = 7 := by decide +kernel
  have hsix : (p.headAfter? w 6).isSome = true := by decide +kernel
  have hfive : (p.headAfter? w 5).map (fun h => h.registers.read 2 == 0.0) = some true := by decide +kernel
  obtain ⟨last, hlast⟩ := Option.isSome_iff_exists.1 hsix
  obtain ⟨h, hh, hdivisor⟩ := Option.map_eq_some_iff.1 hfive
  obtain ⟨hfilled, hnumber, -⟩ := hheads 6 last hlast
  have hzero : IsZero (h.registers.read 2) := Binary64.beq_zero_iff.1 hdivisor
  exact ⟨⟨last, hlast, hfilled, hnumber 2⟩,
    ⟨h, hh, (hconfined (.pair .divide 2 1) h.registers).undivided 2 1 rfl hzero⟩, hdispatched,
    hruns 1 6 (by rw [hdispatched]; decide)⟩

end Program

end TradingRobots
