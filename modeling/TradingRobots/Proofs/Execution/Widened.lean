/-
More registers than a program names change nothing.

Registers are taken modulo the size of the file, so a register that both of two files have means the same in both. A
file is part of another one when the other holds its numbers in the same registers, and perhaps has more. An instruction
that names registers of the part only does the same on the whole: it goes on, jumps, emits or lacks data on both, and the
files it leaves are part and whole again. So a run never tells the two files apart, however often it loops.

Crossing gives its children the larger of two register counts. What a child inherits names registers of a parent only, so
it means what it meant there, and parents that are too short to be cut have children that run as they do. Memory has to
hold the larger file, which is all that an addition of registers can spoil.

`Instruction.step_partOf`: one instruction on part and whole.
`Program.runFrom_partOf`: a run on part and whole.
`Program.namesOwnRegisters_of_admits`: programs within the bounds of a population name their own registers only.
`extra_registers_neutral`: programs with registers added, and the children of a crossing.
`registers_added_beyond_memory`: a file can be too large for memory, so the bound on the registers is needed.
-/
import TradingRobots.Proofs.Execution.Dispatch
import TradingRobots.Proofs.Program.Variation

namespace TradingRobots

/-! ## Files -/

namespace Registers

/-- the other file has the registers of this one with the same numbers, and perhaps more -/
structure PartOf (r s : Registers) : Prop where
  size_le : r.size ≤ s.size
  same : ∀ place < r.size, s.numberAt place = r.numberAt place

variable {r s : Registers}

theorem partOf_blank {n m : Nat} (h : n ≤ m) : (blank n).PartOf (blank m) :=
  ⟨h, fun _ _ => rfl⟩

/-- a register of the part holds in the whole what it holds in the part -/
theorem PartOf.read_eq (h : r.PartOf s) {register : Nat} (hlt : register < r.size) :
    s.read register = r.read register := by
  rw [read, read, Nat.mod_eq_of_lt hlt, Nat.mod_eq_of_lt (hlt.trans_le h.size_le)]
  exact h.same register hlt

/-- what is written to a register of the part keeps part and whole -/
theorem PartOf.write (h : r.PartOf s) {register : Nat} (hlt : register < r.size) (x : Float) :
    (r.write register x).PartOf (s.write register x) := by
  have hwhole : register < s.size := hlt.trans_le h.size_le
  refine ⟨?_, fun place hplace => ?_⟩
  · rw [size_write, size_write]
    exact h.size_le
  · rw [size_write] at hplace
    rw [numberAt_write, numberAt_write, Nat.mod_eq_of_lt hlt, Nat.mod_eq_of_lt hwhole, h.same place hplace]
    simp only [hlt.pos, hwhole.pos, true_and]

end Registers

/-! ## Instructions -/

/-- steps that go the same way, and leave files that are part and whole -/
inductive Step.PartOf : Step → Step → Prop where
  | next {r s : Registers} (h : r.PartOf s) : Step.PartOf (.next r) (.next s)
  | jump (target : Nat) : Step.PartOf (.jump target) (.jump target)
  | emit (signal : Signal) : Step.PartOf (.emit signal) (.emit signal)
  | missing : Step.PartOf .missing .missing

namespace Instruction

/-- the registers that an instruction names, whether it reads or writes them -/
def registerOperands : Instruction → List Nat
  | data _ _ register => [register]
  | scan _ _ _ register => [register]
  | constant _ _ register => [register]
  | pair _ source target => [source, target]
  | alter _ register => [register]
  | jump _ => []
  | jumpIf _ register _ => [register]
  | jumpIfGreater left right _ => [left, right]
  | emit _ => []
  | emitSignOf register => [register]
  | emitIfGreater left right => [left, right]

/-- of two sizes of files the second is not smaller, and where the files are part and whole the instruction does the
same on both, whatever the window -/
def MeansSame (i : Instruction) (part whole : Nat) : Prop :=
  part ≤ whole ∧
    ∀ (w : Window) (r s : Registers), r.size = part → s.size = whole → r.PartOf s → (i.step w r).PartOf (i.step w s)

/-- **An instruction that names registers of the part only does the same on the whole.** -/
theorem step_partOf (w : Window) {r s : Registers} (h : r.PartOf s) {i : Instruction}
    (hi : ∀ register ∈ i.registerOperands, register < r.size) : (i.step w r).PartOf (i.step w s) := by
  cases i with
  | data use source register =>
    have hlt : register < r.size := hi register List.mem_cons_self
    simp only [step, h.read_eq hlt]
    cases w.cell? source with
    | none => exact .missing
    | some x => exact .next (h.write hlt _)
  | scan use column length register =>
    have hlt : register < r.size := hi register List.mem_cons_self
    simp only [step]
    cases w.scan? use column length with
    | none => exact .missing
    | some x => exact .next (h.write hlt x)
  | constant use value register =>
    have hlt : register < r.size := hi register List.mem_cons_self
    simp only [step, h.read_eq hlt]
    exact .next (h.write hlt _)
  | pair use source target =>
    have hsource : source < r.size := hi source List.mem_cons_self
    have htarget : target < r.size := hi target (List.mem_cons_of_mem _ List.mem_cons_self)
    simp only [step, h.read_eq hsource, h.read_eq htarget]
    cases use.apply? (r.read target) (r.read source) with
    | none => exact .next h
    | some x => exact .next (h.write htarget x)
  | alter use register =>
    have hlt : register < r.size := hi register List.mem_cons_self
    simp only [step, h.read_eq hlt]
    exact .next (h.write hlt _)
  | jump target => exact .jump target
  | jumpIf test register target =>
    simp only [step, h.read_eq (hi register List.mem_cons_self)]
    split
    · exact .jump target
    · exact .next h
  | jumpIfGreater left right target =>
    have hright : right < r.size := hi right (List.mem_cons_of_mem _ List.mem_cons_self)
    simp only [step, h.read_eq (hi left List.mem_cons_self), h.read_eq hright]
    split
    · exact .jump target
    · exact .next h
  | emit signal => exact .emit signal
  | emitSignOf register =>
    simp only [step, h.read_eq (hi register List.mem_cons_self)]
    exact .emit _
  | emitIfGreater left right =>
    have hright : right < r.size := hi right (List.mem_cons_of_mem _ List.mem_cons_self)
    simp only [step, h.read_eq (hi left List.mem_cons_self), h.read_eq hright]
    exact .emit _

/-- operands in range name registers that there are -/
theorem registerOperands_lt {i : Instruction} {registers columns maximumOffset : Nat}
    (h : i.isWithin registers columns maximumOffset = true) : ∀ register ∈ i.registerOperands, register < registers := by
  cases i <;> simp_all [isWithin, registerOperands]

end Instruction

/-! ## Runs -/

namespace Program

/-- a program names registers of its own file only -/
def NamesOwnRegisters (p : Program) : Prop :=
  ∀ i ∈ p.instructions, ∀ register ∈ i.registerOperands, register < p.registers

instance (p : Program) : Decidable p.NamesOwnRegisters := by
  unfold NamesOwnRegisters
  infer_instance

/-- programs that keep the bounds of a population name their own registers only -/
theorem namesOwnRegisters_of_admits {bounds : ProgramBounds} {p : Program} (h : bounds.Admits p) :
    p.NamesOwnRegisters :=
  fun i hi => Instruction.registerOperands_lt (h.operands i hi)

/-- **A run never tells part and whole apart**, from any position and with any budget left. -/
theorem runFrom_partOf {code : Array Instruction} (w : Window) (left n : Nat) {r s : Registers} (position : Nat)
    (hcode : ∀ i ∈ code, ∀ register ∈ i.registerOperands, register < r.size) (h : r.PartOf s) :
    runFrom code w left n s position = runFrom code w left n r position := by
  induction left generalizing n r s position with
  | zero =>
    rw [runFrom, runFrom]
  | succ left ih =>
    rw [runFrom, runFrom]
    cases hi : code[position]? with
    | none => rfl
    | some i =>
      have hstep := i.step_partOf w h (hcode i (Array.mem_of_getElem? hi))
      dsimp only
      generalize hr : i.step w r = a at hstep ⊢
      generalize i.step w s = b at hstep ⊢
      cases hstep with
      | next hnext =>
        have hsize := Instruction.size_of_step hr
        exact ih (n + 1) (position + 1) (by rwa [hsize]) hnext
      | jump target => exact ih (n + 1) (target % code.size) hcode h
      | emit signal => rfl
      | missing => rfl

variable {p : Program} {m : Nat}

/-- a program runs the same on a larger file -/
theorem execute_withRegisters (hp : p.NamesOwnRegisters) (hm : p.registers ≤ m) (factor : Nat) (w : Window) :
    { p with registers := m }.execute factor w = p.execute factor w := by
  refine runFrom_partOf w _ 0 0 (fun i hi => ?_) (Registers.partOf_blank hm)
  exact hp i (Array.mem_toList_iff.2 hi)

/-- if memory can hold the larger file, the run breaks down on both files or on neither -/
theorem breaksDown_withRegisters (hp : p.NamesOwnRegisters) (hm : p.registers ≤ m) (hmemory : m ≤ mostRegisters)
    (factor : Nat) (w : Window) : { p with registers := m }.breaksDown factor w = p.breaksDown factor w := by
  have hlooks : { p with registers := m }.looksForData factor w = p.looksForData factor w := by
    rw [looksForData, looksForData, execute_withRegisters hp hm]
  simp [breaksDown, isRunnable, hlooks, hmemory, hm.trans hmemory]

end Program

/-! ## Crossings -/

namespace Crossing

open TradingRobots.Random

/-- parents too short to be cut are handed on, with the larger of the two files -/
theorem cross_of_short {first second : Program} (h : ¬(2 ≤ first.length ∧ 2 ≤ second.length)) (s : Stream) :
    (cross first second s).1 =
      ({ first with registers := max first.registers second.registers },
        { second with registers := max first.registers second.registers }) := by
  have hshort : min first.length second.length ≤ 1 := by omega
  simp only [cross, if_pos hshort]

/-- what is inherited means on a file that is not smaller what it meant to the parent -/
theorem meansSame_of_mem {parent : Program} {i : Instruction} {registers : Nat} (hp : parent.NamesOwnRegisters)
    (hi : i ∈ parent.instructions) (hle : parent.registers ≤ registers) : i.MeansSame parent.registers registers := by
  refine ⟨hle, fun w r s hr _ hpart => i.step_partOf w hpart ?_⟩
  rw [hr]
  exact hp i hi

/-- every instruction of a child means what it meant to the parent it comes from -/
theorem meansSame_cross {first second child : Program} {s : Stream} (hfirst : first.NamesOwnRegisters)
    (hsecond : second.NamesOwnRegisters)
    (hchild : child = (cross first second s).1.1 ∨ child = (cross first second s).1.2) {i : Instruction}
    (hi : i ∈ child.instructions) :
    i ∈ first.instructions ∧ i.MeansSame first.registers child.registers ∨
      i ∈ second.instructions ∧ i.MeansSame second.registers child.registers := by
  obtain ⟨hone, htwo⟩ := registers_cross first second s
  have hregisters : child.registers = max first.registers second.registers := by
    rcases hchild with rfl | rfl
    · exact hone
    · exact htwo
  have hmem : i ∈ first.instructions ∨ i ∈ second.instructions := by
    rcases hchild with rfl | rfl
    · exact mem_cross (.inl hi)
    · exact mem_cross (.inr hi)
  rw [hregisters]
  rcases hmem with hmem | hmem
  · exact .inl ⟨hmem, meansSame_of_mem hfirst hmem (Nat.le_max_left _ _)⟩
  · exact .inr ⟨hmem, meansSame_of_mem hsecond hmem (Nat.le_max_right _ _)⟩

/-- **Registers that a program does not name are neutral.** A program that names registers of its own file only gives the
same signal on any larger file, after as many dispatches and for the same reason, on every window and under every factor;
and if memory can hold the larger file, it breaks down on both files or on neither. So the larger of two register counts
changes the meaning of no instruction that a child of a crossing inherits, and if a parent is too short to be cut, both
children run as their parents do. -/
theorem extra_registers_neutral :
    (∀ (p : Program) (m : Nat), p.NamesOwnRegisters → p.registers ≤ m → ∀ (factor : Nat) (w : Window),
      { p with registers := m }.execute factor w = p.execute factor w ∧
        (m ≤ Program.mostRegisters → { p with registers := m }.breaksDown factor w = p.breaksDown factor w)) ∧
    ∀ (first second : Program) (s : Stream), first.NamesOwnRegisters → second.NamesOwnRegisters →
      let children := (cross first second s).1
      (∀ child, child = children.1 ∨ child = children.2 → ∀ i ∈ child.instructions,
        i ∈ first.instructions ∧ i.MeansSame first.registers child.registers ∨
          i ∈ second.instructions ∧ i.MeansSame second.registers child.registers) ∧
      (¬(2 ≤ first.length ∧ 2 ≤ second.length) → ∀ (factor : Nat) (w : Window),
        (children.1.execute factor w = first.execute factor w ∧
          children.2.execute factor w = second.execute factor w) ∧
        (first.isRunnable = true → second.isRunnable = true →
          children.1.breaksDown factor w = first.breaksDown factor w ∧
            children.2.breaksDown factor w = second.breaksDown factor w)) := by
  refine ⟨fun p m hp hm factor w => ?_, fun first second s hfirst hsecond => ⟨?_, fun hshort factor w => ?_⟩⟩
  · exact ⟨Program.execute_withRegisters hp hm factor w,
      fun hmemory => Program.breaksDown_withRegisters hp hm hmemory factor w⟩
  · exact fun child hchild i hi => meansSame_cross hfirst hsecond hchild hi
  · have hleft : first.registers ≤ max first.registers second.registers := Nat.le_max_left _ _
    have hright : second.registers ≤ max first.registers second.registers := Nat.le_max_right _ _
    rw [cross_of_short hshort]
    refine ⟨⟨?_, ?_⟩, fun hrunFirst hrunSecond => ?_⟩
    · exact Program.execute_withRegisters hfirst hleft factor w
    · exact Program.execute_withRegisters hsecond hright factor w
    · have hmemory : max first.registers second.registers ≤ Program.mostRegisters :=
        Nat.max_le.2 ⟨of_decide_eq_true hrunFirst, of_decide_eq_true hrunSecond⟩
      exact ⟨Program.breaksDown_withRegisters hfirst hleft hmemory factor w,
        Program.breaksDown_withRegisters hsecond hright hmemory factor w⟩

/-- a loop on two registers, a program of one instruction on seven and one of two: the loop and the short program run
alike on the larger file, the children of their crossing as they do, and a child that inherits the jump of the loop runs
it on seven registers -/
theorem extra_registers_neutral_loop :
    let loop : Program := ⟨[.data .add ⟨0, 1⟩ 0, .alter .squareRoot 0, .jumpIfGreater 0 1 0, .emitSignOf 1], 2⟩
    let short : Program := ⟨[.emitSignOf 6], 7⟩
    let other : Program := ⟨[.constant .move 1.0 6, .emit .out], 7⟩
    let w : Window := ⟨#[#[1.0, 2.0, 1.5]], 2, 2, none⟩
    let s : Stream := .ofWords fun _ => 0
    loop.NamesOwnRegisters ∧ short.NamesOwnRegisters ∧ other.NamesOwnRegisters ∧
      (loop.execute 4 w).termination = .budgetExhausted ∧
      ({ loop with registers := 7 }.execute 4 w = loop.execute 4 w ∧
        { loop with registers := 7 }.breaksDown 4 w = loop.breaksDown 4 w) ∧
      (cross loop short s).1.1.execute 4 w = loop.execute 4 w ∧
      (cross loop short s).1.2.breaksDown 4 w = short.breaksDown 4 w ∧
      (cross loop other s).1.2.registers = 7 ∧
      (Instruction.jumpIfGreater 0 1 0).MeansSame 2 (cross loop other s).1.2.registers := by
  intro loop short other w s
  have hloop : loop.NamesOwnRegisters := by decide
  have hshort : short.NamesOwnRegisters := by decide
  have hother : other.NamesOwnRegisters := by decide
  obtain ⟨hadded, hcrossed⟩ := extra_registers_neutral
  obtain ⟨hruns, hdown⟩ := hadded loop 7 hloop (by decide) 4 w
  obtain ⟨-, hchildren⟩ := hcrossed loop short s hloop hshort
  obtain ⟨⟨hfirst, -⟩, hboth⟩ := hchildren (by decide) 4 w
  obtain ⟨hinherited, -⟩ := hcrossed loop other s hloop hother
  have hjump : Instruction.jumpIfGreater 0 1 0 ∈ (cross loop other s).1.2.instructions := by decide +kernel
  have hmeans : (Instruction.jumpIfGreater 0 1 0).MeansSame 2 (cross loop other s).1.2.registers := by
    rcases hinherited _ (.inr rfl) _ hjump with ⟨-, hmeans⟩ | ⟨hmem, -⟩
    · exact hmeans
    · exact absurd hmem (by decide)
  exact ⟨hloop, hshort, hother, by decide +kernel, ⟨hruns, hdown (by decide)⟩, hfirst,
    (hboth (by decide) (by decide)).2, by decide +kernel, hmeans⟩

-- an operand out of range means another register in a larger file
example : (⟨[.constant .move 1.0 1, .emitSignOf 0], 1⟩ : Program).execute 1 ⟨#[], 0, 1, none⟩ ≠
    (⟨[.constant .move 1.0 1, .emitSignOf 0], 2⟩ : Program).execute 1 ⟨#[], 0, 1, none⟩ := by decide +kernel

/-- **A file can be too large for memory.** A program that names no register runs on one register; on 2^62 of them it
breaks down. -/
theorem registers_added_beyond_memory :
    let p : Program := ⟨[.emit .long], 1⟩
    let w : Window := ⟨#[#[1.5]], 0, 1, none⟩
    p.NamesOwnRegisters ∧ p.breaksDown 1 w = false ∧ { p with registers := 2 ^ 62 }.breaksDown 1 w = true ∧
      ¬∀ (p : Program) (m : Nat), p.NamesOwnRegisters → p.registers ≤ m → ∀ (factor : Nat) (w : Window),
        { p with registers := m }.breaksDown factor w = p.breaksDown factor w := by
  intro p w
  have hnames : p.NamesOwnRegisters := by decide
  have hruns : p.breaksDown 1 w = false := by decide
  have hdown : { p with registers := 2 ^ 62 }.breaksDown 1 w = true := by decide
  refine ⟨hnames, hruns, hdown, fun hall => ?_⟩
  rw [hall p (2 ^ 62) hnames (by decide) 1 w, hruns] at hdown
  cases hdown

end Crossing

end TradingRobots
