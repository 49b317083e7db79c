/-
When a run lacks data.

A window whose columns go up to its row has a cell for every offset that is available, and an operand is clamped to the
limit of offsets. So what an instruction reads is missing exactly when the clamped operand reaches back before the first
row, and with as many rows as the limit asks for none does.

`cell?_eq_none_iff`, `scan?_eq_none_iff`: which reads find nothing.
`step_eq_missing_iff`: which instructions lack data.
`missing_iff_reachesBeyond`: which runs end for lack of it, and at which instruction.
-/
import TradingRobots.Proofs.Execution.Budget

namespace TradingRobots

/-! ## Reads -/

namespace Window

/-- there are columns and offsets, and every column has a cell at the row and thus at all rows before it -/
structure Covered (w : Window) : Prop where
  columnCount_pos : 0 < w.columnCount
  maximumOffset_pos : 0 < w.maximumOffset
  row_lt : ∀ cells ∈ w.columns, w.row < cells.size

variable {w : Window}

/-- a column operand means a column that the window has -/
theorem Covered.clampColumn? (hw : w.Covered) (column : Nat) :
    ∃ k, w.clampColumn? column = some k ∧ k < w.columnCount := by
  have hpos := hw.columnCount_pos
  refine ⟨min column (w.columnCount - 1), ?_, by omega⟩
  rw [Window.clampColumn?, if_neg (Nat.ne_of_gt hpos)]

theorem Covered.read?_eq_none_iff (hw : w.Covered) {column : Nat} (hcolumn : column < w.columnCount) (offset : Nat) :
    w.read? column offset = none ↔ w.available ≤ offset := by
  constructor
  · intro hnone
    by_contra hreach
    have hcells : w.columns[column]? = some w.columns[column] := Array.getElem?_eq_getElem hcolumn
    have hrow : w.row - offset < w.columns[column].size := by
      have := hw.row_lt w.columns[column] (Array.getElem_mem hcolumn)
      omega
    simp [read?, Nat.lt_of_not_le hreach, hcells, hrow] at hnone
  · exact w.read?_eq_none column offset

/-- an offset in range reaches back beyond the first row when it is not available -/
theorem available_le_iff {offset : Nat} (h : offset < w.maximumOffset) : w.available ≤ offset ↔ w.row + 1 ≤ offset := by
  rw [available]
  omega

theorem Covered.clampOffset_lt (hw : w.Covered) (offset : Nat) : w.clampOffset offset < w.maximumOffset := by
  have := hw.maximumOffset_pos
  rw [clampOffset]
  omega

theorem Covered.clampLength_bounds (hw : w.Covered) (length : Nat) :
    1 ≤ w.clampLength length ∧ w.clampLength length ≤ w.maximumOffset := by
  have := hw.maximumOffset_pos
  rw [clampLength]
  omega

/-- **A cell is missing** exactly when the clamped offset lies before the first row. -/
theorem Covered.cell?_eq_none_iff (hw : w.Covered) (ref : DataRef) :
    w.cell? ref = none ↔ w.row + 1 ≤ w.clampOffset ref.offset := by
  obtain ⟨k, hk, hlt⟩ := hw.clampColumn? ref.column
  have hread := hw.read?_eq_none_iff hlt (w.clampOffset ref.offset)
  rw [available_le_iff (hw.clampOffset_lt _)] at hread
  simpa [cell?, hk] using hread

/-- a fold from an available offset finds all its cells unless it goes on beyond them -/
theorem Covered.foldFrom?_eq_none_iff (hw : w.Covered) {column : Nat} (hcolumn : column < w.columnCount)
    (f : Float → Float → Float) {n offset : Nat} (hoffset : offset ≤ w.available) (acc : Float) :
    w.foldFrom? column f n offset acc = none ↔ w.available < offset + n := by
  induction n generalizing offset acc with
  | zero => simp [foldFrom?, hoffset]
  | succ n ih =>
    cases hread : w.read? column offset with
    | none =>
      have hend := (hw.read?_eq_none_iff hcolumn offset).1 hread
      simp only [foldFrom?, hread, Option.bind_eq_bind, Option.bind_none, true_iff]
      omega
    | some x =>
      have hlt : offset < w.available := by
        by_contra hend
        rw [(hw.read?_eq_none_iff hcolumn offset).2 (Nat.le_of_not_lt hend)] at hread
        cases hread
      simp only [foldFrom?, hread, Option.bind_eq_bind, Option.bind_some, ih hlt]
      omega

theorem Covered.fold?_eq_none_iff (hw : w.Covered) (column length : Nat) (f : Float → Float → Float) (start : Float) :
    w.fold? column length f start = none ↔ w.row + 1 < w.clampLength length := by
  obtain ⟨k, hk, hlt⟩ := hw.clampColumn? column
  have hfold := hw.foldFrom?_eq_none_iff hlt f (n := w.clampLength length) (Nat.zero_le _) start
  have hbounds := hw.clampLength_bounds length
  have hreach : w.available < 0 + w.clampLength length ↔ w.row + 1 < w.clampLength length := by
    rw [available]
    omega
  rw [hreach] at hfold
  simpa [fold?, hk] using hfold

/-- **A scan finds nothing** exactly when its clamped length exceeds the rows there are. -/
theorem Covered.scan?_eq_none_iff (hw : w.Covered) (use : ColumnScan) (column length : Nat) :
    w.scan? use column length = none ↔ w.row + 1 < w.clampLength length := by
  cases use with
  | average => simp [scan?, hw.fold?_eq_none_iff]
  | highest => simp [scan?, hw.fold?_eq_none_iff]
  | lowest => simp [scan?, hw.fold?_eq_none_iff]

end Window

/-! ## Instructions -/

namespace Instruction

/-- what the operands ask for lies before the first row: the clamped offset of a cell, or the last cell of a scan -/
def ReachesBeyond (w : Window) : Instruction → Prop
  | data _ source _ => w.row + 1 ≤ w.clampOffset source.offset
  | scan _ _ length _ => w.row + 1 < w.clampLength length
  | _ => False

variable {w : Window} {i : Instruction}

/-- **An instruction lacks data** exactly when its operands reach back beyond the first row. -/
theorem step_eq_missing_iff (hw : w.Covered) (r : Registers) (i : Instruction) :
    i.step w r = .missing ↔ i.ReachesBeyond w := by
  cases i with
  | data use source register =>
    rw [ReachesBeyond, ← hw.cell?_eq_none_iff, step]
    cases w.cell? source <;> simp
  | scan use column length register =>
    rw [ReachesBeyond, ← hw.scan?_eq_none_iff use column, step]
    cases w.scan? use column length <;> simp
  | _ =>
    simp only [step, ReachesBeyond, iff_false]
    repeat' split
    all_goals simp

/-- with as many rows as the limit of offsets no operand reaches back beyond the first one -/
theorem not_reachesBeyond (hw : w.Covered) (hrows : w.maximumOffset ≤ w.row + 1) : ¬i.ReachesBeyond w := by
  cases i with
  | data use source register =>
    have := hw.clampOffset_lt source.offset
    simp only [ReachesBeyond]
    omega
  | scan use column length register =>
    have := hw.clampLength_bounds length
    simp only [ReachesBeyond]
    omega
  | _ => exact id

end Instruction

/-! ## Runs -/

namespace Program

variable {p : Program} {w : Window}

/-- a run that ends for lack of data dispatched the instruction that lacks it last -/
theorem Ends.missingData_inv {budget : Nat} {e : Execution} (he : p.Ends w budget e)
    (hmissing : e.termination = .missingData) :
    ∃ n h i, e.dispatched = n + 1 ∧ p.headAfter? w n = some h ∧ p.instructions[h.position]? = some i ∧
      i.step w h.registers = .missing := by
  cases he with
  | missingData hn hh hi hs => exact ⟨_, _, _, rfl, hh, hi, hs⟩
  | _ => cases hmissing

/-- **A run lacks data exactly where its operands reach beyond its window.** Let a window have columns and offsets, and
all its columns cells up to its row. With as many rows as the limit of offsets no run of any program ends for lack of
data. With fewer, a dispatched instruction ends the run for lack of data exactly when its clamped offset lies at least
as many rows back as there are, or its clamped length exceeds them; any other instruction never does, and every run
that lacks data ends so. -/
theorem missing_iff_reachesBeyond (hw : w.Covered) (p : Program) (factor : Nat) :
    let run := p.execute factor w
    (w.maximumOffset ≤ w.row + 1 → run.termination ≠ .missingData) ∧
    (∀ (i : Instruction) (r : Registers), i.step w r = .missing ↔ i.ReachesBeyond w) ∧
    (∀ n h i, n < run.dispatched → p.headAfter? w n = some h → p.instructions[h.position]? = some i →
      (run.termination = .missingData ∧ run.dispatched = n + 1 ↔ i.ReachesBeyond w)) ∧
    (run.termination = .missingData → ∃ n h i, run.dispatched = n + 1 ∧ p.headAfter? w n = some h ∧
      p.instructions[h.position]? = some i ∧ i.ReachesBeyond w) := by
  intro run
  have he : p.Ends w (p.budget factor) run := ends_execute p factor w
  have hlast : run.termination = .missingData → ∃ n h i, run.dispatched = n + 1 ∧ p.headAfter? w n = some h ∧
      p.instructions[h.position]? = some i ∧ i.ReachesBeyond w := by
    intro hmissing
    obtain ⟨n, h, i, hd, hh, hi, hs⟩ := he.missingData_inv hmissing
    exact ⟨n, h, i, hd, hh, hi, (i.step_eq_missing_iff hw h.registers).1 hs⟩
  refine ⟨fun hrows hmissing => ?_, fun i r => i.step_eq_missing_iff hw r, fun n h i hn hh hi => ?_, hlast⟩
  · obtain ⟨n, h, i, -, -, -, hreach⟩ := hlast hmissing
    exact i.not_reachesBeyond hw hrows hreach
  · constructor
    · rintro ⟨hmissing, hd⟩
      obtain ⟨m, g, j, hd', hg, hj, hreach⟩ := hlast hmissing
      obtain rfl : n = m := by omega
      rw [hh] at hg
      cases hg
      rw [hi] at hj
      cases hj
      exact hreach
    · intro hreach
      -- a run ends in one way only, and the machine cannot go on from here
      have hs : i.step w h.registers = .missing := (i.step_eq_missing_iff hw h.registers).2 hreach
      have hend : run = ⟨.out, n + 1, .missingData⟩ :=
        ends_iff_execute.1 (.missingData (hn.trans_le he.dispatched_le) hh hi hs)
      rw [hend]
      exact ⟨rfl, rfl⟩

/-- three rows with a limit of four: an average over three of them is there, the cell three rows back is not, and after
one more row it is -/
theorem missing_iff_reachesBeyond_three :
    let p : Program := ⟨[.scan .average 0 3 0, .data .subtract ⟨0, 9⟩ 0, .emitSignOf 0], 1⟩
    let short : Window := ⟨#[#[1.0, 2.0, 3.0]], 2, 4, none⟩
    let long : Window := ⟨#[#[1.0, 2.0, 3.0, 4.0]], 3, 4, none⟩
    short.Covered ∧ (p.execute 1 short).termination = .missingData ∧ (p.execute 1 short).dispatched = 2 ∧
      long.Covered ∧ (p.execute 1 long).termination ≠ .missingData := by
  intro p short long
  have hshort : short.Covered := ⟨by decide, by decide, by decide⟩
  have hlong : long.Covered := ⟨by decide, by decide, by decide⟩
  have hhead : p.headAfter? short 1 = some ⟨(Registers.blank 1).write 0 2.0, 1⟩ := by decide +kernel
  obtain ⟨-, -, hruns, -⟩ := missing_iff_reachesBeyond hshort p 1
  obtain ⟨hmissing, hd⟩ := (hruns 1 _ _ (by decide +kernel) hhead rfl).2 (Nat.le_refl 3)
  exact ⟨hshort, hmissing, hd, hlong, (missing_iff_reachesBeyond hlong p 1).1 (by decide)⟩

end Program

end TradingRobots
