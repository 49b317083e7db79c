/-
What a program can see of a window.

A window shows so many columns, a limit of offsets, and the cells at the offsets that reach data. An instruction reads
it through these alone: operands are clamped to the columns and the limit, and an offset that reaches no data reads
nothing. So programs cannot tell windows apart that show the same, wherever their rows are, whatever stands before and
after what is shown, and whatever change is known at the row.

`Alike` windows agree in their row and their change too.

`SameView.read?_eq`: windows that show the same read the same everywhere.
`step_eq_of_sameView`, `execute_eq_of_sameView`: they give the same steps and the same runs.
`sees_only_window`: the same run, and it breaks down on both or on neither.
-/
import TradingRobots.Execution

namespace TradingRobots

namespace Window

/-- the cell of a column so many rows back, whether the offset is available or not -/
def cellAt? (w : Window) (column offset : Nat) : Option Float :=
  w.columns[column]?.bind fun cells => cells[w.row - offset]?

/-- windows that show the same cells, in as many columns and with the same limit of offsets -/
structure SameView (v w : Window) : Prop where
  columnCount : v.columnCount = w.columnCount
  maximumOffset : v.maximumOffset = w.maximumOffset
  available : v.available = w.available
  cells : ∀ column < v.columnCount, ∀ offset < v.available, v.cellAt? column offset = w.cellAt? column offset

/-- windows that read the same everywhere -/
structure Alike (v w : Window) : Prop where
  columnCount : v.columnCount = w.columnCount
  row : v.row = w.row
  maximumOffset : v.maximumOffset = w.maximumOffset
  change : v.change = w.change
  read : ∀ column offset, v.read? column offset = w.read? column offset

variable {v w : Window}

/-- the cell that a window reads, if the offset is within reach -/
theorem read?_eq (w : Window) (column offset : Nat) : w.read? column offset =
    if offset < w.available then w.columns[column]?.bind fun cells => cells[w.row - offset]? else none := by
  unfold read?
  cases w.columns[column]? <;> rfl

theorem cellAt?_eq_none {column : Nat} (h : w.columnCount ≤ column) (offset : Nat) :
    w.cellAt? column offset = none := by
  have hnone : w.columns[column]? = none := Array.getElem?_eq_none h
  simp [cellAt?, hnone]

/-- **Windows that show the same read the same**, also where nothing is to be read. -/
theorem SameView.read?_eq (h : SameView v w) (column offset : Nat) : v.read? column offset = w.read? column offset := by
  have hcell : offset < v.available → v.cellAt? column offset = w.cellAt? column offset := by
    intro havailable
    rcases Nat.lt_or_ge column v.columnCount with hin | hout
    · exact h.cells column hin offset havailable
    · rw [cellAt?_eq_none hout, cellAt?_eq_none (h.columnCount ▸ hout)]
  rw [Window.read?_eq, Window.read?_eq, ← h.available]
  split
  next havailable => exact hcell havailable
  next => rfl

/-- windows that read the same show the same -/
theorem Alike.sameView (h : Alike v w) : SameView v w := by
  have havailable : v.available = w.available := by
    rw [available, available, h.row, h.maximumOffset]
  refine ⟨h.columnCount, h.maximumOffset, havailable, fun column _ offset hoffset => ?_⟩
  have hread := h.read column offset
  rwa [Window.read?_eq, Window.read?_eq, ← havailable, if_pos hoffset, if_pos hoffset] at hread

/-- without their cells they show the same still -/
theorem SameView.emptied (h : SameView v w) : SameView v.emptied w.emptied := by
  have hblank : ∀ (u : Window) (column offset : Nat), u.emptied.cellAt? column offset = none := by
    intro u column offset
    simp only [cellAt?, Window.emptied, Array.getElem?_map]
    cases u.columns[column]? <;> simp
  refine ⟨?_, h.maximumOffset, h.available, fun column _ offset _ => ?_⟩
  · have hcount : v.columns.size = w.columns.size := h.columnCount
    simpa [Window.columnCount, Window.emptied] using hcount
  · rw [hblank, hblank]

/-! ## Reads of an instruction -/

theorem cell?_eq_of_sameView (h : SameView v w) (ref : DataRef) : v.cell? ref = w.cell? ref := by
  simp only [cell?, clampColumn?, clampOffset, h.columnCount, h.maximumOffset, h.read?_eq]

theorem foldFrom?_eq_of_sameView (h : SameView v w) (column : Nat) (f : Float → Float → Float) (n offset : Nat)
    (acc : Float) : v.foldFrom? column f n offset acc = w.foldFrom? column f n offset acc := by
  induction n generalizing offset acc with
  | zero => rfl
  | succ n ih => simp only [foldFrom?, h.read?_eq, ih]

theorem fold?_eq_of_sameView (h : SameView v w) (column length : Nat) (f : Float → Float → Float) (start : Float) :
    v.fold? column length f start = w.fold? column length f start := by
  simp only [fold?, clampColumn?, clampLength, h.columnCount, h.maximumOffset, foldFrom?_eq_of_sameView h]

theorem scan?_eq_of_sameView (h : SameView v w) (use : ColumnScan) (column length : Nat) :
    v.scan? use column length = w.scan? use column length := by
  cases use with
  | average => simp only [scan?, clampLength, h.maximumOffset, fold?_eq_of_sameView h]
  | highest => simp only [scan?, fold?_eq_of_sameView h]
  | lowest => simp only [scan?, fold?_eq_of_sameView h]

end Window

variable {v w : Window}

/-- windows that show the same give the same steps -/
theorem Instruction.step_eq_of_sameView (h : v.SameView w) (r : Registers) (i : Instruction) :
    i.step v r = i.step w r := by
  cases i with
  | data use source register => simp only [step, Window.cell?_eq_of_sameView h]
  | scan use column length register => simp only [step, Window.scan?_eq_of_sameView h]
  | _ => rfl

namespace Program

theorem runFrom_eq_of_sameView (h : v.SameView w) (code : Array Instruction) (left dispatched : Nat) (r : Registers)
    (position : Nat) : runFrom code v left dispatched r position = runFrom code w left dispatched r position := by
  induction left generalizing dispatched r position with
  | zero =>
    rw [runFrom, runFrom]
  | succ left ih =>
    rw [runFrom, runFrom]
    simp only [Instruction.step_eq_of_sameView h, ih]

/-- programs cannot tell windows apart that show the same -/
theorem execute_eq_of_sameView (h : v.SameView w) (p : Program) (factor : Nat) :
    p.execute factor v = p.execute factor w :=
  runFrom_eq_of_sameView h _ _ _ _ _

/-- **Programs cannot tell alike windows apart.** -/
theorem execute_eq_of_alike (h : v.Alike w) (p : Program) (factor : Nat) : p.execute factor v = p.execute factor w :=
  execute_eq_of_sameView h.sameView p factor

theorem looksForData_eq_of_sameView (h : v.SameView w) (p : Program) (factor : Nat) :
    p.looksForData factor v = p.looksForData factor w := by
  rw [looksForData, looksForData, h.columnCount, execute_eq_of_sameView h.emptied]

/-- **A program sees only its window.** On two windows that show the same cells in as many columns, with the same limit
of offsets and as many of them available, every program runs the same under every factor: it gives the same signal after
as many dispatches, and ends for the same reason. The rows that the windows are seen from, the cells before and after
those shown, and the known changes may differ. If a row can be counted after both or after neither, the run also breaks
down on both or on neither. -/
theorem sees_only_window (h : v.SameView w) (p : Program) (factor : Nat) :
    p.execute factor v = p.execute factor w ∧
      (v.hasNext = w.hasNext → p.breaksDown factor v = p.breaksDown factor w) := by
  refine ⟨execute_eq_of_sameView h p factor, fun hnext => ?_⟩
  rw [breaksDown, breaksDown, hnext, looksForData_eq_of_sameView h]

/-- two rows of the middle of a history, and the same two rows as a history of their own; the program loops back over an
average -/
theorem sees_only_window_rows :
    let v : Window := ⟨#[#[9.0, 1.0, 2.0, 7.0], #[8.0, 3.0, 5.0]], 2, 2, some 4.0⟩
    let w : Window := ⟨#[#[1.0, 2.0], #[3.0, 5.0, 6.0]], 1, 2, none⟩
    let p : Program := ⟨[.scan .average 1 9 0, .data .subtract ⟨0, 9⟩ 0, .jumpIf .positive 0 1, .emitSignOf 0], 1⟩
    v.SameView w ∧ v.read? 0 2 = none ∧ v.cellAt? 0 2 = some 9.0 ∧
      p.execute 4 v = p.execute 4 w ∧ p.breaksDown 4 v = p.breaksDown 4 w := by
  intro v w p
  have h : v.SameView w := ⟨by decide, by decide, by decide, by decide +kernel⟩
  obtain ⟨hrun, hdown⟩ := sees_only_window h p 4
  exact ⟨h, by decide, by decide +kernel, hrun, hdown (by decide)⟩

end Program

end TradingRobots
