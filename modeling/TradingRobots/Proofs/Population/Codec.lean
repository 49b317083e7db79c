/-
Populations as JSON values, and back.

Every part of a population is written under its own name and read by that name. Counts that fit a machine word come back
as they were; a double that is not finite is written as null, and null is no double.

`Population.ofJson?_toJson`: what a written population is read as.
`Population.restored?_eq`: that is the same population, if its doubles are finite and come back as they were.
`Population.spelled_toJson`: a written population is a value that its text spells.
-/
import TradingRobots.PopulationFile
import TradingRobots.Proofs.Json.Indented
import TradingRobots.Proofs.Json.Taken

namespace TradingRobots

open Json

/-- a count that a machine word holds -/
def IsWord (n : Nat) : Prop :=
  n < Binary64.wordLimit

instance (n : Nat) : Decidable (IsWord n) :=
  inferInstanceAs (Decidable (n < Binary64.wordLimit))

/-- what a file gives back of a double: nothing of one that is not finite -/
def restored? (x : Float) : Option Float :=
  (Json.real x).toReal?

/-- a double that comes back as it was, if it is finite -/
def ComesBack (x : Float) : Prop :=
  x.isFinite = true → restored? x = some x

instance (x : Float) : Decidable (ComesBack x) :=
  inferInstanceAs (Decidable (x.isFinite = true → restored? x = some x))

/-- not every double does: the reader keeps the digits in one machine word, and rounds more than once -/
theorem exists_not_comesBack : ∃ x, ¬ComesBack x :=
  ⟨123456789.12345679, by decide +kernel⟩

theorem restored?_eq {x : Float} (h : ComesBack x) : restored? x = if x.isFinite then some x else none := by
  split
  next hfinite => exact h hfinite
  next hfinite =>
    rw [restored?, Json.real, if_neg hfinite]
    rfl

theorem spelled_real (x : Float) : Spelled (.real x) := by
  unfold Json.real
  split
  next hfinite => exact .number (numeral_stored hfinite)
  next => exact .null

theorem spelled_count (n : Nat) : Spelled (.count n) :=
  .number (numeral_count n)

/-! ## Instructions -/

/-- the counts of an operand fit machine words -/
def Operand.InWords : Operand → Prop
  | .index n => IsWord n
  | .amount _ => True
  | .cell ref => IsWord ref.column ∧ IsWord ref.offset

instance : DecidablePred Operand.InWords
  | .index n => inferInstanceAs (Decidable (IsWord n))
  | .amount _ => .isTrue trivial
  | .cell ref => inferInstanceAs (Decidable (IsWord ref.column ∧ IsWord ref.offset))

/-- an operand as a file gives it back -/
def Operand.restored? : Operand → Option Operand
  | .amount x => (TradingRobots.restored? x).map .amount
  | o => some o

def Operand.kind : Operand → OperandKind
  | .index _ => .index
  | .amount _ => .amount
  | .cell _ => .cell

namespace InstructionForm

theorem ofName?_name (i : Instruction) : ofName? i.name = some (of i) := by
  cases i with
  | data use => cases use <;> rfl
  | scan use => cases use <;> rfl
  | constant use => cases use <;> rfl
  | pair use => cases use <;> rfl
  | alter use => cases use <;> rfl
  | jump => rfl
  | jumpIf test => cases test <;> rfl
  | jumpIfGreater => rfl
  | emit signal => cases signal <;> rfl
  | emitSignOf => rfl
  | emitIfGreater => rfl

/-- no form has two operands of one name -/
theorem nodup_operands : ∀ form ∈ all, (form.operands.map Prod.fst).Nodup := by
  decide

theorem operandNames_of (i : Instruction) : (of i).operands.map Prod.fst = i.operands.map Prod.fst := by
  cases i <;> rfl

theorem operandKinds_of (i : Instruction) : (of i).operands.map Prod.snd = i.operands.map fun o => o.2.kind := by
  cases i <;> rfl

theorem nodup_operandNames (i : Instruction) : (i.operands.map Prod.fst).Nodup := by
  rw [← operandNames_of]
  exact nodup_operands _ (List.mem_of_find?_eq_some (ofName?_name i))

end InstructionForm

namespace Instruction

/-- the counts of all operands fit machine words -/
def InWords (i : Instruction) : Prop :=
  ∀ o ∈ i.operands, o.2.InWords

instance (i : Instruction) : Decidable i.InWords :=
  inferInstanceAs (Decidable (∀ o ∈ i.operands, o.2.InWords))

/-- the doubles of an instruction -/
def amounts : Instruction → List Float
  | constant _ value _ => [value]
  | _ => []

/-- an instruction as a file gives it back -/
def restored? : Instruction → Option Instruction
  | constant use value register => (TradingRobots.restored? value).map fun value => constant use value register
  | i => some i

theorem restored?_eq {i : Instruction} (h : ∀ x ∈ i.amounts, ComesBack x) :
    i.restored? = if i.amounts.all Float.isFinite then some i else none := by
  cases i with
  | constant use value register =>
    rw [restored?, TradingRobots.restored?_eq (h value (List.mem_singleton_self value)), amounts, List.all_cons,
      List.all_nil, Bool.and_true]
    split
    · rfl
    · rfl
  | _ => rfl

/-- the operands given back make the instruction given back -/
theorem build?_restored (i : Instruction) :
    ((i.operands.map Prod.snd).mapM Operand.restored?).bind (InstructionForm.of i).build? = i.restored? := by
  cases i with
  | constant use value register =>
    rw [restored?]
    show ((((TradingRobots.restored? value).map Operand.amount).bind fun o =>
      (some [Operand.index register]).bind fun rest => some (o :: rest))).bind _ = _
    cases TradingRobots.restored? value with
    | none => rfl
    | some value => rfl
  | _ => rfl

theorem cellOfJson?_cellJson {ref : DataRef} (hcolumn : IsWord ref.column) (hoffset : IsWord ref.offset) :
    cellOfJson? (cellJson ref) = some ref := by
  have hrecord : (cellJson ref).record? ["column", "offset"] = some [.count ref.column, .count ref.offset] :=
    record?_object [("column", .count ref.column), ("offset", .count ref.offset)]
      (show ["column", "offset"].Nodup by decide)
  simp only [cellOfJson?, hrecord, toCount?_count hcolumn, toCount?_count hoffset, Option.bind_eq_bind,
    Option.bind_some]

theorem operandOfJson?_operandJson {o : Operand} (hwords : o.InWords) :
    operandOfJson? o.kind (operandJson o) = o.restored? := by
  cases o with
  | index n =>
    show (Json.count n).toCount?.map Operand.index = _
    rw [toCount?_count hwords]
    rfl
  | amount x => rfl
  | cell ref =>
    show (cellOfJson? (cellJson ref)).map Operand.cell = _
    rw [cellOfJson?_cellJson hwords.1 hwords.2]
    rfl

/-- operands are read one for one -/
theorem operandsOfJson?_map (operands : List Operand) (hwords : ∀ o ∈ operands, o.InWords) :
    operandsOfJson? (operands.map Operand.kind) (operands.map operandJson) = operands.mapM Operand.restored? := by
  induction operands with
  | nil => rfl
  | cons o operands ih =>
    rw [List.map_cons, List.map_cons, operandsOfJson?, operandOfJson?_operandJson (hwords o List.mem_cons_self),
      ih fun a ha => hwords a (List.mem_cons_of_mem _ ha), List.mapM_cons]
    rfl

/-- the operands of an instruction come back under their names -/
theorem record?_operands (i : Instruction) :
    (Json.object (i.operands.map fun o => (o.1, operandJson o.2))).record? (i.operands.map Prod.fst) =
      some ((i.operands.map Prod.snd).map operandJson) := by
  have hnames : (i.operands.map fun o => (o.1, operandJson o.2)).map Prod.fst = i.operands.map Prod.fst := by
    rw [List.map_map]
    rfl
  have hrecord := record?_object (i.operands.map fun o => (o.1, operandJson o.2))
    (by rw [hnames]; exact InstructionForm.nodup_operandNames i)
  rw [hnames] at hrecord
  rw [hrecord, List.map_map, List.map_map]
  rfl

/-- a written instruction is read as the file gives it back -/
theorem ofJson?_toJson {i : Instruction} (hwords : i.InWords) : ofJson? i.toJson = i.restored? := by
  have hbuild := build?_restored i
  have hempty : (InstructionForm.of i).operands.isEmpty = i.operands.isEmpty := by
    rw [← List.isEmpty_map (f := Prod.fst), InstructionForm.operandNames_of, List.isEmpty_map]
  -- an instruction without operands is written as its name alone
  cases hoperands : i.operands with
  | nil =>
    rw [hoperands] at hempty hbuild
    simp only [toJson, hoperands, ofJson?, tagged?, InstructionForm.ofName?_name, hempty, isBare, List.isEmpty_nil,
      Option.bind_eq_bind, Option.bind_some, if_true]
    exact hbuild
  | cons o rest =>
    have htext : i.toJson = .object [(i.name, .object (i.operands.map fun o => (o.1, operandJson o.2)))] := by
      rw [toJson, hoperands]
    have hread := operandsOfJson?_map (i.operands.map Prod.snd) fun a ha => by
      obtain ⟨o, ho, rfl⟩ := List.mem_map.1 ha
      exact hwords o ho
    have hkinds : (i.operands.map Prod.snd).map Operand.kind = (InstructionForm.of i).operands.map Prod.snd := by
      rw [InstructionForm.operandKinds_of, List.map_map]
      rfl
    rw [hoperands, List.isEmpty_cons] at hempty
    rw [hkinds] at hread
    simp only [htext, ofJson?, tagged?, InstructionForm.ofName?_name, hempty, InstructionForm.operandNames_of,
      record?_operands, hread, Option.bind_eq_bind, Option.bind_some, Bool.false_eq_true, if_false]
    exact hbuild

theorem spelled_operandJson (o : Operand) : Spelled (operandJson o) := by
  cases o with
  | index n => exact spelled_count n
  | amount x => exact spelled_real x
  | cell ref =>
    refine .object fun f hf => ?_
    rcases List.mem_cons.1 hf with rfl | hf
    · exact spelled_count _
    · rcases List.mem_singleton.1 hf with rfl
      exact spelled_count _

theorem spelled_toJson (i : Instruction) : Spelled i.toJson := by
  unfold toJson
  split
  · exact .string _
  · refine .object fun f hf => ?_
    rcases List.mem_singleton.1 hf with rfl
    refine .object fun g hg => ?_
    obtain ⟨o, -, rfl⟩ := List.mem_map.1 hg
    exact spelled_operandJson o.2

end Instruction

/-! ## Signals -/

namespace NameTable

variable {α : Type}

theorem eq_of_entries {a b : NameTable α} (h : a.entries = b.entries) : a = b := by
  cases a
  cases b
  cases h
  rfl

/-- a name after all others is put at the end -/
theorem place_last {name : String} (value : α) {entries : List (String × α)} (h : ∀ e ∈ entries, e.1 < name) :
    place name value entries = entries ++ [(name, value)] := by
  induction entries with
  | nil => rfl
  | cons e entries ih =>
    obtain ⟨n, v⟩ := e
    have hlt : n < name := h (n, v) List.mem_cons_self
    rw [place, if_neg (String.lt_asymm hlt), if_pos hlt, ih fun e he => h e (List.mem_cons_of_mem _ he)]
    rfl

theorem entries_foldl_insert (rest : List (String × α)) (t : NameTable α)
    (h : (t.entries ++ rest).Pairwise fun a b => a.1 < b.1) :
    (rest.foldl (fun t e => t.insert e.1 e.2) t).entries = t.entries ++ rest := by
  induction rest generalizing t with
  | nil => rw [List.foldl_nil, List.append_nil]
  | cons e rest ih =>
    have hlast : (t.insert e.1 e.2).entries = t.entries ++ [e] :=
      place_last e.2 fun a ha => (List.pairwise_append.1 h).2.2 a ha e List.mem_cons_self
    rw [List.foldl_cons, ih, hlast, List.append_assoc, List.singleton_append]
    rwa [hlast, List.append_assoc, List.singleton_append]

/-- a table is made of its own entries -/
theorem ofList_entries (t : NameTable α) : ofList t.entries = t :=
  eq_of_entries (entries_foldl_insert t.entries empty t.ascending)

end NameTable

theorem Signal.ofJson?_name (s : Signal) : Signal.ofJson? (.string s.name) = some s :=
  Signal.ofName?_name s

theorem signalsOfJson?_signalsJson (t : NameTable Signal) : signalsOfJson? (signalsJson t) = some t := by
  have hentries : (t.entries.map fun e => (e.1, Json.string e.2.name)).mapM
      (fun f => do some (f.1, ← Signal.ofJson? f.2)) = some t.entries := by
    have hsome : t.entries.mapM (fun e => do some (e.1, ← Signal.ofJson? (.string e.2.name))) =
        some (t.entries.map id) := by
      refine mapM_some fun e _ => ?_
      rw [Signal.ofJson?_name]
      rfl
    rw [List.mapM_map]
    rwa [List.map_id] at hsome
  rw [signalsJson, signalsOfJson?, toObject?, Option.bind_eq_bind, Option.bind_some, hentries]
  exact congrArg some t.ofList_entries

theorem spelled_signalsJson (t : NameTable Signal) : Spelled (signalsJson t) := by
  refine .object fun f hf => ?_
  obtain ⟨e, -, rfl⟩ := List.mem_map.1 hf
  exact .string _

/-! ## Programs -/

namespace Program

/-- the counts of a program fit machine words -/
structure InWords (p : Program) : Prop where
  instructions : ∀ i ∈ p.instructions, i.InWords
  registers : IsWord p.registers

instance (p : Program) : Decidable p.InWords :=
  decidable_of_iff ((∀ i ∈ p.instructions, i.InWords) ∧ IsWord p.registers)
    ⟨fun h => ⟨h.1, h.2⟩, fun h => ⟨h.instructions, h.registers⟩⟩

/-- the doubles of a program -/
def amounts (p : Program) : List Float :=
  p.instructions.flatMap Instruction.amounts

/-- a program as a file gives it back -/
def restored? (p : Program) : Option Program := do
  some ⟨← p.instructions.mapM Instruction.restored?, p.registers⟩

theorem restored?_eq {p : Program} (h : ∀ x ∈ p.amounts, ComesBack x) :
    p.restored? = if p.amounts.all Float.isFinite then some p else none := by
  have hinstructions : p.instructions.mapM Instruction.restored? =
      if p.amounts.all Float.isFinite then some p.instructions else none := by
    rw [amounts, List.all_flatMap]
    exact mapM_guard fun i hi => Instruction.restored?_eq fun x hx => h x (List.mem_flatMap.2 ⟨i, hi, hx⟩)
  rw [restored?, hinstructions]
  split
  · rfl
  · rfl

theorem ofJson?_toJson {p : Program} (hwords : p.InWords) : ofJson? p.toJson = p.restored? := by
  have hrecord : p.toJson.record? ["instructions", "register_count"] =
      some [.array (p.instructions.map Instruction.toJson), .count p.registers] :=
    record?_object [("instructions", .array (p.instructions.map Instruction.toJson)),
      ("register_count", .count p.registers)] (show ["instructions", "register_count"].Nodup by decide)
  have hread : (p.instructions.map Instruction.toJson).mapM Instruction.ofJson? =
      p.instructions.mapM Instruction.restored? := by
    rw [List.mapM_map]
    exact mapM_congr fun i hi => Instruction.ofJson?_toJson (hwords.instructions i hi)
  simp only [ofJson?, hrecord, toArray?, hread, toCount?_count hwords.registers, Option.bind_eq_bind, Option.bind_some]
  rfl

theorem spelled_toJson (p : Program) : Spelled p.toJson := by
  refine .object fun f hf => ?_
  rcases List.mem_cons.1 hf with rfl | hf
  · refine .array fun v hv => ?_
    obtain ⟨i, -, rfl⟩ := List.mem_map.1 hv
    exact i.spelled_toJson
  · rcases List.mem_singleton.1 hf with rfl
    exact spelled_count _

end Program

/-! ## Robots -/

namespace Robot

/-- the counts of a robot fit machine words -/
structure InWords (r : Robot) : Prop where
  name : IsWord r.name.number
  program : r.program.InWords
  outcomes : IsWord r.outcomes
  predictions : IsWord r.predictions
  correct : IsWord r.correct
  bias : -(2 ^ 63) ≤ r.bias ∧ r.bias < 2 ^ 63
  calls : IsWord r.calls
  children : IsWord r.children
  outcomesAtLastChild : IsWord r.outcomesAtLastChild

instance (r : Robot) : Decidable r.InWords :=
  decidable_of_iff
    (IsWord r.name.number ∧ r.program.InWords ∧ IsWord r.outcomes ∧ IsWord r.predictions ∧ IsWord r.correct ∧
      (-(2 ^ 63) ≤ r.bias ∧ r.bias < 2 ^ 63) ∧ IsWord r.calls ∧ IsWord r.children ∧ IsWord r.outcomesAtLastChild)
    ⟨fun ⟨hn, hp, ho, hq, hc, hb, ha, hd, hl⟩ => ⟨hn, hp, ho, hq, hc, hb, ha, hd, hl⟩,
      fun ⟨hn, hp, ho, hq, hc, hb, ha, hd, hl⟩ => ⟨hn, hp, ho, hq, hc, hb, ha, hd, hl⟩⟩

/-- the doubles of a robot -/
def amounts (r : Robot) : List Float :=
  r.program.amounts ++ [r.inheritedWeight]

/-- a robot as a file gives it back -/
def restored? (r : Robot) : Option Robot := do
  some { r with program := ← r.program.restored?, inheritedWeight := ← TradingRobots.restored? r.inheritedWeight }

theorem restored?_eq {r : Robot} (h : ∀ x ∈ r.amounts, ComesBack x) :
    r.restored? = if r.amounts.all Float.isFinite then some r else none := by
  have hprogram := Program.restored?_eq fun x hx => h x (List.mem_append_left _ hx)
  have hweight := TradingRobots.restored?_eq (h r.inheritedWeight (List.mem_append_right _ (List.mem_singleton_self _)))
  rw [restored?, hprogram, hweight, amounts, List.all_append, List.all_cons, List.all_nil, Bool.and_true]
  cases r.program.amounts.all Float.isFinite with
  | false => rfl
  | true =>
    cases r.inheritedWeight.isFinite with
    | false => rfl
    | true => rfl

/-- the values of a robot's fields, in the order of their names -/
def fieldValues (r : Robot) : List Json :=
  [.count r.name.number, r.program.toJson, signalsJson r.pending, signalsJson r.current, .count r.outcomes,
    .count r.predictions, .count r.correct, .whole r.bias, .bool r.isPredicting, .count r.calls, .count r.children,
    .count r.outcomesAtLastChild, .real r.inheritedWeight]

theorem ofJson?_toJson {r : Robot} (hwords : r.InWords) : ofJson? r.toJson = r.restored? := by
  have hrecord : r.toJson.record? fieldNames = some r.fieldValues :=
    record?_object (fieldNames.zip r.fieldValues) (show fieldNames.Nodup by decide)
  unfold ofJson?
  rw [hrecord, fieldValues, Option.bind_eq_bind, Option.bind_some]
  dsimp only
  rw [toCount?_count hwords.name, Program.ofJson?_toJson hwords.program, signalsOfJson?_signalsJson,
    signalsOfJson?_signalsJson, toCount?_count hwords.outcomes, toCount?_count hwords.predictions,
    toCount?_count hwords.correct, toWhole?_whole hwords.bias, toCount?_count hwords.calls,
    toCount?_count hwords.children, toCount?_count hwords.outcomesAtLastChild]
  rfl

theorem spelled_toJson (r : Robot) : Spelled r.toJson := by
  have hvalues : ∀ v ∈ r.fieldValues, Spelled v := by
    simp only [fieldValues, List.forall_mem_cons]
    exact ⟨spelled_count _, r.program.spelled_toJson, spelled_signalsJson _, spelled_signalsJson _, spelled_count _,
      spelled_count _, spelled_count _, .number (numeral_whole _), .bool _, spelled_count _, spelled_count _,
      spelled_count _, spelled_real _, fun v hv => absurd hv List.not_mem_nil⟩
  exact .object fun f hf => hvalues f.2 (List.of_mem_zip hf).2

end Robot

/-! ## Populations -/

namespace Population

/-- the counts of a population fit machine words -/
structure InWords (p : Population) : Prop where
  desiredSize : IsWord p.desiredSize
  nextName : IsWord p.nextName
  robots : ∀ r ∈ p.robots, r.InWords

instance (p : Population) : Decidable p.InWords :=
  decidable_of_iff (IsWord p.desiredSize ∧ IsWord p.nextName ∧ ∀ r ∈ p.robots, r.InWords)
    ⟨fun h => ⟨h.1, h.2.1, h.2.2⟩, fun h => ⟨h.desiredSize, h.nextName, h.robots⟩⟩

/-- the doubles of a population -/
def amounts (p : Population) : List Float :=
  p.robots.flatMap Robot.amounts

/-- a population as a file gives it back: the same but for its doubles, and only if these are finite -/
def restored? (p : Population) : Option Population := do
  some { p with robots := ← p.robots.mapM Robot.restored? }

theorem restored?_eq {p : Population} (h : ∀ x ∈ p.amounts, ComesBack x) :
    p.restored? = if p.amounts.all Float.isFinite then some p else none := by
  have hrobots : p.robots.mapM Robot.restored? = if p.amounts.all Float.isFinite then some p.robots else none := by
    rw [amounts, List.all_flatMap]
    exact mapM_guard fun r hr => Robot.restored?_eq fun x hx => h x (List.mem_flatMap.2 ⟨r, hr, hx⟩)
  rw [restored?, hrobots]
  split
  · rfl
  · rfl

/-- **A written population is read as the file gives it back.** -/
theorem ofJson?_toJson {p : Population} (hwords : p.InWords) : ofJson? p.toJson = p.restored? := by
  have hrecord : p.toJson.record? fieldNames =
      some [.count p.desiredSize, .count p.nextName, .array (p.robots.map Robot.toJson)] :=
    record?_object (fieldNames.zip
      [.count p.desiredSize, .count p.nextName, .array (p.robots.map Robot.toJson)]) (show fieldNames.Nodup by decide)
  have hread : (p.robots.map Robot.toJson).mapM Robot.ofJson? = p.robots.mapM Robot.restored? := by
    rw [List.mapM_map]
    exact mapM_congr fun r hr => Robot.ofJson?_toJson (hwords.robots r hr)
  simp only [ofJson?, hrecord, toCount?_count hwords.desiredSize, toCount?_count hwords.nextName, toArray?, hread,
    Option.bind_eq_bind, Option.bind_some]
  rfl

/-- a written population is a value that its text spells -/
theorem spelled_toJson (p : Population) : Spelled p.toJson := by
  have hrobots : Spelled (.array (p.robots.map Robot.toJson)) := by
    refine .array fun v hv => ?_
    obtain ⟨r, -, rfl⟩ := List.mem_map.1 hv
    exact r.spelled_toJson
  have hvalues : ∀ v ∈ [.count p.desiredSize, .count p.nextName, .array (p.robots.map Robot.toJson)], Spelled v := by
    simp only [List.forall_mem_cons]
    exact ⟨spelled_count _, spelled_count _, hrobots, fun v hv => absurd hv List.not_mem_nil⟩
  exact .object fun f hf => hvalues f.2 (List.of_mem_zip hf).2

/-- the text of a population file is read as the value that was written -/
theorem parse?_fileText (p : Population) : Json.parse? p.fileText = some p.toJson :=
  parse?_pretty p.spelled_toJson

end Population

end TradingRobots
