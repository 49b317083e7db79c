/-
Documents of sections read back.

A document is lines, with empty lines between them; each line holds one statement and is read whatever follows it.
The sections of a document give its table: a table for each section, in order, with its entries in order.

`statements?_document`: the statements of a document, line by line.
`parse?_sections`: sections of different names, each with different names, read back.
-/
import TradingRobots.Proofs.Toml.Scalars

namespace TradingRobots.Toml

open Reading

/-! ## Names -/

/-- a name that needs no quotation marks -/
structure IsBareName (name : String) : Prop where
  nonempty : name.toList ≠ []
  chars : ∀ c ∈ name.toList, isBare c = true

theorem isBareName_iff {name : String} : IsBareName name ↔ name.toList ≠ [] ∧ name.toList.all isBare = true :=
  ⟨fun h => ⟨h.nonempty, List.all_eq_true.2 h.chars⟩, fun h => ⟨h.1, List.all_eq_true.1 h.2⟩⟩

/-- the first character of a bare name -/
theorem IsBareName.head {name : String} (h : IsBareName name) :
    ∃ c cs, name.toList = c :: cs ∧ isBare c = true := by
  obtain ⟨c, cs, hcs⟩ := List.exists_cons_of_ne_nil h.nonempty
  exact ⟨c, cs, hcs, h.chars c (hcs ▸ List.mem_cons_self)⟩

theorem isBare_ne {c d : Char} (h : isBare c = true) (hd : isBare d = false) : c ≠ d := by
  rintro rfl
  exact Bool.false_ne_true (hd.symm.trans h)

theorem name?_bare {name : String} (h : IsBareName name) {rest : Rest} (hrest : ∀ c ∈ rest.head?, isBare c = false) :
    name? (name.toList ++ rest) = some (name, rest) := by
  obtain ⟨htake, hdrop⟩ := span_append h.chars rest hrest
  obtain ⟨c, cs, hcs, hc⟩ := h.head
  have hempty : name.toList.isEmpty = false := List.isEmpty_eq_false_iff.2 h.nonempty
  unfold name?
  split
  next s hs =>
    rw [hcs, List.cons_append] at hs
    exact absurd (List.cons.inj hs).1 (isBare_ne hc (by decide))
  next s hs =>
    rw [hcs, List.cons_append] at hs
    exact absurd (List.cons.inj hs).1 (isBare_ne hc (by decide))
  next =>
    rw [htake, hdrop]
    dsimp only
    rw [hempty, if_neg Bool.false_ne_true, String.ofList_toList]

/-- a bare name that no point follows is a whole path; blanks after it are passed over -/
theorem path?_bare {name : String} (h : IsBareName name) {rest after : Rest}
    (hrest : ∀ c ∈ rest.head?, isBare c = false) (hafter : skipBlanks rest = after) (hpoint : ∀ s, after ≠ '.' :: s) :
    path? (name.toList ++ rest) = some ([name], after) := by
  show names? (79 + 1) (name.toList ++ rest) = _
  rw [names?, name?_bare h hrest, Option.bind_eq_bind, Option.bind_some]
  dsimp only
  rw [hafter]
  split
  next s => exact absurd rfl (hpoint s)
  next => rfl

theorem skipBlanks_of_head {c : Char} (h : isBlank c = false) (s : Rest) : skipBlanks (c :: s) = c :: s := by
  rw [skipBlanks, List.dropWhile_cons_of_neg (by rw [h]; exact Bool.false_ne_true)]

/-! ## Lines -/

/-- a character that begins a statement -/
def Opens (c : Char) : Prop :=
  c = '[' ∨ isBare c = true

theorem Opens.ne {c d : Char} (h : Opens c) (hbracket : d ≠ '[') (hd : isBare d = false) : c ≠ d := by
  rcases h with rfl | h
  · exact hbracket.symm
  · exact isBare_ne h hd

/-- a line that holds a statement: it is read up to its end, whatever the next lines are -/
structure Line (cs : List Char) (st : Statement) : Prop where
  opens : ∃ c more, cs = c :: more ∧ Opens c
  read : ∀ rest, statement? (cs ++ '\n' :: rest) = some (st, '\n' :: rest)

/-- no statement begins with a blank -/
theorem Opens.not_blank {c : Char} (h : Opens c) : isBlank c = false := by
  have hspace : c ≠ ' ' := h.ne (by decide) (by decide)
  have htab : c ≠ '\t' := h.ne (by decide) (by decide)
  simp [isBlank, hspace, htab]

/-- the header of a section -/
def headerLine (name : String) : List Char :=
  '[' :: (name.toList ++ [']'])

theorem line_header {name : String} (h : IsBareName name) : Line (headerLine name) (.header [name]) := by
  refine ⟨⟨'[', _, rfl, .inl rfl⟩, fun rest => ?_⟩
  obtain ⟨c, cs, hcs, hc⟩ := h.head
  have hpath : path? (name.toList ++ ']' :: '\n' :: rest) = some ([name], ']' :: '\n' :: rest) := by
    refine path?_bare h (fun d hd => ?_) rfl fun s hs => absurd (List.cons.inj hs).1 (by decide)
    obtain rfl : ']' = d := Option.some.inj hd
    decide
  have hskip : skipBlanks (name.toList ++ ']' :: '\n' :: rest) = name.toList ++ ']' :: '\n' :: rest := by
    have hblank : isBlank c = false := Opens.not_blank (.inr hc)
    rw [hcs]
    exact skipBlanks_of_head hblank _
  rw [headerLine, List.cons_append, List.append_assoc, List.singleton_append, statement?]
  · rw [hskip, hpath]
    rfl
  · intro s hs
    rw [hcs, List.cons_append] at hs
    exact isBare_ne hc (by decide) (List.cons.inj hs).1

/-- an entry of a scalar -/
def entryChars (name : String) (v : Scalar) : List Char :=
  name.toList ++ ' ' :: '=' :: ' ' :: v.written.toList

theorem line_entry {name : String} (h : IsBareName name) {v : Scalar} (hv : v.Writable) :
    Line (entryChars name v) (.entry [name] (.scalar v)) := by
  obtain ⟨c, cs, hcs, hc⟩ := h.head
  refine ⟨⟨c, cs ++ _, by rw [entryChars, hcs]; rfl, .inr hc⟩, fun rest => ?_⟩
  obtain ⟨d, ds, hds, hd⟩ := written_head hv
  have hpath : path? (entryChars name v ++ '\n' :: rest) =
      some ([name], '=' :: ' ' :: (v.written.toList ++ '\n' :: rest)) := by
    rw [entryChars, List.append_assoc]
    refine path?_bare h (fun e he => ?_) rfl fun s hs => absurd (List.cons.inj hs).1 (by decide)
    obtain rfl : ' ' = e := Option.some.inj he
    decide
  have hskip : skipBlanks (' ' :: (v.written.toList ++ '\n' :: rest)) = v.written.toList ++ '\n' :: rest := by
    rw [hds]
    exact skipBlanks_of_head hd _
  have hbracket : ∀ s, entryChars name v ++ '\n' :: rest ≠ '[' :: s := by
    intro s hs
    rw [entryChars, hcs] at hs
    exact isBare_ne hc (by decide) (List.cons.inj hs).1
  rw [statement?, hpath]
  · refine Option.bind_eq_some_iff.2 ⟨_, rfl, Option.bind_eq_some_iff.2 ⟨_, rfl, ?_⟩⟩
    rw [hskip]
    exact Option.bind_eq_some_iff.2 ⟨_, value?_written hv rest _ nestingLimit, rfl⟩
  · exact fun s hs => hbracket _ hs
  · exact fun s hs => hbracket _ hs

/-! ## Documents -/

/-- lines with their statements, and empty lines between them -/
inductive Document : List Char → List Statement → Prop
  | nil : Document [] []
  | blank {cs : List Char} {sts : List Statement} : Document cs sts → Document ('\n' :: cs) sts
  | line {l cs : List Char} {st : Statement} {sts : List Statement} :
    Line l st → Document cs sts → Document (l ++ '\n' :: cs) (st :: sts)

theorem Document.append {cs ds : List Char} {sts more : List Statement} (h : Document cs sts) (hds : Document ds more) :
    Document (cs ++ ds) (sts ++ more) := by
  induction h with
  | nil => exact hds
  | blank _ ih => exact .blank ih
  | line hline _ ih =>
    rw [List.append_assoc, List.cons_append, List.cons_append]
    exact .line hline ih

/-- every statement takes a character at least -/
theorem Document.length_le {cs : List Char} {sts : List Statement} (h : Document cs sts) : sts.length ≤ cs.length := by
  induction h with
  | nil => exact Nat.le_refl _
  | blank _ ih => exact Nat.le_succ_of_le ih
  | line _ _ ih =>
    rw [List.length_append, List.length_cons, List.length_cons]
    omega

/-- a document begins with a line or with the end of an empty one -/
theorem Document.head {cs : List Char} {sts : List Statement} (h : Document cs sts) :
    ∀ c ∈ cs.head?, c = '\n' ∨ Opens c := by
  intro d hd
  cases h with
  | nil => exact absurd hd (by simp)
  | blank => exact .inl (Option.some.inj hd).symm
  | line hline =>
    obtain ⟨c, more, rfl, hc⟩ := hline.opens
    exact .inr ((Option.some.inj hd) ▸ hc)

/-- an empty line makes no difference -/
theorem statements?_blank (fuel : Nat) (s : Rest) : statements? fuel ('\n' :: s) = statements? fuel s := by
  cases fuel with
  | zero => rfl
  | succ fuel =>
    rw [statements?, statements?]
    rfl

/-- a line is read before the lines after it -/
theorem statements?_line {l : List Char} {st : Statement} (h : Line l st) (fuel : Nat) (s : Rest) :
    statements? (fuel + 1) (l ++ '\n' :: s) = (statements? fuel s).map (st :: ·) := by
  obtain ⟨c, more, rfl, hc⟩ := h.opens
  have hread := h.read s
  rw [List.cons_append] at hread ⊢
  have hcomment : ∀ s, skipComment (c :: s) = c :: s := by
    intro s
    rw [skipComment, skipBlanks_of_head hc.not_blank]
    split
    next heq => exact absurd (List.cons.inj heq).1 (hc.ne (by decide) (by decide))
    next => rfl
  have hnewline : ∀ s, newline? (c :: s) = none := by
    intro s
    unfold newline?
    split
    next heq => exact absurd (List.cons.inj heq).1 (hc.ne (by decide) (by decide))
    next heq => exact absurd (List.cons.inj heq).1 (hc.ne (by decide) (by decide))
    next => rfl
  have hskip : ∀ n s, skipLines n (c :: s) = c :: s := by
    intro n s
    cases n with
    | zero => rfl
    | succ n =>
      rw [skipLines, hcomment, hnewline]
  have hend : lineEnd? ('\n' :: s) = some s := rfl
  rw [statements?, hskip]
  show ((statement? (c :: (more ++ '\n' :: s))).bind fun r =>
    (lineEnd? r.2).bind fun s => (statements? fuel s).bind fun rest => some (r.1 :: rest)) = _
  rw [hread, Option.bind_some, hend, Option.bind_some]
  cases statements? fuel s <;> rfl

/-- **The statements of a document, line by line.** -/
theorem statements?_document {cs : List Char} {sts : List Statement} (h : Document cs sts) {fuel : Nat}
    (hfuel : sts.length < fuel) : statements? fuel cs = some sts := by
  induction h generalizing fuel with
  | nil =>
    obtain ⟨fuel, rfl⟩ : ∃ n, fuel = n + 1 := ⟨fuel - 1, by omega⟩
    rfl
  | blank _ ih => rw [statements?_blank, ih hfuel]
  | line hline _ ih =>
    obtain ⟨fuel, rfl⟩ : ∃ n, fuel = n + 1 := ⟨fuel - 1, by omega⟩
    rw [statements?_line hline, ih (Nat.lt_of_succ_lt_succ hfuel), Option.map_some]

/-! ## Sections -/

/-- a section: its name, and its entries in order -/
abbrev Section := String × List (String × Scalar)

namespace Section

/-- a section that reads back: bare names, those of the entries all different, and scalars that read back -/
structure Plain (part : Section) : Prop where
  name : IsBareName part.1
  entries : ∀ e ∈ part.2, IsBareName e.1 ∧ e.2.Writable
  different : (part.2.map Prod.fst).Nodup

def statements (part : Section) : List Statement :=
  .header [part.1] :: part.2.map fun e => .entry [e.1] (.scalar e.2)

/-- the table of a section -/
def table (part : Section) : Value :=
  .table (part.2.map fun e => (e.1, .scalar e.2))

end Section

variable {part : Section} {parts : List Section}

theorem document_entries {entries : List (String × Scalar)} (h : ∀ e ∈ entries, IsBareName e.1 ∧ e.2.Writable) :
    Document (String.join (entries.map fun e => entryLine e.1 e.2)).toList
      (entries.map fun e => .entry [e.1] (.scalar e.2)) := by
  induction entries with
  | nil => exact .nil
  | cons e entries ih =>
    have hline := line_entry (h e List.mem_cons_self).1 (h e List.mem_cons_self).2
    have hrest := ih fun d hd => h d (List.mem_cons_of_mem _ hd)
    have hchars : (entryLine e.1 e.2).toList = entryChars e.1 e.2 ++ ['\n'] := by
      rw [entryLine, entryChars, String.toList_append, String.toList_append, String.toList_append, List.append_assoc,
        List.append_assoc]
      simp
    rw [List.map_cons, List.map_cons, String.join_cons, String.toList_append, hchars, List.append_assoc,
      List.singleton_append]
    exact .line hline hrest

theorem document_section (h : part.Plain) : Document (sectionText part.1 part.2).toList part.statements := by
  have hchars : (sectionText part.1 part.2).toList =
      headerLine part.1 ++ '\n' :: (String.join (part.2.map fun e => entryLine e.1 e.2)).toList := by
    rw [sectionText, headerLine]
    simp [String.toList_append]
  rw [hchars]
  exact .line (line_header h.name) (document_entries h.entries)

/-- sections with empty lines between them -/
theorem document_sections (h : ∀ p ∈ parts, p.Plain) :
    Document ("\n".intercalate (parts.map fun p => sectionText p.1 p.2)).toList (parts.flatMap Section.statements) := by
  induction parts with
  | nil => exact .nil
  | cons part parts ih =>
    have hpart := document_section (h part List.mem_cons_self)
    have hrest := ih fun p hp => h p (List.mem_cons_of_mem _ hp)
    cases parts with
    | nil =>
      rw [List.map_singleton, String.intercalate_singleton, List.flatMap_singleton]
      exact hpart
    | cons next parts =>
      rw [List.map_cons, List.map_cons, String.intercalate_cons_cons, String.toList_append, String.toList_append,
        List.append_assoc, List.flatMap_cons]
      exact hpart.append (.blank hrest)

/-! ## The table of a document -/

theorem lookup_eq_none {β : Type} {name : String} {entries : List (String × β)} (h : name ∉ entries.map Prod.fst) :
    entries.lookup name = none := by
  rw [List.lookup_eq_none_iff]
  intro e he
  have hne : e.1 ≠ name := fun heq => h (heq ▸ List.mem_map_of_mem he)
  simpa using hne.symm

/-- a name between others that are all different is not among those before it -/
theorem new_of_nodup {name : String} {before after : List String} (h : (before ++ name :: after).Nodup) :
    name ∉ before := fun hin =>
  (List.nodup_cons.1 (List.nodup_middle.1 h)).1 (List.mem_append_left after hin)

/-- an entry is found by its name if no other has it -/
theorem lookup_of_mem {β : Type} {name : String} {v : β} {entries : List (String × β)}
    (hnames : (entries.map Prod.fst).Nodup) (h : (name, v) ∈ entries) : entries.lookup name = some v := by
  obtain ⟨before, after, rfl⟩ := List.append_of_mem h
  rw [List.map_append, List.map_cons] at hnames
  rw [List.lookup_append, lookup_eq_none (new_of_nodup hnames), Option.none_or]
  simp

namespace Entries

variable {name : String} {done : Entries}

theorem lookup_last (h : name ∉ done.map Prod.fst) (node : Node) : (done ++ [(name, node)]).lookup name = some node := by
  rw [List.lookup_append, lookup_eq_none h, Option.none_or]
  simp

theorem set_last (h : name ∉ done.map Prod.fst) (node old : Node) :
    set name node (done ++ [(name, old)]) = done ++ [(name, node)] := by
  have hsame : done.map (fun e => if e.1 = name then (name, node) else e) = done := by
    refine (List.map_congr_left fun e he => ?_).trans (List.map_id done)
    have hne : e.1 ≠ name := fun heq => h (heq ▸ List.mem_map_of_mem he)
    exact if_neg hne
  rw [set, List.map_append, hsame, List.map_singleton, if_pos rfl]

end Entries

/-- an entry goes into the table of the latest header -/
theorem add?_entry {name key : String} {done inner : Entries} (hname : name ∉ done.map Prod.fst)
    (hkey : inner.lookup key = none) (v : Value) :
    Draft.add? ⟨[name], done ++ [(name, .table .headed inner)]⟩ (.entry [key] v) =
      some ⟨[name], done ++ [(name, .table .headed (inner ++ [(key, .value v)]))]⟩ := by
  have hinsert : Entries.insert? [key] v inner = some (inner ++ [(key, .value v)]) := by
    rw [Entries.insert?, hkey]
  have hwithin : Entries.within? (Entries.insert? [key] v) [name] (done ++ [(name, .table .headed inner)]) =
      some (done ++ [(name, .table .headed (inner ++ [(key, .value v)]))]) := by
    rw [Entries.within?, Entries.lookup_last hname]
    dsimp only
    rw [Entries.within?, hinsert, Option.bind_eq_bind, Option.bind_some, Entries.set_last hname]
  rw [Draft.add?]
  dsimp only
  rw [hwithin]
  rfl

/-- the nodes of a section's entries -/
def Section.nodes (part : Section) : Entries :=
  part.2.map fun e => (e.1, .value (.scalar e.2))

theorem add?_entries {name : String} {done : Entries} (hname : name ∉ done.map Prod.fst)
    (entries : List (String × Scalar)) (inner : Entries)
    (h : (inner.map Prod.fst ++ entries.map Prod.fst).Nodup) :
    (entries.map fun e => Statement.entry [e.1] (.scalar e.2)).foldlM Draft.add?
      ⟨[name], done ++ [(name, .table .headed inner)]⟩ =
      some ⟨[name], done ++ [(name, .table .headed (inner ++ entries.map fun e => (e.1, .value (.scalar e.2))))]⟩ := by
  induction entries generalizing inner with
  | nil => simp
  | cons e entries ih =>
    have hkey : inner.lookup e.1 = none := lookup_eq_none (new_of_nodup h)
    have hrest := ih (inner ++ [(e.1, .value (.scalar e.2))]) (by
      rw [List.map_append, List.append_assoc]
      exact h)
    rw [List.map_cons, List.foldlM_cons, add?_entry hname hkey, Option.bind_eq_bind, Option.bind_some, hrest,
      List.append_assoc]
    rfl

theorem add?_section {path : List String} {done : Entries} (hname : part.1 ∉ done.map Prod.fst)
    (h : (part.2.map Prod.fst).Nodup) :
    part.statements.foldlM Draft.add? ⟨path, done⟩ =
      some ⟨[part.1], done ++ [(part.1, .table .headed part.nodes)]⟩ := by
  have hnone := lookup_eq_none hname
  have hheader : Draft.add? ⟨path, done⟩ (.header [part.1]) =
      some ⟨[part.1], done ++ [(part.1, .table .headed [])]⟩ := by
    have hopen : Entries.within? (Entries.openTable? part.1) [] done = some (done ++ [(part.1, .table .headed [])]) := by
      rw [Entries.within?, Entries.openTable?, hnone]
    rw [Draft.add?]
    show (Entries.within? (Entries.openTable? part.1) [] done).bind _ = _
    rw [hopen]
    rfl
  rw [Section.statements, List.foldlM_cons, hheader, Option.bind_eq_bind, Option.bind_some,
    add?_entries hname part.2 [] h]
  rfl

theorem add?_sections (path : List String) (done : Entries)
    (hnames : (done.map Prod.fst ++ parts.map Prod.fst).Nodup) (h : ∀ p ∈ parts, (p.2.map Prod.fst).Nodup) :
    ∃ path', (parts.flatMap Section.statements).foldlM Draft.add? ⟨path, done⟩ =
      some ⟨path', done ++ parts.map fun p => (p.1, .table .headed p.nodes)⟩ := by
  induction parts generalizing path done with
  | nil => exact ⟨path, by rw [List.map_nil, List.append_nil]; rfl⟩
  | cons part parts ih =>
    have hname : part.1 ∉ done.map Prod.fst := new_of_nodup hnames
    obtain ⟨path', hrest⟩ := ih [part.1] (done ++ [(part.1, .table .headed part.nodes)]) (by
      rw [List.map_append, List.append_assoc]
      exact hnames) fun p hp => h p (List.mem_cons_of_mem _ hp)
    refine ⟨path', ?_⟩
    rw [List.flatMap_cons, List.foldlM_append, add?_section hname (h part List.mem_cons_self), Option.bind_eq_bind,
      Option.bind_some, hrest, List.append_assoc]
    rfl

theorem closeEntries_map {α : Type} (f : α → String) (g : α → Node) (l : List α) :
    closeEntries (l.map fun a => (f a, g a)) = l.map fun a => (f a, (g a).close) := by
  induction l with
  | nil => rfl
  | cons a l ih => rw [List.map_cons, closeEntries, ih, List.map_cons]

theorem close_section (part : Section) : (Node.table .headed part.nodes).close = part.table := by
  rw [Node.close, Section.nodes, closeEntries_map, Section.table]
  simp only [Node.close]

/-- **Sections read back**: one table for each, in order, with its entries in order. -/
theorem parse?_sections (h : ∀ p ∈ parts, p.Plain) (hnames : (parts.map Prod.fst).Nodup) :
    parse? ("\n".intercalate (parts.map fun p => sectionText p.1 p.2)) = some (parts.map fun p => (p.1, p.table)) := by
  have hdocument := document_sections h
  have hlength := hdocument.length_le
  obtain ⟨path, hadd⟩ := add?_sections [] [] hnames fun p hp => (h p hp).different
  have hmark : ∀ s : Rest, s.head? ≠ some (Char.ofNat 0xFEFF) → skipMark s = s := fun s hs => if_neg hs
  have hplain : ("\n".intercalate (parts.map fun p => sectionText p.1 p.2)).toList.head? ≠ some (Char.ofNat 0xFEFF) := by
    intro hhead
    rcases hdocument.head _ hhead with hend | hopens
    · exact absurd hend (by decide)
    · exact hopens.ne (by decide) (by decide) rfl
  unfold parse?
  dsimp only
  rw [hmark _ hplain, hmark _ hplain, statements?_document hdocument (by omega), Option.bind_eq_bind, Option.bind_some,
    ofStatements?, hadd, Option.bind_eq_bind, Option.bind_some, List.nil_append, closeEntries_map]
  simp only [close_section]

end TradingRobots.Toml
