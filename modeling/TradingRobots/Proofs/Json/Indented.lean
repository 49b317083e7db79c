/-
Indented JSON reads back: every value without a part that means nothing, as long as its numbers are numerals.

The induction is on the value. The reader needs no more fuel than the text of a value has characters, and leaves what
follows the value untouched.

`Spelled.reads`: a value at the front of a text is read as far as it goes.
`parse?_pretty`: the indented text of a value is that value.
-/
import TradingRobots.Proofs.Json.Numerals
import TradingRobots.Proofs.Json.Strings

namespace TradingRobots.Json

/-- a value that its text spells: its numbers are numerals, and every part of it has a meaning -/
inductive Spelled : Json → Prop
  | null : Spelled .null
  | bool (b : Bool) : Spelled (.bool b)
  | number {text : String} : Numeral text.toList → Spelled (.number text)
  | string (text : String) : Spelled (.string text)
  | array {items : List Json} : (∀ v ∈ items, Spelled v) → Spelled (.array items)
  | object {fields : List (String × Json)} : (∀ f ∈ fields, Spelled f.2) → Spelled (.object fields)

/-! ## Lines -/

theorem prettyItems_eq_map (depth : Nat) (items : List Json) :
    prettyItems depth items = items.map (prettyAt depth) := by
  induction items with
  | nil => rfl
  | cons v rest ih => rw [prettyItems, ih, List.map_cons]

/-- a field on its line -/
def fieldText (depth : Nat) (f : String × Json) : String :=
  quoted f.1 ++ ": " ++ f.2.prettyAt depth

theorem prettyFields_eq_map (depth : Nat) (fields : List (String × Json)) :
    prettyFields depth fields = fields.map (fieldText depth) := by
  induction fields with
  | nil => rfl
  | cons f rest ih => rw [prettyFields, ih, List.map_cons, fieldText]

theorem toList_indent (depth : Nat) : (indent depth).toList = '\n' :: List.replicate (2 * depth) ' ' := by
  simp only [indent, String.toList_append, String.toList_ofList]
  rfl

/-- what stands after a line: the other lines, and the closing mark on its own -/
def linesAfter (depth : Nat) (closing : Char) : List String → List Char
  | [] => (indent depth).toList ++ [closing]
  | line :: rest => ',' :: ((indent (depth + 1)).toList ++ (line.toList ++ linesAfter depth closing rest))

theorem follows_linesAfter (depth : Nat) (closing : Char) (lines : List String) (rest : Rest) :
    Follows (linesAfter depth closing lines ++ rest) := by
  intro c hc
  cases lines with
  | nil =>
    rw [linesAfter, toList_indent] at hc
    exact .inr (Option.some.inj hc).symm
  | cons line lines => exact .inl (Option.some.inj hc).symm

/-- lines between commas, and what closes them -/
theorem intercalate_linesAfter (depth : Nat) (mark : Char) (line : String) (lines : List String) :
    (",".intercalate ((line :: lines).map (indent (depth + 1) ++ ·))).toList ++ ((indent depth).toList ++ [mark]) =
      (indent (depth + 1)).toList ++ (line.toList ++ linesAfter depth mark lines) := by
  induction lines generalizing line with
  | nil =>
    rw [List.map_singleton, String.intercalate_singleton, String.toList_append, List.append_assoc, linesAfter]
  | cons next lines ih =>
    have hfirst : ",".intercalate ((line :: next :: lines).map (indent (depth + 1) ++ ·)) =
        indent (depth + 1) ++ line ++ "," ++ ",".intercalate ((next :: lines).map (indent (depth + 1) ++ ·)) := by
      rw [List.map_cons, List.map_cons, String.intercalate_cons_cons]
    rw [hfirst, String.toList_append, String.toList_append, String.toList_append, List.append_assoc, ih, linesAfter]
    simp

theorem toList_block_nil (opening closing : String) (depth : Nat) :
    (block opening closing depth []).toList = opening.toList ++ closing.toList := by
  rw [block, List.isEmpty_nil, if_pos rfl, String.toList_append]

theorem toList_block (opening closing : String) (mark : Char) (hmark : closing.toList = [mark]) (depth : Nat)
    (line : String) (lines : List String) :
    (block opening closing depth (line :: lines)).toList =
      opening.toList ++ ((indent (depth + 1)).toList ++ (line.toList ++ linesAfter depth mark lines)) := by
  rw [block, List.isEmpty_cons, if_neg Bool.false_ne_true, String.toList_append, String.toList_append,
    String.toList_append, hmark, ← intercalate_linesAfter]
  simp only [List.append_assoc]

theorem skipBlanks_of_head {s : Rest} (h : ∀ c ∈ s.head?, isBlank c = false) : skipBlanks s = s := by
  cases s with
  | nil => rfl
  | cons c s =>
    have hc : isBlank c = false := h c rfl
    simp [skipBlanks, hc]

theorem skipBlanks_indent (depth : Nat) {s : Rest} (h : ∀ c ∈ s.head?, isBlank c = false) :
    skipBlanks ((indent depth).toList ++ s) = s := by
  have hblank : ∀ c ∈ (indent depth).toList, isBlank c = true := by
    intro c hc
    rw [toList_indent] at hc
    rcases List.mem_cons.1 hc with rfl | hc
    · rfl
    · rw [List.eq_of_mem_replicate hc]
      rfl
  rw [skipBlanks, List.dropWhile_append_of_pos hblank]
  exact skipBlanks_of_head h

/-- how the text of a value begins: with no blank, and not with the mark that ends a list -/
def Opens (s : List Char) : Prop :=
  ∃ c rest, s = c :: rest ∧ isBlank c = false ∧ c ≠ ']'

theorem Opens.head {s : List Char} (h : Opens s) (rest : Rest) : ∀ c ∈ (s ++ rest).head?, isBlank c = false := by
  obtain ⟨c, more, rfl, hblank, -⟩ := h
  intro d hd
  obtain rfl : c = d := Option.some.inj hd
  exact hblank

theorem Numeral.opens {cs : List Char} (h : Numeral cs) : Opens cs := by
  obtain ⟨c, rest, rfl, hlead⟩ := h.head
  have hblank : isBlank c = false := by
    simp only [isBlank, Bool.or_eq_false_iff, decide_eq_false_iff_not]
    exact ⟨⟨⟨hlead.ne (by decide) (by decide), hlead.ne (by decide) (by decide)⟩, hlead.ne (by decide) (by decide)⟩,
      hlead.ne (by decide) (by decide)⟩
  exact ⟨c, rest, rfl, hblank, hlead.ne (by decide) (by decide)⟩

/-- a value begins like what it is -/
theorem opens_prettyAt {v : Json} (h : Spelled v) (depth : Nat) : Opens (v.prettyAt depth).toList := by
  cases h with
  | null =>
    rw [prettyAt]
    exact ⟨'n', _, rfl, rfl, by decide⟩
  | bool b =>
    rw [prettyAt]
    cases b
    · exact ⟨'f', _, rfl, rfl, by decide⟩
    · exact ⟨'t', _, rfl, rfl, by decide⟩
  | number hnumeral =>
    rw [prettyAt]
    exact hnumeral.opens
  | string text =>
    rw [prettyAt, toList_quoted]
    exact ⟨'"', _, rfl, rfl, by decide⟩
  | @array items _ =>
    rw [prettyAt]
    cases items with
    | nil =>
      rw [prettyItems, toList_block_nil]
      exact ⟨'[', _, rfl, rfl, by decide⟩
    | cons v items =>
      rw [prettyItems, toList_block _ _ ']' rfl]
      exact ⟨'[', _, rfl, rfl, by decide⟩
  | @object fields _ =>
    rw [prettyAt]
    cases fields with
    | nil =>
      rw [prettyFields, toList_block_nil]
      exact ⟨'\x7b', _, rfl, rfl, by decide⟩
    | cons f fields =>
      rw [prettyFields, toList_block _ _ '\x7d' rfl]
      exact ⟨'\x7b', _, rfl, rfl, by decide⟩

/-! ## Reading -/

/-- at the front of a text the value is read as far as it goes -/
def ReadsBack (v : Json) : Prop :=
  ∀ (depth fuel : Nat) (rest : Rest), Follows rest → (v.prettyAt depth).toList.length ≤ fuel →
    value? fuel ((v.prettyAt depth).toList ++ rest) = some (v, rest)

/-- a value reads back, and its text begins like that of a value -/
structure Reads (v : Json) : Prop where
  back : ReadsBack v
  opens : ∀ depth, Opens (v.prettyAt depth).toList

/-! One item or field, with what stands after it. -/

section Steps

variable {fuel : Nat} {s t u rest : Rest} {v : Json} {name : Option String}

theorem items?_last (hv : value? fuel s = some (v, t)) (hclose : skipBlanks t = ']' :: rest) :
    items? (fuel + 1) s = some ([v], rest) := by
  simp only [items?, hv, hclose, Option.bind_eq_bind, Option.bind_some]

theorem items?_next {items : List Json} (hv : value? fuel s = some (v, t)) (hcomma : skipBlanks t = ',' :: u)
    (hmore : items? fuel (skipBlanks u) = some (items, rest)) : items? (fuel + 1) s = some (v :: items, rest) := by
  simp only [items?, hv, hcomma, hmore, Option.bind_eq_bind, Option.bind_some]

theorem fields?_last (hname : string? s = some (name, ':' :: t)) (hv : value? fuel (skipBlanks t) = some (v, u))
    (hclose : skipBlanks u = '\x7d' :: rest) : fields? (fuel + 1) s = some ([(name, v)], rest) := by
  have hcolon : expect? [':'] (skipBlanks (':' :: t)) = some t := rfl
  simp only [fields?, hname, hcolon, hv, hclose, Option.bind_eq_bind, Option.bind_some]

theorem fields?_next {fields : List (Option String × Json)} {w : Rest} (hname : string? s = some (name, ':' :: t))
    (hv : value? fuel (skipBlanks t) = some (v, u)) (hcomma : skipBlanks u = ',' :: w)
    (hmore : fields? fuel (skipBlanks w) = some (fields, rest)) :
    fields? (fuel + 1) s = some ((name, v) :: fields, rest) := by
  have hcolon : expect? [':'] (skipBlanks (':' :: t)) = some t := rfl
  simp only [fields?, hname, hcolon, hv, hcomma, hmore, Option.bind_eq_bind, Option.bind_some]

theorem value?_string {text : String} (h : string? ('"' :: s) = some (some text, rest)) :
    value? (fuel + 1) ('"' :: s) = some (.string text, rest) := by
  simp only [value?, h, Option.map_some, ofText]

theorem value?_array {items : List Json} {c : Char} (hc : c ≠ ']') (hs : skipBlanks s = c :: t)
    (h : items? fuel (c :: t) = some (items, rest)) : value? (fuel + 1) ('[' :: s) = some (.array items, rest) := by
  simp only [value?, hs]
  split
  next he => exact absurd (List.cons.inj he).1 hc
  next => rw [h, Option.map_some]

theorem value?_object {fields : List (Option String × Json)} {c : Char} (hc : c ≠ '\x7d') (hs : skipBlanks s = c :: t)
    (h : fields? fuel (c :: t) = some (fields, rest)) :
    value? (fuel + 1) ('\x7b' :: s) = some (ofFields fields, rest) := by
  simp only [value?, hs]
  split
  next he => exact absurd (List.cons.inj he).1 hc
  next => rw [h, Option.map_some]

end Steps

theorem skipBlanks_close (depth : Nat) {mark : Char} (hmark : isBlank mark = false) (rest : Rest) :
    skipBlanks (linesAfter depth mark [] ++ rest) = mark :: rest := by
  rw [linesAfter, List.append_assoc]
  refine skipBlanks_indent depth fun c hc => ?_
  obtain rfl : mark = c := Option.some.inj hc
  exact hmark

theorem skipBlanks_comma (depth : Nat) (mark : Char) (line : String) (lines : List String) (rest : Rest) :
    skipBlanks (linesAfter depth mark (line :: lines) ++ rest) =
      ',' :: ((indent (depth + 1)).toList ++ (line.toList ++ (linesAfter depth mark lines ++ rest))) := by
  rw [linesAfter, List.cons_append, List.append_assoc, List.append_assoc]
  exact skipBlanks_of_head fun c hc => by
    obtain rfl : ',' = c := Option.some.inj hc
    rfl

/-- items are read up to the closing bracket -/
theorem items?_lines (depth : Nat) {items : List Json} (hitems : ∀ w ∈ items, Reads w) {v : Json} (hv : Reads v)
    (fuel : Nat) (rest : Rest)
    (hfuel : (v.prettyAt (depth + 1)).toList.length +
      (linesAfter depth ']' (items.map (prettyAt (depth + 1)))).length ≤ fuel) :
    items? fuel ((v.prettyAt (depth + 1)).toList ++
      (linesAfter depth ']' (items.map (prettyAt (depth + 1))) ++ rest)) = some (v :: items, rest) := by
  induction items generalizing v fuel with
  | nil =>
    rw [List.map_nil, linesAfter, List.length_append, List.length_singleton] at hfuel
    obtain ⟨fuel, rfl⟩ : ∃ n, fuel = n + 1 := ⟨fuel - 1, by omega⟩
    have hvalue := hv.back (depth + 1) fuel _ (follows_linesAfter depth ']' [] rest) (by omega)
    exact items?_last hvalue (skipBlanks_close depth rfl rest)
  | cons w items ih =>
    have hw := hitems w List.mem_cons_self
    rw [List.map_cons, linesAfter, List.length_cons, List.length_append, List.length_append] at hfuel
    obtain ⟨fuel, rfl⟩ : ∃ n, fuel = n + 1 := ⟨fuel - 1, by omega⟩
    have hvalue := hv.back (depth + 1) fuel _
      (follows_linesAfter depth ']' ((w :: items).map (prettyAt (depth + 1))) rest) (by omega)
    refine items?_next hvalue (skipBlanks_comma depth ']' _ _ rest) ?_
    rw [skipBlanks_indent _ ((hw.opens _).head _)]
    exact ih (fun u hu => hitems u (List.mem_cons_of_mem _ hu)) hw fuel (by omega)

theorem toList_fieldText (depth : Nat) (f : String × Json) :
    (fieldText depth f).toList = (quoted f.1).toList ++ (':' :: ' ' :: (f.2.prettyAt depth).toList) := by
  rw [fieldText, String.toList_append, String.toList_append, List.append_assoc]
  rfl

/-- the name of a field -/
theorem string?_fieldText (depth : Nat) (f : String × Json) (rest : Rest) :
    string? ((fieldText depth f).toList ++ rest) =
      some (some f.1, ':' :: ' ' :: ((f.2.prettyAt depth).toList ++ rest)) := by
  rw [toList_fieldText, List.append_assoc]
  exact string?_quoted f.1 _

/-- the value under the name of a field -/
theorem value?_fieldText (depth fuel : Nat) {f : String × Json} (hf : Reads f.2) {rest : Rest} (hrest : Follows rest)
    (hfuel : (fieldText depth f).toList.length ≤ fuel) :
    value? fuel (skipBlanks (' ' :: ((f.2.prettyAt depth).toList ++ rest))) = some (f.2, rest) := by
  have hblank : skipBlanks (' ' :: ((f.2.prettyAt depth).toList ++ rest)) = (f.2.prettyAt depth).toList ++ rest :=
    skipBlanks_of_head ((hf.opens depth).head rest)
  rw [toList_fieldText, List.length_append, List.length_cons, List.length_cons] at hfuel
  rw [hblank]
  exact hf.back depth fuel rest hrest (by omega)

theorem head_fieldText (depth : Nat) (f : String × Json) (rest : Rest) :
    ∃ more, (fieldText depth f).toList ++ rest = '"' :: more := by
  rw [toList_fieldText, toList_quoted]
  exact ⟨_, rfl⟩

/-- fields are read up to the closing brace -/
theorem fields?_lines (depth : Nat) {fields : List (String × Json)} (hfields : ∀ g ∈ fields, Reads g.2)
    {f : String × Json} (hf : Reads f.2) (fuel : Nat) (rest : Rest)
    (hfuel : (fieldText (depth + 1) f).toList.length +
      (linesAfter depth '\x7d' (fields.map (fieldText (depth + 1)))).length ≤ fuel) :
    fields? fuel ((fieldText (depth + 1) f).toList ++
      (linesAfter depth '\x7d' (fields.map (fieldText (depth + 1))) ++ rest)) =
        some ((f :: fields).map fun g => (some g.1, g.2), rest) := by
  induction fields generalizing f fuel with
  | nil =>
    rw [List.map_nil, linesAfter, List.length_append, List.length_singleton] at hfuel
    obtain ⟨fuel, rfl⟩ : ∃ n, fuel = n + 1 := ⟨fuel - 1, by omega⟩
    have hvalue := value?_fieldText (depth + 1) fuel hf
      (follows_linesAfter depth '\x7d' [] rest) (by omega)
    exact fields?_last (string?_fieldText _ f _) hvalue (skipBlanks_close depth rfl rest)
  | cons g fields ih =>
    have hg := hfields g List.mem_cons_self
    rw [List.map_cons, linesAfter, List.length_cons, List.length_append, List.length_append] at hfuel
    obtain ⟨fuel, rfl⟩ : ∃ n, fuel = n + 1 := ⟨fuel - 1, by omega⟩
    have hvalue := value?_fieldText (depth + 1) fuel hf
      (follows_linesAfter depth '\x7d' ((g :: fields).map (fieldText (depth + 1))) rest) (by omega)
    refine fields?_next (string?_fieldText _ f _) hvalue (skipBlanks_comma depth '\x7d' _ _ rest) ?_
    have hmark : ∀ c ∈ ((fieldText (depth + 1) g).toList ++
        (linesAfter depth '\x7d' (fields.map (fieldText (depth + 1))) ++ rest)).head?, isBlank c = false := by
      obtain ⟨more, hmore⟩ := head_fieldText (depth + 1) g
        (linesAfter depth '\x7d' (fields.map (fieldText (depth + 1))) ++ rest)
      rw [hmore]
      rintro c ⟨⟩
      rfl
    rw [skipBlanks_indent _ hmark]
    exact ih (fun u hu => hfields u (List.mem_cons_of_mem _ hu)) hg fuel (by omega)

theorem ofFields_named (fields : List (String × Json)) :
    ofFields (fields.map fun f => (some f.1, f.2)) = .object fields := by
  have hmapM : (fields.map fun f => (some f.1, f.2)).mapM
      (fun f : Option String × Json => f.1.map fun name => (name, f.2)) = some fields := by
    rw [List.mapM_map]
    exact (List.mapM_pure (f := id)).trans (by rw [List.map_id]; rfl)
  rw [ofFields, hmapM]

/-- a number begins like no other value -/
theorem value?_numeral {text : String} {fuel : Nat} {rest : Rest} (h : Numeral text.toList) (hrest : Follows rest) :
    value? (fuel + 1) (text.toList ++ rest) = some (.number text, rest) := by
  have hnumber := number?_numeral h hrest
  obtain ⟨c, more, hcs, hlead⟩ := h.head
  rw [hcs, List.cons_append] at hnumber ⊢
  rw [value?, hnumber]
  · rfl
  · exact List.cons_ne_nil _ _
  all_goals exact fun _ he => hlead.ne (by decide) (by decide) (List.cons.inj he).1

/-- a text that is not empty needs some fuel -/
theorem ReadsBack.of_succ {v : Json} (hopens : ∀ depth, Opens (v.prettyAt depth).toList)
    (h : ∀ (depth fuel : Nat) (rest : Rest), Follows rest → (v.prettyAt depth).toList.length ≤ fuel + 1 →
      value? (fuel + 1) ((v.prettyAt depth).toList ++ rest) = some (v, rest)) : ReadsBack v := by
  intro depth fuel rest hrest hfuel
  obtain ⟨c, more, htext, -⟩ := hopens depth
  have hone : 1 ≤ fuel := by
    rw [htext, List.length_cons] at hfuel
    omega
  obtain ⟨fuel, rfl⟩ : ∃ n, fuel = n + 1 := ⟨fuel - 1, by omega⟩
  exact h depth fuel rest hrest hfuel

theorem value?_items {items : List Json} (hitems : ∀ w ∈ items, Reads w) {depth fuel : Nat} (rest : Rest)
    (hfuel : ((Json.array items).prettyAt depth).toList.length ≤ fuel + 1) :
    value? (fuel + 1) (((Json.array items).prettyAt depth).toList ++ rest) = some (.array items, rest) := by
  rw [prettyAt] at hfuel ⊢
  cases items with
  | nil =>
    rw [prettyItems, toList_block_nil]
    rfl
  | cons v items =>
    have hv := hitems v List.mem_cons_self
    have hothers : ∀ w ∈ items, Reads w := fun w hw => hitems w (List.mem_cons_of_mem _ hw)
    rw [prettyItems, prettyItems_eq_map, toList_block _ _ ']' rfl] at hfuel ⊢
    have hlines := items?_lines depth hothers hv fuel rest (by
      rw [List.length_append, List.length_append, List.length_append] at hfuel
      have hmark : ("[".toList).length = 1 := rfl
      omega)
    obtain ⟨c, more, htext, hblank, hmark⟩ := hv.opens (depth + 1)
    rw [htext, List.cons_append] at hlines
    rw [List.append_assoc, List.append_assoc, List.append_assoc, htext]
    refine value?_array hmark (skipBlanks_indent _ ?_) hlines
    rintro d ⟨⟩
    exact hblank

theorem value?_fields {fields : List (String × Json)} (hfields : ∀ g ∈ fields, Reads g.2) {depth fuel : Nat}
    (rest : Rest) (hfuel : ((Json.object fields).prettyAt depth).toList.length ≤ fuel + 1) :
    value? (fuel + 1) (((Json.object fields).prettyAt depth).toList ++ rest) = some (.object fields, rest) := by
  rw [prettyAt] at hfuel ⊢
  cases fields with
  | nil =>
    rw [prettyFields, toList_block_nil]
    rfl
  | cons f fields =>
    have hf := hfields f List.mem_cons_self
    have hothers : ∀ g ∈ fields, Reads g.2 := fun g hg => hfields g (List.mem_cons_of_mem _ hg)
    rw [prettyFields_eq_map, List.map_cons, toList_block _ _ '\x7d' rfl] at hfuel ⊢
    have hlines := fields?_lines depth hothers hf fuel rest (by
      rw [List.length_append, List.length_append, List.length_append] at hfuel
      have hmark : ("\x7b".toList).length = 1 := rfl
      omega)
    obtain ⟨more, hmore⟩ := head_fieldText (depth + 1) f
      (linesAfter depth '\x7d' (fields.map (fieldText (depth + 1))) ++ rest)
    rw [hmore] at hlines
    rw [List.append_assoc, List.append_assoc, List.append_assoc, hmore, ← ofFields_named]
    refine value?_object (c := '"') (by decide) (skipBlanks_indent _ ?_) hlines
    rintro d ⟨⟩
    rfl

/-- **A value at the front of a text is read as far as it goes.** -/
theorem Spelled.reads {v : Json} (h : Spelled v) : Reads v := by
  refine ⟨?_, opens_prettyAt h⟩
  -- for all depths, fuels and rests at once: the parts of a value stand deeper, and other text follows them
  induction h with
  | null =>
    refine .of_succ (opens_prettyAt .null) fun depth fuel rest _ _ => ?_
    rw [prettyAt]
    rfl
  | bool b =>
    refine .of_succ (opens_prettyAt (.bool b)) fun depth fuel rest _ _ => ?_
    rw [prettyAt]
    cases b <;> rfl
  | number hnumeral =>
    refine .of_succ (opens_prettyAt (.number hnumeral)) fun depth fuel rest hrest _ => ?_
    rw [prettyAt]
    exact value?_numeral hnumeral hrest
  | string text =>
    refine .of_succ (opens_prettyAt (.string text)) fun depth fuel rest _ _ => ?_
    have hstring := string?_quoted text rest
    rw [prettyAt]
    rw [toList_quoted] at hstring ⊢
    exact value?_string hstring
  | @array items hitems ih =>
    refine .of_succ (opens_prettyAt (.array hitems)) fun depth fuel rest _ hfuel => ?_
    exact value?_items (fun w hw => ⟨ih w hw, opens_prettyAt (hitems w hw)⟩) rest hfuel
  | @object fields hfields ih =>
    refine .of_succ (opens_prettyAt (.object hfields)) fun depth fuel rest _ hfuel => ?_
    exact value?_fields (fun g hg => ⟨ih g hg, opens_prettyAt (hfields g hg)⟩) rest hfuel

/-- **The indented text of a value is that value.** -/
theorem parse?_pretty {v : Json} (h : Spelled v) : parse? v.pretty = some v := by
  have hreads := h.reads
  have hvalue := hreads.back 0 (2 * v.pretty.toList.length + 2) [] (by rintro c ⟨⟩) (by
    show v.pretty.toList.length ≤ _
    omega)
  have hblank := skipBlanks_of_head ((hreads.opens 0).head [])
  rw [List.append_nil] at hvalue hblank
  unfold parse?
  dsimp only
  rw [show skipBlanks v.pretty.toList = v.pretty.toList from hblank]
  refine Option.bind_eq_some_iff.2 ⟨_, hvalue, ?_⟩
  rfl

end TradingRobots.Json
