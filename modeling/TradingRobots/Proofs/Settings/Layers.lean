/-
A file without variables over it.

A bare name is a route of one step, so a section lands at the top under its own name, and its entries land in it one
after the other: over nothing, all of the file comes out as it was.

`combined?_sections`: what comes of sections when no variable belongs to the settings.
-/
import TradingRobots.Proofs.Toml.Documents
import TradingRobots.Settings.Layers

namespace TradingRobots

open Toml

/-! ## Laying over what has other names -/

theorem Toml.setEntry_new {name : String} {done : List (String × Value)} (h : name ∉ done.map Prod.fst) (v : Value) :
    setEntry name v done = done ++ [(name, v)] := by
  induction done with
  | nil => rfl
  | cons e done ih =>
    rw [List.map_cons, List.mem_cons, not_or] at h
    rw [setEntry, if_neg (Ne.symm h.1), ih h.2, List.cons_append]

theorem Toml.entriesOver_new (entries : List (String × Scalar)) (done : List (String × Value))
    (h : (done.map Prod.fst ++ entries.map Prod.fst).Nodup) :
    entriesOver (entries.map fun e => (e.1, .scalar e.2)) done = done ++ entries.map fun e => (e.1, .scalar e.2) := by
  induction entries generalizing done with
  | nil => simp [entriesOver]
  | cons e entries ih =>
    have hname : e.1 ∉ done.map Prod.fst := new_of_nodup h
    have hrest := ih (done ++ [(e.1, .scalar e.2)]) (by
      rw [List.map_append, List.append_assoc]
      exact h)
    have hover : (Value.scalar e.2).over .gap = .scalar e.2 := by
      rw [Value.over]
      exact fun _ heq => nomatch heq
    rw [List.map_cons, entriesOver, lookup_eq_none hname, Option.getD_none, hover, setEntry_new hname, hrest,
      List.append_assoc]
    rfl

/-- a section over nothing -/
theorem Toml.Section.table_over {part : Toml.Section} (h : (part.2.map Prod.fst).Nodup) :
    part.table.over .gap = part.table := by
  rw [Section.table, Value.over]
  exact congrArg Value.table (entriesOver_new part.2 [] h)

/-! ## Names at the top -/

namespace Route

/-- a bare name is a route of one step -/
theorem ofName_bare {name : String} (h : IsBareName name) : ofName name = [.entry name] := by
  obtain ⟨htake, hdrop⟩ := Reading.span_append (p := isNameChar) h.chars [] fun c hc => absurd hc (by simp)
  rw [List.append_nil] at htake hdrop
  have hname : name? name.toList = some (name, []) := by
    have hempty : name.toList.isEmpty = false := List.isEmpty_eq_false_iff.2 h.nonempty
    unfold name?
    dsimp only
    rw [htake, hdrop, hempty, String.ofList_toList]
    rfl
  rw [ofName, ofChars?, hname]
  rfl

/-- a section is laid at the top, after the sections of other names -/
theorem lay_section {part : Toml.Section} (h : part.Plain) {done : List (String × Value)}
    (hname : part.1 ∉ done.map Prod.fst) :
    lay (ofName part.1) part.table (.table done) = .table (done ++ [(part.1, part.table)]) := by
  rw [ofName_bare h.name, lay, lay]
  dsimp only [Value.entries]
  rw [lookup_eq_none hname, Option.getD_none, Section.table_over h.different, setEntry_new hname]

end Route

namespace Layers

open Route

variable {parts : List Toml.Section} {pairs : List (String × String)}

theorem lay_sections (h : ∀ p ∈ parts, p.Plain) (done : List (String × Value))
    (hnames : (done.map Prod.fst ++ parts.map Prod.fst).Nodup) :
    (parts.map fun p => (p.1, p.table)).foldl (fun root e => lay (ofName e.1) e.2 root) (.table done) =
      .table (done ++ parts.map fun p => (p.1, p.table)) := by
  induction parts generalizing done with
  | nil => simp
  | cons part parts ih =>
    have hname : part.1 ∉ done.map Prod.fst := new_of_nodup hnames
    have hrest := ih (fun p hp => h p (List.mem_cons_of_mem _ hp)) (done ++ [(part.1, part.table)]) (by
      rw [List.map_append, List.append_assoc]
      exact hnames)
    rw [List.map_cons, List.foldl_cons, lay_section (h part List.mem_cons_self) hname, hrest, List.append_assoc]
    rfl

/-- variables that do not belong to the settings give nothing -/
theorem ofEnvironment_eq_nil (h : ∀ v ∈ pairs, variableName? v.1 = none) : ofEnvironment pairs = [] := by
  refine List.filterMap_eq_nil_iff.2 fun v hv => ?_
  rw [h v hv, Option.map_none]

/-- **Sections alone come out as they were.** -/
theorem combined?_sections (h : ∀ p ∈ parts, p.Plain) (hnames : (parts.map Prod.fst).Nodup)
    (hpairs : ∀ v ∈ pairs, variableName? v.1 = none) :
    combined? (parts.map fun p => (p.1, p.table)) pairs = some (parts.map fun p => (p.1, p.table)) := by
  have hreachable : ((parts.map fun p => (p.1, p.table)).all fun e => isReachable (ofName e.1)) = true := by
    rw [List.all_eq_true]
    intro e he
    obtain ⟨p, hp, rfl⟩ := List.mem_map.1 he
    rw [ofName_bare (h p hp).name]
    rfl
  rw [combined?, ofEnvironment_eq_nil hpairs, List.append_nil, lay?, if_pos hreachable,
    lay_sections h [] hnames]
  rfl

end Layers

end TradingRobots
