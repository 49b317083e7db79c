/-
What a file holds for the fields of the settings, and what the fields take from it.

A file holds a scalar for each value that is given, unless one is a count above the signed machine word; then it holds
nothing at all. The fields, asked by name, take from the scalars what they held, so from the defaults the settings are
built up again: what is left out was not given, and the defaults do not give it either.

`savedEntries?_eq`: what a file holds for a section.
`ofEntries?_sections`: the settings that come of what a file holds.
-/
import TradingRobots.Proofs.Json.Taken
import TradingRobots.Proofs.Toml.Documents
import TradingRobots.Settings.Store

namespace TradingRobots

open Toml

theorem WeightMode.ofName?_name (mode : WeightMode) : ofName? mode.name = some mode := by
  cases mode <;> decide

/-- names of modes hold no control characters -/
theorem WeightMode.name_shown (mode : WeightMode) : ∀ c ∈ mode.name.toList, isControl c = false := by
  cases mode <;> simp [WeightMode.name, isControl]

theorem InheritedWeightMode.name_shown (mode : InheritedWeightMode) : ∀ c ∈ mode.name.toList, isControl c = false := by
  cases mode <;> simp [InheritedWeightMode.name, isControl]

theorem InheritedWeightMode.ofName?_name (mode : InheritedWeightMode) : ofName? mode.name = some mode := by
  cases mode <;> decide

/-! ## One value -/

namespace SettingKind

/-- the count that a value is, if it is one and given -/
def count? : (kind : SettingKind) → kind.Value → Option Nat
  | count, n => some n
  | optionalCount, n => n
  | _, _ => none

/-- the scalar for a value, whatever the size of a count; nothing for one that is not given -/
def written : (kind : SettingKind) → kind.Value → Option Scalar
  | flag, b => some (.flag b)
  | count, n => some (.whole n)
  | real, x => some (.real x)
  | optionalWhole, i => i.map .whole
  | optionalCount, n => n.map fun (k : Nat) => .whole k
  | weightMode, mode => some (.text mode.name)
  | inheritedWeightMode, mode => some (.text mode.name)

variable {kind : SettingKind} {value : kind.Value} {v : Scalar}

/-- **What a file holds for a value**: its scalar, unless it is a count above the signed machine word. -/
theorem saved?_eq (kind : SettingKind) (value : kind.Value) :
    kind.saved? value = if ∀ n ∈ kind.count? value, n < 2 ^ 63 then some (kind.written value) else none := by
  cases kind with
  | count => simp [saved?, count?, written]
  | optionalCount =>
    cases value with
    | none => simp [saved?, count?, written]
    | some n => simp [saved?, count?, written]
  | _ => simp [saved?, count?, written]

/-- **A field takes the value that was written.** -/
theorem ofValue?_written (h : kind.written value = some v) : kind.ofValue? (.scalar v) = some value := by
  cases kind with
  | flag =>
    obtain rfl := Option.some.inj h
    rfl
  | count =>
    obtain rfl := Option.some.inj h
    show (if (value : Int) < 0 then none else some (value : Int).toNat) = some value
    rw [if_neg (by omega), Int.toNat_natCast]
  | real =>
    obtain rfl := Option.some.inj h
    rfl
  | optionalWhole =>
    obtain ⟨i, rfl, rfl⟩ := Option.map_eq_some_iff.1 h
    rfl
  | optionalCount =>
    obtain ⟨n, rfl, rfl⟩ := Option.map_eq_some_iff.1 h
    show (if (n : Int) < 0 then none else some (n : Int).toNat).map some = some (some n)
    rw [if_neg (by omega), Int.toNat_natCast, Option.map_some]
  | weightMode =>
    obtain rfl := Option.some.inj h
    exact WeightMode.ofName?_name value
  | inheritedWeightMode =>
    obtain rfl := Option.some.inj h
    exact InheritedWeightMode.ofName?_name value

/-- a value that a file can hold as it is: doubles finite, counts and whole numbers of the signed machine word -/
def Holdable : (kind : SettingKind) → kind.Value → Prop
  | count, n => n < 2 ^ 63
  | real, x => x.isFinite = true
  | optionalWhole, i => ∀ k ∈ i, -(2 ^ 63) ≤ k ∧ k < 2 ^ 63
  | optionalCount, n => ∀ k ∈ n, k < 2 ^ 63
  | _, _ => True

theorem writable_written (hvalue : kind.Holdable value) (h : kind.written value = some v) : v.Writable := by
  cases kind with
  | flag =>
    obtain rfl := Option.some.inj h
    trivial
  | count =>
    obtain rfl := Option.some.inj h
    exact ⟨by omega, Int.ofNat_lt.2 hvalue⟩
  | real =>
    obtain rfl := Option.some.inj h
    exact hvalue
  | optionalWhole =>
    obtain ⟨i, rfl, rfl⟩ := Option.map_eq_some_iff.1 h
    exact hvalue i rfl
  | optionalCount =>
    obtain ⟨n, rfl, rfl⟩ := Option.map_eq_some_iff.1 h
    exact ⟨by omega, Int.ofNat_lt.2 (hvalue n rfl)⟩
  | weightMode =>
    obtain rfl := Option.some.inj h
    exact WeightMode.name_shown value
  | inheritedWeightMode =>
    obtain rfl := Option.some.inj h
    exact InheritedWeightMode.name_shown value

end SettingKind

/-! ## The fields of a section -/

namespace SettingField

variable {σ : Type} {fields : List (SettingField σ)}

/-- what a file holds for a field: its name with the scalar, if its value is given -/
def pair? (s : σ) (f : SettingField σ) : Option (String × Scalar) :=
  (f.kind.written (f.get s)).map fun v => (f.name, v)

/-- the values that were written, put in one after the other -/
def restored (fields : List (SettingField σ)) (s t : σ) : σ :=
  fields.foldl (fun t f => if (f.kind.written (f.get s)).isSome then f.put (f.get s) t else t) t

/-- names in the entries are names of fields -/
theorem names_entries (fields : List (SettingField σ)) (s : σ) :
    ((fields.filterMap (pair? s)).map Prod.fst).Sublist (fields.map SettingField.name) := by
  induction fields with
  | nil => exact List.Sublist.refl []
  | cons f fields ih =>
    rw [List.filterMap_cons, pair?]
    cases f.kind.written (f.get s) with
    | none => exact ih.cons _
    | some v => exact ih.cons_cons _

/-- the entry of a field is found by its name -/
theorem lookup_entries (hnames : (fields.map SettingField.name).Nodup) (s : σ) {f : SettingField σ} (hf : f ∈ fields) :
    ((fields.filterMap (pair? s)).map fun e => (e.1, Value.scalar e.2)).lookup f.name =
      (f.kind.written (f.get s)).map .scalar := by
  have hkeys : ((fields.filterMap (pair? s)).map fun e => (e.1, Value.scalar e.2)).map Prod.fst =
      (fields.filterMap (pair? s)).map Prod.fst := by
    rw [List.map_map]
    rfl
  cases hwritten : f.kind.written (f.get s) with
  | some v =>
    have hentry : (f.name, v) ∈ fields.filterMap (pair? s) :=
      List.mem_filterMap.2 ⟨f, hf, by rw [pair?, hwritten, Option.map_some]⟩
    exact lookup_of_mem (hkeys ▸ (names_entries fields s).nodup hnames) (List.mem_map_of_mem hentry)
  | none =>
    refine lookup_eq_none fun hin => ?_
    rw [hkeys] at hin
    obtain ⟨e, he, hname⟩ := List.mem_map.1 hin
    obtain ⟨g, hg, hentry⟩ := List.mem_filterMap.1 he
    obtain ⟨v, hv, rfl⟩ := Option.map_eq_some_iff.1 hentry
    -- the field of that name is the field itself
    obtain rfl : g = f := List.inj_on_of_nodup_map hnames hg hf hname
    rw [hwritten] at hv
    cases hv

/-- fields that find what was written for them take it back -/
theorem takeNamed?_of_lookup {entries : List (String × Value)} {s : σ}
    (h : ∀ f ∈ fields, entries.lookup f.name = (f.kind.written (f.get s)).map .scalar) (t : σ) :
    takeNamed? fields entries t = some (restored fields s t) := by
  induction fields generalizing t with
  | nil => rfl
  | cons f fields ih =>
    have hrest := fun t => ih (fun g hg => h g (List.mem_cons_of_mem _ hg)) t
    have hfirst := h f List.mem_cons_self
    rw [takeNamed?, List.foldlM_cons, restored, List.foldl_cons, hfirst]
    cases hwritten : f.kind.written (f.get s) with
    | none => exact hrest t
    | some v =>
      have htake : f.take? (.scalar v) t = some (f.put (f.get s) t) := by
        rw [take?, SettingKind.ofValue?_written hwritten, Option.map_some]
      show ((f.take? (.scalar v) t).bind fun t => takeNamed? fields entries t) = _
      rw [htake, Option.bind_some, hrest]
      rfl

/-- fields of a part of the whole are restored in the part -/
theorem restored_within {τ : Type} (fields : List (SettingField σ)) {part : τ → σ} {replace : σ → τ → τ}
    (part_replace : ∀ a t, part (replace a t) = a) (replace_part : ∀ t, replace (part t) t = t)
    (replace_replace : ∀ a b t, replace a (replace b t) = replace a t) (s t : τ) :
    restored (fields.map fun f => f.within part replace part_replace) s t =
      replace (restored fields (part s) (part t)) t := by
  induction fields generalizing t with
  | nil => exact (replace_part t).symm
  | cons f fields ih =>
    rw [List.map_cons, restored, List.foldl_cons, restored, List.foldl_cons]
    show restored _ s (if (f.kind.written (f.get (part s))).isSome then replace (f.put (f.get (part s)) (part t)) t else t) =
      replace (restored fields (part s) (if (f.kind.written (f.get (part s))).isSome then _ else part t)) t
    by_cases hgiven : (f.kind.written (f.get (part s))).isSome
    · rw [if_pos hgiven, if_pos hgiven, ih, part_replace, replace_replace]
    · rw [if_neg hgiven, if_neg hgiven, ih]

end SettingField

theorem PopulationSettings.restored_fields (p q : PopulationSettings) : SettingField.restored fields p q = p := by
  rfl

theorem EvolutionSettings.restored_fields (e f : EvolutionSettings) : SettingField.restored fields e f = e := by
  simp [SettingField.restored, fields, SettingKind.written]

/-- what is left out of the section is none among the defaults -/
theorem EngineSettings.restored_fields (e : EngineSettings) : SettingField.restored fields e {} = e := by
  obtain ⟨start, stop, training, bars, result, vote, seed⟩ := e
  cases start <;> cases stop <;> cases seed <;> rfl

/-- a section as it is written -/
def SettingsSection.written (part : SettingsSection) (s : Settings) : Toml.Section :=
  (part.name, part.fields.filterMap (SettingField.pair? s))

namespace Settings

variable {s : Settings} {part : SettingsSection}

/-- **What a file holds for a section** without counts above the signed machine word. -/
theorem savedEntries?_eq (h : ∀ f ∈ part.fields, ∀ n ∈ f.kind.count? (f.get s), n < 2 ^ 63) :
    s.savedEntries? part = some (part.written s).2 := by
  have hentries : (part.fields.mapM fun f => (f.kind.saved? (f.get s)).map fun v => v.map fun v => (f.name, v)) =
      some (part.fields.map (SettingField.pair? s)) := by
    refine mapM_some fun f hf => ?_
    rw [SettingKind.saved?_eq, if_pos (h f hf), Option.map_some]
    rfl
  rw [savedEntries?, hentries, Option.bind_eq_bind, Option.bind_some, List.filterMap_map]
  rfl

/-- one count above the word, and nothing is written -/
theorem savedEntries?_eq_none {f : SettingField Settings} (hf : f ∈ part.fields) {n : Nat}
    (hn : f.kind.count? (f.get s) = some n) (hbig : 2 ^ 63 ≤ n) : s.savedEntries? part = none := by
  have hnone : ¬∀ n ∈ f.kind.count? (f.get s), n < 2 ^ 63 := fun h => absurd (h n hn) (Nat.not_lt.2 hbig)
  have hentries : (part.fields.mapM fun f => (f.kind.saved? (f.get s)).map fun v => v.map fun v => (f.name, v)) = none :=
    mapM_none hf (by rw [SettingKind.saved?_eq, if_neg hnone, Option.map_none])
  rw [savedEntries?, hentries]
  rfl

theorem fileText?_eq (h : ∀ part ∈ sections, ∀ f ∈ part.fields, ∀ n ∈ f.kind.count? (f.get s), n < 2 ^ 63) :
    s.fileText? = some ("\n".intercalate
      ((sections.map fun part => part.written s).map fun p => sectionText p.1 p.2)) := by
  have hparts : (sections.mapM fun part => (s.savedEntries? part).map (sectionText part.name)) =
      some (sections.map fun part => sectionText (part.written s).1 (part.written s).2) :=
    mapM_some fun part hpart => by rw [savedEntries?_eq (h part hpart), Option.map_some]; rfl
  rw [fileText?, hparts, List.map_map]
  rfl

theorem fileText?_eq_none (hpart : part ∈ sections) {f : SettingField Settings} (hf : f ∈ part.fields) {n : Nat}
    (hn : f.kind.count? (f.get s) = some n) (hbig : 2 ^ 63 ≤ n) : s.fileText? = none := by
  have hparts : (sections.mapM fun part => (s.savedEntries? part).map (sectionText part.name)) = none :=
    mapM_none hpart (by rw [savedEntries?_eq_none hf hn hbig, Option.map_none])
  rw [fileText?, hparts]
  rfl

/-! ## Names -/

theorem names_sections : (sections.map SettingsSection.name).Nodup := by
  decide +kernel

theorem names_fields : ∀ part ∈ sections, (part.fields.map SettingField.name).Nodup := by
  decide +kernel

/-- no name needs quotation marks -/
theorem bare_names : ∀ part ∈ sections, IsBareName part.name ∧ ∀ f ∈ part.fields, IsBareName f.name := by
  simp only [sections, populationSection, evolutionSection, engineSection, PopulationSettings.fields,
    EvolutionSettings.fields, EngineSettings.fields, List.map_cons, List.map_nil, SettingField.within,
    List.forall_mem_cons, List.not_mem_nil, false_implies, implies_true, and_true, isBareName_iff, String.reduceToList]
  refine ⟨?population, ?evolution, ?engine⟩ <;> decide +kernel

/-- **A file of values that it can hold as they are reads back.** -/
theorem plain_written (hpart : part ∈ sections) (h : ∀ f ∈ part.fields, f.kind.Holdable (f.get s)) :
    (part.written s).Plain where
  name := (bare_names part hpart).1
  entries := by
    intro e he
    obtain ⟨f, hf, hpair⟩ := List.mem_filterMap.1 he
    obtain ⟨v, hv, rfl⟩ := Option.map_eq_some_iff.1 hpair
    exact ⟨(bare_names part hpart).2 f hf, SettingKind.writable_written (h f hf) hv⟩
  different := (SettingField.names_entries part.fields s).nodup (names_fields part hpart)

/-! ## The settings again -/

/-- what was written for a section goes back into its fields -/
theorem take?_written (hpart : part ∈ sections) (s t : Settings) :
    part.take? (part.written s).table t = some (SettingField.restored part.fields s t) :=
  SettingField.takeNamed?_of_lookup (fun _ hf => SettingField.lookup_entries (names_fields part hpart) s hf) t

/-- sections that find their tables are restored one after the other -/
theorem take?_sections {entries : List (String × Value)} {parts : List SettingsSection}
    (h : ∀ part ∈ parts, part ∈ sections ∧ entries.lookup part.name = some (part.written s).table) (t : Settings) :
    (parts.foldlM (fun t part =>
      match entries.lookup part.name with
      | some v => part.take? v t
      | none => some t) t) = some (parts.foldl (fun t part => SettingField.restored part.fields s t) t) := by
  induction parts generalizing t with
  | nil => rfl
  | cons part parts ih =>
    obtain ⟨hpart, hlookup⟩ := h part List.mem_cons_self
    rw [List.foldlM_cons, hlookup, List.foldl_cons, ← ih (fun q hq => h q (List.mem_cons_of_mem _ hq))]
    show (part.take? _ t).bind _ = _
    rw [take?_written hpart, Option.bind_some]

/-- **The settings again**, of what a file holds for them. -/
theorem ofEntries?_sections (s : Settings) :
    ofEntries? ((sections.map fun part => part.written s).map fun p => (p.1, p.table)) = some s := by
  have hpopulation : SettingField.restored populationSection.fields s {} = { population := s.population } := by
    refine (SettingField.restored_within PopulationSettings.fields _ ?_ ?_ s _).trans ?_
    · exact fun _ => rfl
    · exact fun _ _ _ => rfl
    · rw [PopulationSettings.restored_fields]
  have hevolution : SettingField.restored evolutionSection.fields s { population := s.population } =
      { population := s.population, evolution := s.evolution } := by
    refine (SettingField.restored_within EvolutionSettings.fields _ ?_ ?_ s _).trans ?_
    · exact fun _ => rfl
    · exact fun _ _ _ => rfl
    · rw [EvolutionSettings.restored_fields]
  have hengine : SettingField.restored engineSection.fields s { population := s.population, evolution := s.evolution } =
      s := by
    refine (SettingField.restored_within EngineSettings.fields _ ?_ ?_ s _).trans ?_
    · exact fun _ => rfl
    · exact fun _ _ _ => rfl
    · rw [EngineSettings.restored_fields]
  have hkeys : ((sections.map fun part => part.written s).map fun p => (p.1, p.table)).map Prod.fst =
      sections.map SettingsSection.name := by
    rw [List.map_map, List.map_map]
    rfl
  have hlookup : ∀ part ∈ sections, ((sections.map fun part => part.written s).map fun p => (p.1, p.table)).lookup
      part.name = some (part.written s).table := fun part hpart =>
    lookup_of_mem (hkeys ▸ names_sections) (List.mem_map_of_mem (List.mem_map_of_mem hpart))
  refine (take?_sections (fun part hpart => ⟨hpart, hlookup part hpart⟩) {}).trans ?_
  rw [sections, List.foldl_cons, List.foldl_cons, List.foldl_cons, List.foldl_nil, hpopulation, hevolution, hengine]

end Settings

end TradingRobots
