/-
Settings come back from the file they were saved in.

Settings that pass their check have finite doubles only: shares lie between zero and one, and the others are checked to be
finite. So all that can keep them out of a file is a count above the signed machine word. Times are of that word already.

`saved_loads_back`: which settings are saved, and that these come back as they were.
-/
import TradingRobots.CommandLine.Session
import TradingRobots.Proofs.Disk.Writing
import TradingRobots.Proofs.Engine.Completion
import TradingRobots.Proofs.Settings.Fields
import TradingRobots.Proofs.Settings.Layers

namespace TradingRobots

/-! ## Counts and times -/

namespace Settings

/-- all counts that are given -/
def counts (s : Settings) : List Nat :=
  [s.population.desiredSize, s.population.minimumInstructions, s.population.maximumInstructions,
    s.population.processorFactor, s.population.maximumOffset, s.population.ignoredColumns,
    s.population.maximumRegisters, s.evolution.protectUntilOutcomes, s.evolution.outcomesToBreed,
    s.evolution.outcomesBetweenChildren, s.engine.barsBetweenUpdates] ++ s.engine.randomSeed.toList

/-- all times that are given -/
def times (s : Settings) : List Int :=
  s.engine.start.toList ++ s.engine.stop.toList

variable {s : Settings}

/-- the counts are those of the fields -/
theorem mem_counts_iff {n : Nat} :
    n ∈ s.counts ↔ ∃ part ∈ sections, ∃ f ∈ part.fields, f.kind.count? (f.get s) = some n := by
  simp [counts, sections, populationSection, evolutionSection, engineSection, PopulationSettings.fields,
    EvolutionSettings.fields, EngineSettings.fields, SettingField.within, SettingKind.count?, @eq_comm _ n, or_assoc]

end Settings

/-! ## What the check promises -/

/-- a share is finite -/
theorem isFinite_of_isShare {x : Float} (h : isShare x) : x.isFinite = true := by
  have hlow := (Binary64.le_iff _ _).1 h.1
  have hhigh := (Binary64.le_iff _ _).1 h.2
  rw [Binary64.value_zero] at hlow
  show (Random.Stream.value x).isFinite = true
  generalize Random.Stream.value x = u at hlow hhigh
  cases u with
  | notANumber => cases hlow
  | infinity sign =>
    cases sign with
    | positive => cases hhigh
    | negative => cases hlow
  | zero sign => rfl
  | finite sign m e hm => rfl

/-- what the check of the evolution's settings promises -/
theorem EvolutionSettings.check_eq_ok_iff {e : EvolutionSettings} : e.check = .ok () ↔
    (∀ which ∈ Share.all, isShare (which.value e)) ∧ e.weightExponent.isFinite ∧ e.weightExponent > 0.0 := by
  simp [check, Share.all, require_bind_eq_ok_iff, require_eq_ok_iff, and_assoc]

namespace Settings

variable {s : Settings}

/-- **What the check leaves to ask for**: settings that pass it can be held by a file if their counts and times are of the
signed machine word. -/
theorem holdable_of_check (hs : s.check = .ok ()) (hcounts : ∀ n ∈ s.counts, n < 2 ^ 63)
    (htimes : ∀ t ∈ s.times, -(2 ^ 63) ≤ t ∧ t < 2 ^ 63) :
    ∀ part ∈ sections, ∀ f ∈ part.fields, f.kind.Holdable (f.get s) := by
  obtain ⟨-, hevolution, hengine⟩ := check_eq_ok_iff.1 hs
  obtain ⟨hshares, hexponent, -⟩ := EvolutionSettings.check_eq_ok_iff.1 hevolution
  obtain ⟨-, -, ⟨hresult, -⟩, hvote, -⟩ := EngineSettings.check_eq_ok_iff.1 hengine
  have hshare (which : Share) : (which.value s.evolution).isFinite = true :=
    isFinite_of_isShare (hshares which (by cases which <;> decide))
  simp only [sections, populationSection, evolutionSection, engineSection, PopulationSettings.fields,
    EvolutionSettings.fields, EngineSettings.fields, List.map_cons, List.map_nil, SettingField.within,
    List.forall_mem_cons, List.not_mem_nil, false_implies, implies_true, and_true, true_and, SettingKind.Holdable]
  refine ⟨?population, ?evolution, fun t ht => htimes t ?start, fun t ht => htimes t ?stop, hcounts _ ?bars, hresult,
    hvote, fun n hn => hcounts n ?seed⟩
  case population => refine ⟨?_, ?_, ?_, ?_, ?_, ?_, ?_⟩ <;> exact hcounts _ (by simp [counts])
  case evolution =>
    exact ⟨hshare .maximumDeathByAge, hshare .maximumDeathByWeight, hshare .probabilityOfDeathByAge,
      hshare .probabilityOfDeathByWeight, hexponent, hshare .inheritedWeight, hcounts _ (by simp [counts]),
      hshare .newInstruction, hshare .instructionMutation, hshare .skipInstruction, hcounts _ (by simp [counts]),
      hcounts _ (by simp [counts]), hshare .randomRobots, hshare .protectBest⟩
  case start => exact List.mem_append_left _ (Option.mem_toList.2 ht)
  case stop => exact List.mem_append_right _ (Option.mem_toList.2 ht)
  case bars => simp [counts]
  case seed => exact List.mem_append_right _ (Option.mem_toList.2 hn)

/-! ## Saving and loading -/

/-- with one count above the signed machine word there is no text -/
theorem fileText?_large {n : Nat} (hn : n ∈ s.counts) (hlarge : 2 ^ 63 ≤ n) : s.fileText? = none := by
  obtain ⟨part, hpart, f, hf, hcount⟩ := mem_counts_iff.1 hn
  exact fileText?_eq_none hpart hf hcount hlarge

/-- without one there is a text, and what it gives is the settings again -/
theorem exists_fileText? (hs : s.check = .ok ()) (hcounts : ∀ n ∈ s.counts, n < 2 ^ 63)
    (htimes : ∀ t ∈ s.times, -(2 ^ 63) ≤ t ∧ t < 2 ^ 63) :
    ∃ text, s.fileText? = some text ∧ ∀ environment, (∀ v ∈ environment, Layers.variableName? v.1 = none) →
      SettingsSources.settings ⟨some (some text), environment⟩ = .ok s := by
  have hplain : ∀ p ∈ sections.map fun part => part.written s, p.Plain := by
    intro p hp
    obtain ⟨part, hpart, rfl⟩ := List.mem_map.1 hp
    exact plain_written hpart (holdable_of_check hs hcounts htimes part hpart)
  have hnames : ((sections.map fun part => part.written s).map Prod.fst).Nodup := by
    rw [List.map_map]
    exact names_sections
  refine ⟨_, fileText?_eq fun part hpart f hf n hn =>
    hcounts n (mem_counts_iff.2 ⟨part, hpart, f, hf, hn⟩), fun environment hforeign => ?_⟩
  rw [SettingsSources.settings, SettingsSources.fileEntries?]
  dsimp only
  rw [Toml.parse?_sections hplain hnames]
  dsimp only
  rw [Layers.combined?_sections hplain hnames hforeign]
  dsimp only
  rw [ofEntries?_sections]

end Settings

namespace SettingsStore

variable {store : SettingsStore}

/-- **Settings are saved unless a count is too large, and come back as they were.** For settings that pass their check: a
count above the signed machine word is refused and no text is made. Otherwise there is a text, and wherever it was
written, any store that loads it without variables of the settings is the same as the one that was saved. -/
theorem saved_loads_back (hs : store.current.check = .ok ())
    (htimes : ∀ t ∈ store.current.times, -(2 ^ 63) ≤ t ∧ t < 2 ^ 63) :
    ((∃ n ∈ store.current.counts, 2 ^ 63 ≤ n) → store.save = .error .unwritable) ∧
    ((∀ n ∈ store.current.counts, n < 2 ^ 63) → ∃ text, store.save = .ok text ∧
      ∀ disk saved path, Disk.write? disk path text = some saved →
        ∀ other environment, (∀ v ∈ environment, Layers.variableName? v.1 = none) →
          load other ⟨some (CommandLine.settingsText? saved path), environment⟩ = (.ok (), store)) := by
  constructor
  · rintro ⟨n, hn, hlarge⟩
    rw [save, Settings.fileText?_large hn hlarge]
  · intro hcounts
    obtain ⟨text, htext, hback⟩ := Settings.exists_fileText? hs hcounts htimes
    refine ⟨text, by rw [save, htext], fun disk saved path hwrite other environment hforeign => ?_⟩
    have hfile : CommandLine.settingsText? saved path = some text := by
      rw [CommandLine.settingsText?, Disk.read?_of_write? hwrite]
    rw [hfile, load, hback environment hforeign]
    dsimp only
    rw [replace, hs]

/-- settings at the ends of what files hold: counts and times of the signed machine word, the least double, negative zero,
a double of many digits, a seed, and a time left out -/
def oddSettings : Settings where
  population := { desiredSize := 2 ^ 63 - 1, ignoredColumns := 0 }
  evolution := {
    maximumDeathByAge := 5e-324
    maximumDeathByWeight := -0.0
    weightMode := .proportional
    weightExponent := 1.7976931348623157e308
    inheritedWeight := 0.1
    inheritedWeightMode := .parents }
  engine := { start := some (-(2 ^ 63)), resultThreshold := -0.0, voteThreshold := 1e22, randomSeed := some 0 }

/-- odd settings come back from a new file; with a seed above the signed machine word they are not saved -/
theorem saved_loads_back_odd :
    let seeded : Settings := { oddSettings with engine := { oddSettings.engine with randomSeed := some (2 ^ 63) } }
    let saved := fun text => (Disk.ofFiles []).withFile ["settings.toml"] text
    (∃ text, save ⟨oddSettings⟩ = .ok text ∧ load {} ⟨some (CommandLine.settingsText? (saved text) "settings.toml"),
      [("PATH", "/bin")]⟩ = (.ok (), ⟨oddSettings⟩)) ∧
    seeded.check = .ok () ∧ save ⟨seeded⟩ = .error .unwritable := by
  intro seeded saved
  have hseeded : seeded.check = .ok () := by decide +kernel
  obtain ⟨text, htext, hback⟩ := (@saved_loads_back ⟨oddSettings⟩ (by decide +kernel) (by decide)).2 (by decide)
  exact ⟨⟨text, htext, hback (Disk.ofFiles []) (saved text) "settings.toml" rfl {} [("PATH", "/bin")] (by decide)⟩,
    hseeded, (@saved_loads_back ⟨seeded⟩ hseeded (by decide)).1 ⟨2 ^ 63, by decide, le_refl _⟩⟩

/-- a large seed passes the check and is not saved -/
theorem large_seed_unsaved :
    let large : Settings := { engine := { randomSeed := some (2 ^ 63) } }
    large.check = .ok () ∧ save ⟨large⟩ = .error .unwritable :=
  ⟨rfl, rfl⟩

end SettingsStore

end TradingRobots
