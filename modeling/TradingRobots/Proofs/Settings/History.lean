/-
The settings in force over any history of changes.

Every change goes the same way: settings are asked for, by name, as a change of those in force, or by a file and the
environment; they are put in force when they pass their check, and otherwise nothing happens. What a load asks for is made
from the defaults and its sources alone.

`attempt_eq_ok_iff`: when a change is granted, and what is in force then.
`attempt_refused`: a change that is refused.
`history_keeps_checked`: the settings in force always pass their check, and refusals change nothing.
-/
import TradingRobots.Settings.Store

namespace TradingRobots.SettingsStore

/-- a way to change the settings in force -/
inductive Change where
  /-- from a file, if one is named, and the environment -/
  | load (sources : SettingsSources)
  | replace (s : Settings)
  | update (change : Settings → Settings)

/-- the settings that a change asks for, or why there are none -/
def asked (store : SettingsStore) : Change → Except SettingsDefect Settings
  | .load sources => sources.settings
  | .replace s => .ok s
  | .update change => .ok (change store.current)

/-- what a change comes to, and the store after it -/
def attempt (store : SettingsStore) : Change → Except SettingsDefect Unit × SettingsStore
  | .load sources => store.load sources
  | .replace s => store.replace s
  | .update change => store.update change

/-- the store after a change -/
def apply (store : SettingsStore) (change : Change) : SettingsStore :=
  (store.attempt change).2

/-- the store after a history of changes -/
def after (store : SettingsStore) (changes : List Change) : SettingsStore :=
  changes.foldl apply store

variable {store changed : SettingsStore}

/-! ## One change -/

theorem replace_eq_ok_iff {s : Settings} :
    store.replace s = (.ok (), changed) ↔ s.check = .ok () ∧ changed.current = s := by
  unfold replace
  cases hs : s.check with
  | error v => simp
  | ok =>
    simp only [Prod.mk.injEq, true_and]
    exact ⟨fun h => h ▸ rfl, fun h => by rw [← h]⟩

/-- settings that are refused are not put in force, nor are any others -/
theorem replace_refused {s : Settings} {e : SettingsDefect} (h : (store.replace s).1 = .error e) :
    (store.replace s).2 = store := by
  unfold replace at h ⊢
  cases hs : s.check with
  | error v => rfl
  | ok =>
    rw [hs] at h
    cases h

/-- a change that asks for settings puts them in their place -/
theorem attempt_of_asked {change : Change} {s : Settings} (h : store.asked change = .ok s) :
    store.attempt change = store.replace s := by
  cases change with
  | load sources =>
    have hsources : sources.settings = .ok s := h
    show store.load sources = _
    rw [load, hsources]
  | replace s' =>
    cases h
    rfl
  | update change =>
    cases h
    rfl

/-- a change that asks for none is refused -/
theorem attempt_of_unasked {change : Change} {e : SettingsDefect} (h : store.asked change = .error e) :
    store.attempt change = (.error e, store) := by
  cases change with
  | load sources =>
    have hsources : sources.settings = .error e := h
    show store.load sources = _
    rw [load, hsources]
  | replace s => cases h
  | update change => cases h

/-- **When a change is granted**: when it asks for settings that pass their check, and these are in force then. -/
theorem attempt_eq_ok_iff {change : Change} :
    store.attempt change = (.ok (), changed) ↔
      store.asked change = .ok changed.current ∧ changed.current.check = .ok () := by
  cases hasked : store.asked change with
  | error e =>
    rw [attempt_of_unasked hasked]
    simp
  | ok s =>
    rw [attempt_of_asked hasked, replace_eq_ok_iff, Except.ok.injEq]
    constructor
    · rintro ⟨hs, rfl⟩
      exact ⟨rfl, hs⟩
    · rintro ⟨rfl, hs⟩
      exact ⟨hs, rfl⟩

/-- **A change that is refused leaves the store as it was.** -/
theorem attempt_refused {change : Change} {e : SettingsDefect} (h : (store.attempt change).1 = .error e) :
    (store.attempt change).2 = store := by
  cases hasked : store.asked change with
  | error defect => rw [attempt_of_unasked hasked]
  | ok s =>
    rw [attempt_of_asked hasked] at h ⊢
    exact replace_refused h

/-- a change keeps the settings in force within their bounds -/
theorem checked_apply (h : store.current.check = .ok ()) (change : Change) :
    (store.apply change).current.check = .ok () := by
  cases hresult : (store.attempt change).1 with
  | error e =>
    rw [apply, attempt_refused hresult]
    exact h
  | ok => exact (attempt_eq_ok_iff.1 (Prod.ext hresult rfl)).2

/-! ## Histories -/

theorem checked_after (h : store.current.check = .ok ()) (changes : List Change) :
    (store.after changes).current.check = .ok () := by
  induction changes generalizing store with
  | nil => exact h
  | cons change rest ih => exact ih (checked_apply h change)

/-- the defaults keep their own bounds -/
theorem check_default : ({} : SettingsStore).current.check = .ok () := rfl

/-- **The settings in force always pass their check, and refusals change nothing.** After any history of loads,
replacements and updates of a new store, the settings in force pass. Whatever is tried next: a refusal leaves the store
as it was; the change is granted exactly when it asks for settings that pass, and then the store holds what was asked
for, which is the given settings, the function's result on those in force, or what the sources make of the defaults; and a
load comes to the same in every other store. -/
theorem history_keeps_checked (history : List Change) (next : Change) :
    let store := ({} : SettingsStore).after history
    store.current.check = .ok () ∧
    (∀ e, (store.attempt next).1 = .error e → (store.attempt next).2 = store) ∧
    (∀ changed, store.attempt next = (.ok (), changed) ↔
      store.asked next = .ok changed.current ∧ changed.current.check = .ok ()) ∧
    (∀ changed, store.attempt next = (.ok (), changed) → store.apply next = changed ∧
      match next with
      | .load sources => sources.settings = .ok changed.current ∧
          ∀ other, attempt other (.load sources) = (.ok (), changed)
      | .replace s => changed.current = s
      | .update change => changed.current = change store.current) := by
  intro store
  refine ⟨checked_after check_default history, fun e => attempt_refused, fun changed => attempt_eq_ok_iff, ?_⟩
  intro changed hgranted
  refine ⟨by rw [apply, hgranted], ?_⟩
  have hasked := (attempt_eq_ok_iff.1 hgranted).1
  cases next with
  | load sources =>
    refine ⟨hasked, fun other => attempt_eq_ok_iff.2 ⟨hasked, ?_⟩⟩
    exact (attempt_eq_ok_iff.1 hgranted).2
  | replace s => exact (Except.ok.inj hasked).symm
  | update change => exact (Except.ok.inj hasked).symm

end TradingRobots.SettingsStore
