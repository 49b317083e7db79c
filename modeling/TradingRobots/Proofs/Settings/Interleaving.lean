/-
Calls that update one store at the same time.

A call copies the settings in force, changes its copy, and asks the store to replace what is in force by then. The store
does each of the two steps at once, but between them other calls may take theirs, and the store does not hold them back. A
schedule says which call takes its next step; a call that has returned takes no more.

Settings carry the calls that made them: the makers of a copy, and then the call itself. The settings in force are what
their makers give one after the other. A call that is not among them is lost, and that happens exactly when some call
writes while another one holds its copy.

`step_step`: a call that takes both steps at once is an update. `undisturbed_inTurn`: calls that take them in turn.
`run_tagged`: settings with their makers are the settings of the store.
`Accounted`, `accounted_run`: what makers tell.
`updates_survive_undisturbed`: which updates are in force in the end.
`update_lost`: two updates of a new store, of which one is lost.
-/
import Mathlib.Data.List.Induction
import Mathlib.Data.List.Nodup
import Mathlib.Logic.Function.Basic
import TradingRobots.Proofs.Settings.History
import TradingRobots.Settings.Field

namespace TradingRobots

/-- a change leaves a field as it is -/
def SettingField.KeptBy (f : SettingField Settings) (change : Settings → Settings) : Prop :=
  ∀ s, f.get (change s) = f.get s

namespace SettingsStore

/-! ## Steps of calls -/

/-- how far a call has come -/
inductive Phase (σ : Type) where
  | waiting
  | copied (copy : σ)
  | returned (result : Except SettingsDefect σ)

/-- what is in force, and how far every call has come -/
structure Race (ι σ : Type) where
  inForce : σ
  phase : ι → Phase σ

namespace Race

variable {ι σ : Type}

/-- the next step of a call: it copies what is in force, or it writes what comes of its copy; a write gives what is in
force after it, and why it is refused -/
def step [DecidableEq ι] (write : σ → ι → σ → Except SettingsDefect Unit × σ) (r : Race ι σ) (i : ι) : Race ι σ :=
  match r.phase i with
  | .waiting => { r with phase := Function.update r.phase i (.copied r.inForce) }
  | .copied copy =>
    let (result, after) := write r.inForce i copy
    ⟨after, Function.update r.phase i (.returned (result.map fun _ => after))⟩
  | .returned _ => r

/-- no call has begun -/
def start (s : σ) : Race ι σ := ⟨s, fun _ => .waiting⟩

/-- the steps of a schedule, one after the other -/
def run [DecidableEq ι] (write : σ → ι → σ → Except SettingsDefect Unit × σ) (s : σ) (schedule : List ι) : Race ι σ :=
  schedule.foldl (step write) (start s)

/-- a call has its copy and has not written yet -/
def Holds (r : Race ι σ) (i : ι) : Prop :=
  ∃ copy, r.phase i = .copied copy

/-- no call writes while another one holds its copy -/
def Undisturbed [DecidableEq ι] (write : σ → ι → σ → Except SettingsDefect Unit × σ) (s : σ) (schedule : List ι) : Prop :=
  ∀ before i, before ++ [i] <+: schedule → (run write s before).Holds i → ∀ j, (run write s before).Holds j → j = i

/-- a value that is in force or copied -/
def AtHand (r : Race ι σ) (s : σ) : Prop :=
  s = r.inForce ∨ ∃ i, r.phase i = .copied s

theorem Holds.begun {r : Race ι σ} {i : ι} (h : r.Holds i) : r.phase i ≠ .waiting := by
  obtain ⟨copy, hcopy⟩ := h
  rw [hcopy]
  exact nofun

/-! ## The store, with and without makers -/

/-- what a call writes: the store replaces what is in force by the changed copy -/
def put (change : ι → Settings → Settings) (inForce : SettingsStore) (i : ι) (copy : SettingsStore) :
    Except SettingsDefect Unit × SettingsStore :=
  inForce.replace (change i copy.current)

/-- a store with the calls that made its settings, from the first on -/
structure Made (ι : Type) where
  store : SettingsStore
  makers : List ι

/-- what a call writes is made by those that made its copy, and by the call; after a refusal the makers are as before -/
def putMade (change : ι → Settings → Settings) (inForce : Made ι) (i : ι) (copy : Made ι) :
    Except SettingsDefect Unit × Made ι :=
  match put change inForce.store i copy.store with
  | (.error e, store) => (.error e, ⟨store, inForce.makers⟩)
  | (.ok (), store) => (.ok (), ⟨store, copy.makers ++ [i]⟩)

/-- a phase without makers -/
def untagged : Phase (Made ι) → Phase SettingsStore
  | .waiting => .waiting
  | .copied copy => .copied copy.store
  | .returned result => .returned (result.map Made.store)

/-- two races in step, one of them with makers -/
structure Tagged (r : Race ι SettingsStore) (m : Race ι (Made ι)) : Prop where
  inForce : m.inForce.store = r.inForce
  phase : ∀ i, untagged (m.phase i) = r.phase i

variable {change : ι → Settings → Settings} {store stored : SettingsStore} {i : ι}

theorem put_current {inForce copy : SettingsStore} (h : put change inForce i copy = (.ok (), stored)) :
    stored.current = change i copy.current :=
  (replace_eq_ok_iff.1 h).2

/-- a write that is refused leaves what is in force alone, as `put` and `putMade` do -/
def LeavesAlone (write : σ → ι → σ → Except SettingsDefect Unit × σ) : Prop :=
  ∀ inForce i copy, (∃ e, write inForce i copy = (.error e, inForce)) ∨ ∃ after, write inForce i copy = (.ok (), after)

theorem leavesAlone_put (change : ι → Settings → Settings) : LeavesAlone (put change) := by
  intro inForce i copy
  cases hresult : (put change inForce i copy).1 with
  | error e => exact .inl ⟨e, Prod.ext hresult (replace_refused hresult)⟩
  | ok => exact .inr ⟨_, Prod.ext hresult rfl⟩

theorem putMade_of_refused {inForce copy : Made ι} {e : SettingsDefect}
    (h : put change inForce.store i copy.store = (.error e, inForce.store)) :
    putMade change inForce i copy = (.error e, inForce) := by
  rw [putMade, h]

theorem putMade_of_granted {inForce copy : Made ι} (h : put change inForce.store i copy.store = (.ok (), stored)) :
    putMade change inForce i copy = (.ok (), ⟨stored, copy.makers ++ [i]⟩) := by
  rw [putMade, h]

theorem leavesAlone_putMade (change : ι → Settings → Settings) : LeavesAlone (putMade change) := by
  intro inForce i copy
  rcases leavesAlone_put change inForce.store i copy.store with ⟨e, hput⟩ | ⟨stored, hput⟩
  · exact .inl ⟨e, putMade_of_refused hput⟩
  · exact .inr ⟨_, putMade_of_granted hput⟩

theorem putMade_eq_ok {inForce copy m : Made ι} (h : putMade change inForce i copy = (.ok (), m)) :
    put change inForce.store i copy.store = (.ok (), m.store) ∧ m.makers = copy.makers ++ [i] := by
  rcases leavesAlone_put change inForce.store i copy.store with ⟨e, hput⟩ | ⟨stored, hput⟩
  · rw [putMade_of_refused hput] at h
    cases h
  · rw [putMade_of_granted hput] at h
    cases h
    exact ⟨hput, rfl⟩

theorem tagged_start (store : SettingsStore) : Tagged (start store) (start ⟨store, ([] : List ι)⟩) :=
  ⟨rfl, fun _ => rfl⟩

theorem Tagged.holds_iff {r : Race ι SettingsStore} {m : Race ι (Made ι)} (h : Tagged r m) (i : ι) :
    r.Holds i ↔ m.Holds i := by
  unfold Holds
  rw [← h.phase i]
  cases m.phase i with
  | waiting => simp only [untagged, reduceCtorEq, exists_false]
  | copied copy => exact ⟨fun _ => ⟨copy, rfl⟩, fun _ => ⟨copy.store, rfl⟩⟩
  | returned result => simp only [untagged, reduceCtorEq, exists_false]

theorem Tagged.written {r : Race ι SettingsStore} {m : Race ι (Made ι)} (h : Tagged r m)
    (hwritten : r.phase i = .returned (.ok stored)) :
    ∃ made, m.phase i = .returned (.ok made) ∧ made.store = stored := by
  have hphase := h.phase i
  rw [hwritten] at hphase
  cases hm : m.phase i with
  | waiting =>
    rw [hm] at hphase
    cases (show Phase.waiting = _ from hphase)
  | copied copy =>
    rw [hm] at hphase
    cases (show Phase.copied copy.store = _ from hphase)
  | returned result =>
    rw [hm] at hphase
    have hresult : result.map Made.store = .ok stored := Phase.returned.inj hphase
    cases result with
    | error e => cases hresult
    | ok made => exact ⟨made, rfl, Except.ok.inj hresult⟩

/-- settings are what their makers give one after the other, and all of these have written -/
structure Accounted (change : ι → Settings → Settings) (store : SettingsStore) (r : Race ι (Made ι)) : Prop where
  applied : ∀ m, r.AtHand m → m.store.current = m.makers.foldl (fun s i => change i s) store.current
  nodup : ∀ m, r.AtHand m → m.makers.Nodup
  granted : ∀ m, r.AtHand m → ∀ i ∈ m.makers, ∃ w, r.phase i = .returned (.ok w)
  kept : ∀ m, r.AtHand m → ∀ i ∈ m.makers, ∀ w, r.phase i = .returned (.ok w) → ∀ f : SettingField Settings,
    (∀ j ∈ m.makers, j ≠ i → f.KeptBy (change j)) → f.get m.store.current = f.get w.store.current

theorem accounted_start (change : ι → Settings → Settings) (store : SettingsStore) :
    Accounted change store (start ⟨store, []⟩) := by
  have hnone : ∀ m : Made ι, (start ⟨store, []⟩ : Race ι (Made ι)).AtHand m → m = ⟨store, []⟩ := by
    rintro m (h | ⟨i, h⟩)
    · exact h
    · cases h
  constructor
  · intro m h
    rw [hnone m h]
    rfl
  · intro m h
    rw [hnone m h]
    exact List.nodup_nil
  · intro m h i hi
    rw [hnone m h] at hi
    cases hi
  · intro m h i hi
    rw [hnone m h] at hi
    cases hi

/-- a call that holds its copy has made nothing yet -/
theorem Accounted.not_maker {r : Race ι (Made ι)} {m copy : Made ι} (h : Accounted change store r)
    (hcopy : r.phase i = .copied copy) (hm : r.AtHand m) : i ∉ m.makers := by
  intro hi
  obtain ⟨w, hw⟩ := h.granted m hm i hi
  rw [hcopy] at hw
  cases hw

/-- calls that keep a field leave it as it was -/
theorem get_foldl_of_kept {f : SettingField Settings} {calls : List ι} (h : ∀ i ∈ calls, f.KeptBy (change i))
    (s : Settings) : f.get (calls.foldl (fun s i => change i s) s) = f.get s := by
  induction calls generalizing s with
  | nil => rfl
  | cons i rest ih =>
    obtain ⟨hfirst, hrest⟩ := List.forall_mem_cons.1 h
    rw [List.foldl_cons, ih hrest]
    exact hfirst s

/-! ## One step -/

variable [DecidableEq ι]

section Steps

variable {write : σ → ι → σ → Except SettingsDefect Unit × σ} {r : Race ι σ} {i j : ι} {s copy written : σ}

theorem run_append (write : σ → ι → σ → Except SettingsDefect Unit × σ) (s : σ) (before rest : List ι) :
    run write s (before ++ rest) = rest.foldl (step write) (run write s before) :=
  List.foldl_append

theorem run_concat (write : σ → ι → σ → Except SettingsDefect Unit × σ) (s : σ) (schedule : List ι) (i : ι) :
    run write s (schedule ++ [i]) = (run write s schedule).step write i :=
  run_append write s schedule [i]

/-- what every step keeps is kept -/
theorem foldl_invariant {P : Race ι σ → Prop} (h : P r) (hstep : ∀ r i, P r → P (r.step write i))
    (schedule : List ι) : P (schedule.foldl (step write) r) := by
  induction schedule generalizing r with
  | nil => exact h
  | cons i rest ih => exact ih (hstep r i h)

theorem step_waiting (write : σ → ι → σ → Except SettingsDefect Unit × σ) (h : r.phase i = .waiting) :
    (r.step write i).inForce = r.inForce ∧ (r.step write i).phase i = .copied r.inForce := by
  simp only [step, h, Function.update_self, and_self]

theorem step_refused {e : SettingsDefect} (h : r.phase i = .copied copy)
    (hwrite : write r.inForce i copy = (.error e, written)) :
    (r.step write i).inForce = written ∧ (r.step write i).phase i = .returned (.error e) := by
  simp only [step, h, hwrite, Function.update_self, Except.map, and_self]

theorem step_granted (h : r.phase i = .copied copy) (hwrite : write r.inForce i copy = (.ok (), written)) :
    (r.step write i).inForce = written ∧ (r.step write i).phase i = .returned (.ok written) := by
  simp only [step, h, hwrite, Function.update_self, Except.map, and_self]

theorem step_returned {result : Except SettingsDefect σ} (h : r.phase i = .returned result) : r.step write i = r := by
  rw [step, h]

/-- a step is a matter of one call -/
theorem phase_step_of_ne (h : j ≠ i) : (r.step write i).phase j = r.phase j := by
  unfold step
  split
  · exact Function.update_of_ne h _ _
  · exact Function.update_of_ne h _ _
  · rfl

/-- a call that has returned stays so -/
theorem phase_step_of_returned {result : Except SettingsDefect σ} (h : r.phase j = .returned result) (i : ι) :
    (r.step write i).phase j = .returned result := by
  by_cases hji : j = i
  · subst hji
    rw [step_returned h]
    exact h
  · rw [phase_step_of_ne hji]
    exact h

/-- **What a step brings**: a value at hand was at hand before, or the call wrote it just now, out of its copy. -/
theorem atHand_step (hwrites : LeavesAlone write) (h : (r.step write i).AtHand s) :
    r.AtHand s ∨ ∃ copy, r.phase i = .copied copy ∧ write r.inForce i copy = (.ok (), s) ∧
      (r.step write i).phase i = .returned (.ok s) := by
  have hothers : ∀ j, j ≠ i → (r.step write i).phase j = .copied s → r.AtHand s := by
    intro j hji hj
    rw [phase_step_of_ne hji] at hj
    exact .inr ⟨j, hj⟩
  cases hphase : r.phase i with
  | waiting =>
    obtain ⟨hforce, hself⟩ := step_waiting write hphase
    left
    rcases h with h | ⟨j, hj⟩
    · exact .inl (h.trans hforce)
    · rcases eq_or_ne j i with rfl | hji
      · rw [hself] at hj
        exact .inl (Phase.copied.inj hj).symm
      · exact hothers j hji hj
  | copied copy =>
    rcases hwrites r.inForce i copy with ⟨e, hwrite⟩ | ⟨written, hwrite⟩
    · obtain ⟨hforce, hself⟩ := step_refused hphase hwrite
      left
      rcases h with h | ⟨j, hj⟩
      · exact .inl (h.trans hforce)
      · rcases eq_or_ne j i with rfl | hji
        · rw [hself] at hj
          cases hj
        · exact hothers j hji hj
    · obtain ⟨hforce, hself⟩ := step_granted hphase hwrite
      rcases h with rfl | ⟨j, hj⟩
      · right
        rw [hforce]
        exact ⟨copy, rfl, hwrite, hself⟩
      · left
        rcases eq_or_ne j i with rfl | hji
        · rw [hself] at hj
          cases hj
        · exact hothers j hji hj
  | returned result =>
    left
    rwa [step_returned hphase] at h

/-- a call that holds its copy returns with its next step -/
theorem returned_step (write : σ → ι → σ → Except SettingsDefect Unit × σ) (h : r.phase i = .copied copy) :
    ∃ result, (r.step write i).phase i = .returned result := by
  rcases hwrite : write r.inForce i copy with ⟨_ | _, written⟩
  · exact ⟨_, (step_refused h hwrite).2⟩
  · exact ⟨_, (step_granted h hwrite).2⟩

/-- a copy that is held after a step was held before, or the step took it -/
theorem copied_of_step (h : (r.step write i).phase j = .copied copy) :
    r.phase j = .copied copy ∨ j = i ∧ r.phase i = .waiting ∧ copy = r.inForce := by
  rcases eq_or_ne j i with rfl | hji
  · cases hphase : r.phase j with
    | waiting =>
      rw [(step_waiting write hphase).2] at h
      exact .inr ⟨rfl, rfl, (Phase.copied.inj h).symm⟩
    | copied held =>
      obtain ⟨result, hresult⟩ := returned_step write hphase
      rw [hresult] at h
      cases h
    | returned result =>
      rw [step_returned hphase, hphase] at h
      cases h
  · rw [phase_step_of_ne hji] at h
    exact .inl h

/-- only the call that takes a step can come by a copy -/
theorem holds_of_step (h : (r.step write i).Holds j) : r.Holds j ∨ j = i := by
  obtain ⟨copy, hcopy⟩ := h
  exact (copied_of_step hcopy).imp (fun hcopy => ⟨copy, hcopy⟩) And.left

/-- a call that takes a step has begun, -/
theorem begun_of_step (r : Race ι σ) (i : ι) : (r.step write i).phase i ≠ .waiting := by
  cases hphase : r.phase i with
  | waiting =>
    rw [(step_waiting write hphase).2]
    exact nofun
  | copied held =>
    obtain ⟨result, hresult⟩ := returned_step write hphase
    rw [hresult]
    exact nofun
  | returned result =>
    rw [step_returned hphase, hphase]
    exact nofun

/-- and a call that has begun does not wait again. -/
theorem begun_step (h : r.phase j ≠ .waiting) (i : ι) : (r.step write i).phase j ≠ .waiting := by
  rcases eq_or_ne j i with rfl | hji
  · exact begun_of_step r j
  · rw [phase_step_of_ne hji]
    exact h

/-- only calls of the schedule begin -/
theorem mem_of_begun {schedule : List ι} (h : (run write s schedule).phase i ≠ .waiting) : i ∈ schedule := by
  induction schedule using List.reverseRecOn with
  | nil => exact absurd rfl h
  | append_singleton rest k ih =>
    rcases eq_or_ne i k with rfl | hik
    · exact List.mem_append_right _ List.mem_cons_self
    · rw [run_concat, phase_step_of_ne hik] at h
      exact List.mem_append_left _ (ih h)

/-- **Calls in turn**: they do not disturb each other, and none of them holds a copy in the end. -/
theorem undisturbed_inTurn (write : σ → ι → σ → Except SettingsDefect Unit × σ) (s : σ) (calls : List ι) :
    Undisturbed write s (calls.flatMap fun i => [i, i]) ∧
      ∀ j, ¬(run write s (calls.flatMap fun i => [i, i])).Holds j := by
  induction calls using List.reverseRecOn with
  | nil =>
    refine ⟨fun before i hprefix => ?_, fun j hholds => absurd rfl hholds.begun⟩
    exact absurd (List.prefix_nil.1 hprefix) (List.append_ne_nil_of_right_ne_nil before (List.cons_ne_nil i []))
  | append_singleton rest k ih =>
    obtain ⟨hrest, hnobody⟩ := ih
    rw [List.flatMap_append, List.flatMap_singleton, List.append_cons]
    generalize rest.flatMap (fun i => [i, i]) = done at hrest hnobody
    have hone : ∀ j, (run write s (done ++ [k])).Holds j → j = k := by
      intro j hj
      rw [run_concat] at hj
      exact (holds_of_step hj).resolve_left (hnobody j)
    constructor
    · intro before i hprefix hi j hj
      rw [List.prefix_concat_iff, List.prefix_concat_iff] at hprefix
      rcases hprefix with hlast | hfirst | hbefore
      · obtain ⟨rfl, hik⟩ := List.append_inj' hlast rfl
        rw [List.singleton_inj.1 hik]
        exact hone j hj
      · obtain ⟨rfl, -⟩ := List.append_inj' hfirst rfl
        exact absurd hj (hnobody j)
      · exact hrest before i hbefore hi j hj
    · rintro j ⟨copy, hcopy⟩
      rw [run_concat] at hcopy
      rcases copied_of_step hcopy with hheld | ⟨-, hwaiting, -⟩
      · obtain rfl := hone j ⟨copy, hheld⟩
        obtain ⟨result, hresult⟩ := returned_step write hheld
        rw [hresult] at hcopy
        cases hcopy
      · rw [run_concat] at hwaiting
        exact begun_of_step _ k hwaiting

end Steps

/-- **A call that takes both steps at once is an update.** -/
theorem step_step {r : Race ι SettingsStore} (h : r.phase i = .waiting) :
    let updated := r.inForce.update (change i)
    ((r.step (put change) i).step (put change) i).inForce = updated.2 ∧
      ((r.step (put change) i).step (put change) i).phase i = .returned (updated.1.map fun _ => updated.2) := by
  intro updated
  obtain ⟨hforce, hself⟩ := step_waiting (put change) h
  have hput : put change (r.step (put change) i).inForce i r.inForce = updated := by
    rw [hforce]
    rfl
  rcases updated with ⟨_ | _, after⟩
  · exact step_refused hself hput
  · exact step_granted hself hput

theorem Tagged.step {r : Race ι SettingsStore} {m : Race ι (Made ι)} (h : Tagged r m) (i : ι) :
    Tagged (r.step (put change) i) (m.step (putMade change) i) := by
  have hothers : ∀ j, j ≠ i → untagged ((m.step (putMade change) i).phase j) = (r.step (put change) i).phase j := by
    intro j hj
    rw [phase_step_of_ne hj, phase_step_of_ne hj]
    exact h.phase j
  -- the call's own phase is the one thing left, and what is in force with it
  suffices hown : (m.step (putMade change) i).inForce.store = (r.step (put change) i).inForce ∧
      untagged ((m.step (putMade change) i).phase i) = (r.step (put change) i).phase i by
    refine ⟨hown.1, fun j => ?_⟩
    rcases eq_or_ne j i with rfl | hj
    · exact hown.2
    · exact hothers j hj
  have hphase := h.phase i
  cases hm : m.phase i with
  | waiting =>
    rw [hm] at hphase
    obtain ⟨hforce, hself⟩ := step_waiting (putMade change) hm
    obtain ⟨hforce', hself'⟩ := step_waiting (put change) hphase.symm
    rw [hforce, hforce', hself, hself', ← h.inForce]
    exact ⟨rfl, rfl⟩
  | copied copy =>
    rw [hm] at hphase
    rcases leavesAlone_put change m.inForce.store i copy.store with ⟨e, hput⟩ | ⟨written, hput⟩
    · obtain ⟨hforce, hself⟩ := step_refused hm (putMade_of_refused hput)
      rw [h.inForce] at hput
      obtain ⟨hforce', hself'⟩ := step_refused hphase.symm hput
      rw [hforce, hforce', hself, hself']
      exact ⟨h.inForce, rfl⟩
    · obtain ⟨hforce, hself⟩ := step_granted hm (putMade_of_granted hput)
      rw [h.inForce] at hput
      obtain ⟨hforce', hself'⟩ := step_granted hphase.symm hput
      rw [hforce, hforce', hself, hself']
      exact ⟨rfl, rfl⟩
  | returned result =>
    rw [step_returned hm, step_returned (hm ▸ hphase).symm]
    exact ⟨h.inForce, h.phase i⟩

/-- **Makers change nothing**: the race with makers is the race of the store. -/
theorem run_tagged (change : ι → Settings → Settings) (store : SettingsStore) (schedule : List ι) :
    Tagged (run (put change) store schedule) (run (putMade change) ⟨store, []⟩ schedule) := by
  induction schedule using List.reverseRecOn with
  | nil => exact tagged_start store
  | append_singleton rest i ih =>
    rw [run_concat, run_concat]
    exact ih.step i

/-! ## What makers tell -/

/-- makers have returned, so no step is theirs -/
theorem Accounted.phase_step {r : Race ι (Made ι)} {m : Made ι} {j : ι} (h : Accounted change store r)
    (hm : r.AtHand m) (hj : j ∈ m.makers) (i : ι) : (r.step (putMade change) i).phase j = r.phase j := by
  obtain ⟨w, hw⟩ := h.granted m hm j hj
  rw [phase_step_of_returned hw i, hw]

theorem Accounted.step {r : Race ι (Made ι)} (h : Accounted change store r) (i : ι) :
    Accounted change store (r.step (putMade change) i) := by
  constructor
  · intro m hm
    rcases atHand_step (leavesAlone_putMade change) hm with hm | ⟨copy, hcopy, hput, -⟩
    · exact h.applied m hm
    · obtain ⟨hstore, hmakers⟩ := putMade_eq_ok hput
      rw [put_current hstore, hmakers, List.foldl_append, h.applied copy (.inr ⟨i, hcopy⟩)]
      rfl
  · intro m hm
    rcases atHand_step (leavesAlone_putMade change) hm with hm | ⟨copy, hcopy, hput, -⟩
    · exact h.nodup m hm
    · have hatHand : r.AtHand copy := .inr ⟨i, hcopy⟩
      rw [(putMade_eq_ok hput).2, ← List.concat_eq_append]
      exact (h.nodup copy hatHand).concat (h.not_maker hcopy hatHand)
  · intro m hm j hj
    rcases atHand_step (leavesAlone_putMade change) hm with hm | ⟨copy, hcopy, hput, hself⟩
    · rw [h.phase_step hm hj]
      exact h.granted m hm j hj
    · rw [(putMade_eq_ok hput).2] at hj
      rcases List.mem_append.1 hj with hj | hj
      · rw [h.phase_step (.inr ⟨i, hcopy⟩) hj]
        exact h.granted copy (.inr ⟨i, hcopy⟩) j hj
      · rw [List.mem_singleton.1 hj]
        exact ⟨m, hself⟩
  · intro m hm j hj w hw f hkept
    rcases atHand_step (leavesAlone_putMade change) hm with hm | ⟨copy, hcopy, hput, hself⟩
    · rw [h.phase_step hm hj] at hw
      exact h.kept m hm j hj w hw f hkept
    · obtain ⟨hstore, hmakers⟩ := putMade_eq_ok hput
      rw [hmakers] at hj hkept
      rcases List.mem_append.1 hj with hj | hj
      · -- the field is another call's, so the last maker kept it
        have hatHand : r.AtHand copy := .inr ⟨i, hcopy⟩
        have hij : i ≠ j := fun hij => h.not_maker hcopy hatHand (hij ▸ hj)
        rw [h.phase_step hatHand hj] at hw
        rw [put_current hstore, hkept i (List.mem_append_right _ List.mem_cons_self) hij]
        exact h.kept copy hatHand j hj w hw f fun k hk => hkept k (List.mem_append_left _ hk)
      · rw [List.mem_singleton.1 hj, hself] at hw
        cases hw
        rfl

theorem accounted_run (change : ι → Settings → Settings) (store : SettingsStore) (schedule : List ι) :
    Accounted change store (run (putMade change) ⟨store, []⟩ schedule) :=
  foldl_invariant (accounted_start change store) (fun _ i h => h.step i) schedule

theorem makers_subset (change : ι → Settings → Settings) (store : SettingsStore) (schedule : List ι) :
    (run (putMade change) ⟨store, []⟩ schedule).inForce.makers ⊆ schedule := by
  intro i hi
  obtain ⟨w, hw⟩ := (accounted_run change store schedule).granted _ (.inl rfl) i hi
  have hbegun : (run (putMade change) ⟨store, []⟩ schedule).phase i ≠ .waiting := by
    rw [hw]
    exact nofun
  exact mem_of_begun hbegun

/-! ## Calls that are not disturbed -/

theorem undisturbed_tagged {schedule : List ι} :
    Undisturbed (put change) store schedule ↔ Undisturbed (putMade change) ⟨store, []⟩ schedule := by
  unfold Undisturbed
  simp only [fun before : List ι => (run_tagged change store before).holds_iff]

/-- all calls that have written are among the makers of what is in force, and every copy is a copy of that -/
structure Gathered (m : Race ι (Made ι)) : Prop where
  written : ∀ i w, m.phase i = .returned (.ok w) → i ∈ m.inForce.makers
  copied : ∀ i copy, m.phase i = .copied copy → copy.makers = m.inForce.makers

theorem Gathered.step {m : Race ι (Made ι)} (h : Gathered m) (halone : m.Holds i → ∀ j, m.Holds j → j = i) :
    Gathered (m.step (putMade change) i) := by
  cases hphase : m.phase i with
  | waiting =>
    obtain ⟨hforce, hself⟩ := step_waiting (putMade change) hphase
    constructor
    · intro j w hj
      rw [hforce]
      rcases eq_or_ne j i with rfl | hji
      · rw [hself] at hj
        cases hj
      · rw [phase_step_of_ne hji] at hj
        exact h.written j w hj
    · intro j copy hj
      rw [hforce]
      rcases copied_of_step hj with hj | ⟨-, -, rfl⟩
      · exact h.copied j copy hj
      · rfl
  | copied held =>
    -- the call was alone, and it has returned now, so no copies are left
    have hnobody : ∀ j copy, (m.step (putMade change) i).phase j ≠ .copied copy := by
      intro j copy hj
      rcases copied_of_step hj with hheld | ⟨-, hwaiting, -⟩
      · obtain rfl := halone ⟨held, hphase⟩ j ⟨copy, hheld⟩
        obtain ⟨result, hresult⟩ := returned_step (putMade change) hphase
        rw [hresult] at hj
        cases hj
      · rw [hphase] at hwaiting
        cases hwaiting
    refine ⟨fun j w hj => ?_, fun j copy hj => absurd hj (hnobody j copy)⟩
    rcases leavesAlone_putMade change m.inForce i held with ⟨e, hput⟩ | ⟨made, hput⟩
    · obtain ⟨hforce, hself⟩ := step_refused hphase hput
      rw [hforce]
      rcases eq_or_ne j i with rfl | hji
      · rw [hself] at hj
        cases hj
      · rw [phase_step_of_ne hji] at hj
        exact h.written j w hj
    · obtain ⟨hforce, -⟩ := step_granted hphase hput
      rw [hforce, (putMade_eq_ok hput).2, h.copied i held hphase]
      rcases eq_or_ne j i with rfl | hji
      · exact List.mem_append_right _ List.mem_cons_self
      · rw [phase_step_of_ne hji] at hj
        exact List.mem_append_left _ (h.written j w hj)
  | returned result =>
    rw [step_returned hphase]
    exact h

/-- **Where no call is disturbed, all that have written are makers of what is in force.** -/
theorem gathered_run {schedule : List ι} (h : Undisturbed (putMade change) ⟨store, []⟩ schedule) :
    Gathered (run (putMade change) ⟨store, []⟩ schedule) := by
  induction schedule using List.reverseRecOn with
  | nil =>
    refine ⟨fun i w hwaiting => ?_, fun i copy hwaiting => ?_⟩
    · cases (show Phase.waiting = _ from hwaiting)
    · cases (show Phase.waiting = _ from hwaiting)
  | append_singleton rest i ih =>
    rw [run_concat]
    have hrest : Gathered (run (putMade change) ⟨store, []⟩ rest) :=
      ih fun before k hbefore => h before k (hbefore.trans (List.prefix_append rest [i]))
    exact hrest.step (h rest i (List.prefix_refl _))

/-! ## Calls that are disturbed -/

/-- a call that has written while another one held its copy: no settings at hand have both among their makers -/
structure Apart (i j : ι) (m : Race ι (Made ι)) : Prop where
  returned : ∃ result, m.phase i = .returned result
  begun : m.phase j ≠ .waiting
  copied : ∀ copy, m.phase j = .copied copy → i ∉ copy.makers
  apart : ∀ s, m.AtHand s → ¬(i ∈ s.makers ∧ j ∈ s.makers)

theorem Apart.step {i j : ι} {m : Race ι (Made ι)} (h : Apart i j m) (k : ι) :
    Apart i j (m.step (putMade change) k) := by
  obtain ⟨result, hresult⟩ := h.returned
  refine ⟨⟨result, phase_step_of_returned hresult k⟩, begun_step h.begun k, fun copy hcopy => ?_, fun s hs => ?_⟩
  · rcases copied_of_step hcopy with hcopy | ⟨rfl, hwaiting, -⟩
    · exact h.copied copy hcopy
    · exact absurd hwaiting h.begun
  · rcases atHand_step (leavesAlone_putMade change) hs with hs | ⟨copy, hcopy, hput, -⟩
    · exact h.apart s hs
    · rintro ⟨hi, hj⟩
      rw [(putMade_eq_ok hput).2, List.mem_append, List.mem_singleton] at hi hj
      have hik : i ≠ k := by
        rintro rfl
        rw [hresult] at hcopy
        cases hcopy
      have hicopy := hi.resolve_right hik
      rcases hj with hj | rfl
      · exact h.apart copy (.inr ⟨k, hcopy⟩) ⟨hicopy, hj⟩
      · exact h.copied copy hcopy hicopy

/-- a write while another call holds its copy sets the two apart -/
theorem Accounted.apart {i j : ι} {m : Race ι (Made ι)} (h : Accounted change store m) (hij : j ≠ i)
    (hi : m.Holds i) (hj : m.Holds j) : Apart i j (m.step (putMade change) i) := by
  obtain ⟨icopy, hi⟩ := hi
  obtain ⟨jcopy, hj⟩ := hj
  refine ⟨returned_step _ hi, begun_step (Holds.begun ⟨jcopy, hj⟩) i, fun copy hcopy => ?_, fun s hs => ?_⟩
  · rw [phase_step_of_ne hij] at hcopy
    exact h.not_maker hi (.inr ⟨j, hcopy⟩)
  · rcases atHand_step (leavesAlone_putMade change) hs with hs | ⟨copy, hcopy, hput, -⟩
    · exact fun hboth => h.not_maker hi hs hboth.1
    · rintro ⟨-, hmember⟩
      rw [(putMade_eq_ok hput).2, List.mem_append, List.mem_singleton] at hmember
      exact h.not_maker hj (.inr ⟨i, hcopy⟩) (hmember.resolve_right hij)

/-- **Of two calls of which one wrote while the other held its copy, one is lost.** -/
theorem lost_of_disturbed {before rest : List ι} {i j : ι} (hij : j ≠ i)
    (hi : (run (putMade change) ⟨store, []⟩ before).Holds i) (hj : (run (putMade change) ⟨store, []⟩ before).Holds j) :
    ¬(i ∈ (run (putMade change) ⟨store, []⟩ (before ++ [i] ++ rest)).inForce.makers ∧
      j ∈ (run (putMade change) ⟨store, []⟩ (before ++ [i] ++ rest)).inForce.makers) := by
  rw [run_append, run_concat]
  have hapart := (accounted_run change store before).apart hij hi hj
  exact (foldl_invariant hapart (fun _ k h => h.step k) rest).apart _ (.inl rfl)

/-! ## All calls granted -/

/-- **Updates survive that are not disturbed.** When all calls of a schedule are granted, what is in force in the end is
what some of them, its makers, give one after the other. A field that only one call sets holds what that call wrote, if it
is a maker, and otherwise what it held before all calls. All calls are makers exactly when no call wrote while another one
held its copy. -/
theorem updates_survive_undisturbed (change : ι → Settings → Settings) (store : SettingsStore) (schedule : List ι)
    (hgranted : ∀ i ∈ schedule, ∃ w, (run (put change) store schedule).phase i = .returned (.ok w)) :
    let race := run (put change) store schedule
    ∃ makers : List ι, makers.Nodup ∧ makers ⊆ schedule ∧
      race.inForce.current = makers.foldl (fun s i => change i s) store.current ∧
      (∀ (f : SettingField Settings) i w, race.phase i = .returned (.ok w) →
        (∀ j ∈ schedule, j ≠ i → f.KeptBy (change j)) →
        f.get race.inForce.current = if i ∈ makers then f.get w.current else f.get store.current) ∧
      (schedule ⊆ makers ↔ Undisturbed (put change) store schedule) := by
  intro race
  have htagged := run_tagged change store schedule
  have haccounted := accounted_run change store schedule
  have hatHand : (run (putMade change) ⟨store, []⟩ schedule).AtHand (run (putMade change) ⟨store, []⟩ schedule).inForce :=
    .inl rfl
  have hcalls := makers_subset change store schedule
  have hforce : race.inForce = (run (putMade change) ⟨store, []⟩ schedule).inForce.store := htagged.inForce.symm
  refine ⟨_, haccounted.nodup _ hatHand, hcalls, ?_, ?_, ?_⟩
  · rw [hforce]
    exact haccounted.applied _ hatHand
  · intro f i w hw hkept
    obtain ⟨m, hm, rfl⟩ := htagged.written hw
    rw [hforce]
    split
    next hmaker => exact haccounted.kept _ hatHand i hmaker m hm f fun j hj => hkept j (hcalls hj)
    next hlost =>
      rw [haccounted.applied _ hatHand]
      exact get_foldl_of_kept (fun j hj => hkept j (hcalls hj) fun hji => hlost (hji ▸ hj)) _
  · rw [undisturbed_tagged]
    constructor
    · rintro hall before i ⟨rest, rfl⟩ hi j hj
      by_contra hji
      refine lost_of_disturbed hji hi hj ⟨hall (by simp), hall ?_⟩
      rw [List.append_assoc]
      exact List.mem_append_left _ (mem_of_begun hj.begun)
    · intro h i hi
      obtain ⟨w, hw⟩ := hgranted i hi
      obtain ⟨m, hm, -⟩ := htagged.written hw
      exact (gathered_run h).written i m hm

/-- one call sets the size of the population, the other one the seed -/
def sizeAndSeed : Bool → Settings → Settings
  | false, s => { s with population := { s.population with desiredSize := 10 } }
  | true, s => { s with engine := { s.engine with randomSeed := some 7 } }

theorem desiredSize_foldl (calls : List Bool) (s : Settings) :
    (calls.foldl (fun s i => sizeAndSeed i s) s).population.desiredSize =
      if false ∈ calls then 10 else s.population.desiredSize := by
  induction calls generalizing s with
  | nil => rfl
  | cons i rest ih =>
    rw [List.foldl_cons, ih]
    cases i with
    | false => simp [sizeAndSeed]
    | true => simp [sizeAndSeed]

theorem updates_survive_undisturbed_twoCalls :
    (∃ makers, [false, false, true, true] ⊆ makers ∧
      (run (put sizeAndSeed) {} [false, false, true, true]).inForce.current =
        makers.foldl (fun s i => sizeAndSeed i s) {}) ∧
      ¬Undisturbed (put sizeAndSeed) {} [false, true, false, true] := by
  constructor
  · have hgranted : ∀ i ∈ [false, false, true, true],
        ∃ w, (run (put sizeAndSeed) {} [false, false, true, true]).phase i = .returned (.ok w) := by
      rintro (_ | _) - <;> exact ⟨_, rfl⟩
    obtain ⟨makers, -, -, happlied, -, hiff⟩ := updates_survive_undisturbed sizeAndSeed {} _ hgranted
    exact ⟨makers, hiff.2 (undisturbed_inTurn (put sizeAndSeed) {} [false, true]).1, happlied⟩
  · intro h
    have hgranted : ∀ i ∈ [false, true, false, true],
        ∃ w, (run (put sizeAndSeed) {} [false, true, false, true]).phase i = .returned (.ok w) := by
      rintro (_ | _) - <;> exact ⟨_, rfl⟩
    obtain ⟨makers, -, -, happlied, -, hiff⟩ := updates_survive_undisturbed sizeAndSeed {} _ hgranted
    have hsize := congrArg (fun s : Settings => s.population.desiredSize) happlied
    rw [desiredSize_foldl, if_pos (hiff.2 h List.mem_cons_self)] at hsize
    exact absurd hsize (by decide)

/-- **An update is lost** when both calls copy before either of them writes: both return, they set different fields, and
what is in force in the end comes of no order of the two. -/
theorem update_lost :
    (∀ part ∈ Settings.sections, ∀ f ∈ part.fields, f.KeptBy (sizeAndSeed false) ∨ f.KeptBy (sizeAndSeed true)) ∧
      (∀ i, ∃ w, (run (put sizeAndSeed) {} [false, true, false, true]).phase i = .returned (.ok w)) ∧
      (run (put sizeAndSeed) {} [false, true, false, true]).inForce.current.population.desiredSize = 1000 ∧
      ∀ order : List Bool, order.Perm [false, true] →
        (order.foldl (fun s i => sizeAndSeed i s) ({} : Settings)).population.desiredSize = 10 := by
  refine ⟨fun part hpart f hf => ?_, ?_, rfl, fun order horder => ?_⟩
  · simp only [Settings.sections, List.mem_cons, List.not_mem_nil, or_false] at hpart
    rcases hpart with rfl | rfl | rfl <;> obtain ⟨g, -, rfl⟩ := List.mem_map.1 hf
    · exact .inr fun s => rfl
    · exact .inl fun s => rfl
    · exact .inl fun s => rfl
  · rintro (_ | _) <;> exact ⟨_, rfl⟩
  · rw [desiredSize_foldl, if_pos (horder.mem_iff.2 List.mem_cons_self)]

end Race

end SettingsStore

end TradingRobots
