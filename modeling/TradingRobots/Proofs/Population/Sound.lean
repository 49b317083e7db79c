/-
Sound populations: those that pass their check.

`Sound` lists what the check of a population asks: unique names below the counter, counters in order, admitted programs.
The check goes through the robots with the names it has seen; it passes exactly the sound populations. What it asks of the
names is kept by the counter, and what it asks of each robot for itself is kept by records: these only move a robot's
counters up, in order.

`check_eq_ok_iff`: the check passes exactly the sound populations.
`sound_iff`: what is asked of the names, and what of each robot.
-/
import TradingRobots.Proofs.Population.Names

namespace TradingRobots

/-! ## Sound robots -/

/-- a robot with its counters in order and a program within the bounds -/
structure Robot.Fit (bounds : ProgramBounds) (r : Robot) : Prop where
  correct_le : r.correct ≤ r.predictions
  predictions_le : r.predictions ≤ r.outcomes
  admitted : bounds.Admits r.program

/-- a robot that a population with a counter may hold -/
structure Robot.Sound (bounds : ProgramBounds) (counter : Nat) (r : Robot) : Prop extends Robot.Fit bounds r where
  named : r.name.number < counter

namespace Robot

variable {bounds : ProgramBounds} {counter : Nat} {r : Robot}

theorem fit_new {program : Program} (hp : bounds.Admits program) (name : RobotName) (inherited : Float) :
    (Robot.new name program inherited).Fit bounds :=
  ⟨Nat.le_refl 0, Nat.le_refl 0, hp⟩

theorem Fit.predict (h : r.Fit bounds) (dataset : String) (signal : Signal) : (r.predict dataset signal).Fit bounds :=
  ⟨h.correct_le, h.predictions_le, h.admitted⟩

theorem Fit.resolve (h : r.Fit bounds) (dataset : String) (change threshold : Float) :
    (r.resolve dataset change threshold).2.Fit bounds := by
  obtain ⟨hc, hp, ha⟩ := h
  unfold Robot.resolve
  split
  · exact ⟨hc, hp, ha⟩
  · rename_i signal hsignal
    cases ho : Outcome.resolve signal change threshold with
    | correct => exact ⟨Nat.succ_le_succ hc, Nat.succ_le_succ hp, ha⟩
    | wrong => exact ⟨Nat.le_succ_of_le hc, Nat.succ_le_succ hp, ha⟩
    | out => exact ⟨hc, Nat.le_succ_of_le hp, ha⟩

theorem Fit.bear (h : r.Fit bounds) : r.bear.Fit bounds :=
  ⟨h.correct_le, h.predictions_le, h.admitted⟩

@[simp]
theorem name_predict (dataset : String) (signal : Signal) : (r.predict dataset signal).name = r.name := rfl

@[simp]
theorem name_resolve (dataset : String) (change threshold : Float) :
    (r.resolve dataset change threshold).2.name = r.name := by
  unfold Robot.resolve
  split
  · rfl
  · rfl

@[simp]
theorem name_bear : r.bear.name = r.name := rfl

end Robot

/-! ## Sound populations -/

namespace Population

/-- a population that may be run: unique names below the counter, counters in order, programs within the bounds -/
structure Sound (bounds : ProgramBounds) (p : Population) : Prop where
  unique : p.names.Nodup
  robots : ∀ r ∈ p.robots, r.Sound bounds p.nextName

variable {bounds : ProgramBounds} {p : Population}

theorem robotDefect?_eq_none_iff {counter : Nat} {seen : List RobotName} {r : Robot} :
    robotDefect? bounds counter seen r = none ↔ r.name ∉ seen ∧ r.Sound bounds counter := by
  unfold robotDefect?
  constructor
  · intro h
    split at h
    · cases h
    · rename_i hseen
      split at h
      · cases h
      · rename_i hnamed
        split at h
        · cases h
        · rename_i hcounted
          split at h
          · cases h
          · rename_i hprogram
            simp only [List.contains_eq_mem, decide_eq_true_eq] at hseen
            exact ⟨hseen, ⟨by omega, by omega, ProgramBounds.check_eq_ok_iff.1 hprogram⟩, by omega⟩
  · rintro ⟨hseen, ⟨hcorrect, hpredictions, hadmitted⟩, hnamed⟩
    rw [if_neg (by simpa using hseen), if_neg (by omega), if_neg (by omega),
      ProgramBounds.check_eq_ok_iff.2 hadmitted]

/-- no robot has a fault: each name is new to those before it, and each robot is sound -/
theorem firstDefect?_eq_none_iff {counter : Nat} {seen : List RobotName} {robots : List Robot} :
    firstDefect? bounds counter seen robots = none ↔
      (∀ r ∈ robots, r.name ∉ seen) ∧ (robots.map Robot.name).Nodup ∧ ∀ r ∈ robots, r.Sound bounds counter := by
  induction robots generalizing seen with
  | nil => simp [firstDefect?]
  | cons r rest ih =>
    rw [firstDefect?]
    cases hdefect : robotDefect? bounds counter seen r with
    | some defect =>
      have hfault := robotDefect?_eq_none_iff.not.1 (hdefect ▸ Option.some_ne_none defect)
      simp only [reduceCtorEq, false_iff]
      rintro ⟨hseen, -, hsound⟩
      exact hfault ⟨hseen r List.mem_cons_self, hsound r List.mem_cons_self⟩
    | none =>
      obtain ⟨hseen, hsound⟩ := robotDefect?_eq_none_iff.1 hdefect
      simp only [ih, List.mem_cons, not_or, forall_eq_or_imp, List.map_cons, List.nodup_cons, List.mem_map, not_exists,
        not_and]
      constructor
      · rintro ⟨hnew, hnodup, hrest⟩
        exact ⟨⟨hseen, fun x hx => (hnew x hx).2⟩, ⟨fun x hx => (hnew x hx).1, hnodup⟩, hsound, hrest⟩
      · rintro ⟨⟨-, hnew⟩, ⟨hne, hnodup⟩, -, hrest⟩
        exact ⟨fun x hx => ⟨hne x hx, hnew x hx⟩, hnodup, hrest⟩

/-- **The check passes exactly the sound populations.** -/
theorem check_eq_ok_iff : p.check bounds = .ok () ↔ p.Sound bounds := by
  have hnone : p.check bounds = .ok () ↔ firstDefect? bounds p.nextName [] p.robots = none := by
    unfold check
    split
    · rename_i h
      simp [h]
    · rename_i h
      simp [h]
  rw [hnone, firstDefect?_eq_none_iff]
  constructor
  · rintro ⟨-, hunique, hsound⟩
    exact ⟨hunique, hsound⟩
  · rintro ⟨hunique, hsound⟩
    exact ⟨fun _ _ => List.not_mem_nil, hunique, hsound⟩

/-- **What the check asks**: of the names together, and of each robot for itself. -/
theorem sound_iff : p.Sound bounds ↔ p.WellNamed ∧ ∀ r ∈ p.robots, r.Fit bounds := by
  constructor
  · rintro ⟨hunique, hsound⟩
    refine ⟨⟨hunique, ?_⟩, fun r hr => (hsound r hr).toFit⟩
    intro name hname
    obtain ⟨r, hr, rfl⟩ := List.mem_map.1 hname
    exact (hsound r hr).named
  · rintro ⟨⟨hunique, hahead⟩, hfit⟩
    exact ⟨hunique, fun r hr => ⟨hfit r hr, hahead r.name (List.mem_map_of_mem hr)⟩⟩

/-! ## Random populations -/

/-- robots of a random population are fit -/
theorem fit_random? (hroom : bounds.Roomy) {desiredSize : Nat} {s s' : Random.Stream}
    (h : random? desiredSize bounds s = some (p, s')) : ∀ r ∈ p.robots, r.Fit bounds := by
  obtain ⟨⟨newNames, q, s₁⟩, hq, h⟩ := Option.bind_eq_some_iff.1 h
  simp only [Option.some.injEq, Prod.mk.injEq] at h
  obtain ⟨rfl, -⟩ := h
  refine (addManyRandom?_induction (motive := fun _ q => ∀ r ∈ q.robots, r.Fit bounds) (n := 0) ?_
    (fun r hr => absurd hr List.not_mem_nil) hq).1
  intro _ q program s s' hfit hp r hr
  rcases List.mem_append.1 hr with hr | hr
  · exact hfit r hr
  · rw [List.mem_singleton.1 hr]
    exact Robot.fit_new (ProgramBounds.admits_of_randomProgram? hroom hp) _ _

/-- a random population is sound, as far as the counter has names for it -/
theorem sound_of_random? (hroom : bounds.Roomy) {desiredSize : Nat} {s s' : Random.Stream}
    (h : random? desiredSize bounds s = some (p, s')) (hsize : desiredSize < Binary64.wordLimit) : p.Sound bounds :=
  sound_iff.2 ⟨(wellNamed_empty desiredSize).grown (grown_random? h hsize), fit_random? hroom h⟩

/-- a random population comes about whenever programs can be drawn -/
theorem exists_random? (h : bounds.Drawable) (desiredSize : Nat) (s : Random.Stream) :
    ∃ p s', random? desiredSize bounds s = some (p, s') := by
  obtain ⟨newNames, p, s', hp⟩ := exists_addManyRandom? (fun _ => h) (empty desiredSize) s
  exact ⟨p, s', Option.bind_eq_some_iff.2 ⟨_, hp, rfl⟩⟩

end Population

end TradingRobots
