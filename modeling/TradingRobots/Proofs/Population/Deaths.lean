/-
Who dies: the three passes of the death rules name robots of the population, and no robot twice.

A pass only leaves candidates out, so each list of dead is part of its candidates. The weight rule does not look at
robots that died of age, and the rule against silence at none that died before; with unique names the dead are
distinct.

`nodup_names_deaths`, `names_deaths_subset`: the dead are distinct and were all there.
`size_kill`: the population shrinks by the toll, exactly.
-/
import TradingRobots.Death
import TradingRobots.Proofs.Population.Size

namespace TradingRobots.DeathRules

open TradingRobots.Random

variable {rules : DeathRules} {rule : WeightRule} {robots : List Robot}

/-! ## The passes -/

theorem sublist_deathsUpTo {α : Type} (probability : Float) (room : Nat) (xs : List α) (s : Stream) :
    (deathsUpTo probability room xs s).1.Sublist xs := by
  induction xs generalizing room s with
  | nil => cases room <;> exact List.Sublist.refl []
  | cons x rest ih =>
    cases room with
    | zero => exact List.nil_sublist _
    | succ room =>
      simp only [deathsUpTo]
      split
      · exact (ih room _).cons_cons x
      · exact (ih (room + 1) _).cons x

theorem sublist_deathsAmong {α : Type} (probability : Float) (xs : List α) (s : Stream) :
    (deathsAmong probability xs s).1.Sublist xs := by
  induction xs generalizing s with
  | nil => exact List.Sublist.refl []
  | cons x rest ih =>
    simp only [deathsAmong]
    split
    · exact (ih _).cons_cons x
    · exact (ih _).cons x

/-! ## The candidates -/

theorem names_ageCandidates_perm :
    ((rules.ageCandidates rule robots).map Robot.name).Perm
      ((robots.filter fun r => !(rules.protectedNames rule robots).contains r.name).map Robot.name) :=
  (List.mergeSort_perm _ _).map _

theorem map_fst_ofRobots (rule : WeightRule) (robots : List Robot) :
    (Weighed.ofRobots rule robots).map Prod.fst = robots.map Robot.name := by
  simp [Weighed.ofRobots, Function.comp_def]

theorem nodup_names_ageCandidates (hu : (robots.map Robot.name).Nodup) :
    ((rules.ageCandidates rule robots).map Robot.name).Nodup :=
  names_ageCandidates_perm.nodup_iff.2 ((List.filter_sublist.map _).nodup hu)

theorem names_ageCandidates_subset {n : RobotName} (hn : n ∈ (rules.ageCandidates rule robots).map Robot.name) :
    n ∈ robots.map Robot.name :=
  (List.filter_sublist.map _).subset (names_ageCandidates_perm.subset hn)

variable (rules rule robots) in
/-- the robots of the weight rule, before they are cut to the cap -/
theorem names_weightCandidates_sublist (dead : List RobotName) :
    ∃ rest : List Weighed, rest.Perm ((Weighed.ofRobots rule robots).filter fun w =>
        !(rules.protectedNames rule robots).contains w.1 && !dead.contains w.1) ∧
      (rules.weightCandidates rule robots dead).Sublist rest :=
  ⟨_, List.mergeSort_perm _ _, List.take_sublist _ _⟩

theorem nodup_names_weightCandidates (hu : (robots.map Robot.name).Nodup) (dead : List RobotName) :
    ((rules.weightCandidates rule robots dead).map Prod.fst).Nodup := by
  obtain ⟨rest, hperm, hsub⟩ := names_weightCandidates_sublist rules rule robots dead
  refine (hsub.map _).nodup ((hperm.map _).nodup_iff.2 ((List.filter_sublist.map _).nodup ?_))
  rwa [map_fst_ofRobots]

theorem names_weightCandidates_subset {dead : List RobotName} {n : RobotName}
    (hn : n ∈ (rules.weightCandidates rule robots dead).map Prod.fst) : n ∈ robots.map Robot.name ∧ n ∉ dead := by
  obtain ⟨rest, hperm, hsub⟩ := names_weightCandidates_sublist rules rule robots dead
  obtain ⟨w, hw, rfl⟩ := List.mem_map.1 ((hperm.map _).subset ((hsub.map _).subset hn))
  obtain ⟨hw, hsafe⟩ := List.mem_filter.1 hw
  refine ⟨?_, ?_⟩
  · rw [← map_fst_ofRobots rule]
    exact List.mem_map_of_mem hw
  · simp only [Bool.and_eq_true, Bool.not_eq_true', List.contains_eq_mem, decide_eq_false_iff_not] at hsafe
    exact hsafe.2

theorem silentRobots_sublist (dead : List RobotName) : (rules.silentRobots robots dead).Sublist robots := by
  unfold silentRobots
  split
  · exact List.filter_sublist
  · exact List.nil_sublist _

theorem not_mem_of_silent {dead : List RobotName} {n : RobotName}
    (hn : n ∈ (rules.silentRobots robots dead).map Robot.name) : n ∉ dead := by
  obtain ⟨r, hr, rfl⟩ := List.mem_map.1 hn
  unfold silentRobots at hr
  split at hr
  · have := (List.mem_filter.1 hr).2
    simp only [Bool.and_eq_true, Bool.not_eq_true', List.contains_eq_mem, decide_eq_false_iff_not] at this
    exact this.2
  · cases hr

/-! ## The dead -/

variable (rules rule robots) in
/-- the three passes, one after the other -/
theorem deaths_passes (s : Stream) :
    ((rules.deaths rule robots s).1.byAge.Sublist (rules.ageCandidates rule robots)) ∧
    ((rules.deaths rule robots s).1.byWeight.Sublist
      (rules.weightCandidates rule robots ((rules.deaths rule robots s).1.byAge.map Robot.name))) ∧
    ((rules.deaths rule robots s).1.silent = rules.silentRobots robots
      ((rules.deaths rule robots s).1.byAge.map Robot.name ++ (rules.deaths rule robots s).1.byWeight.map Prod.fst)) :=
  ⟨sublist_deathsUpTo _ _ _ _, sublist_deathsAmong _ _ _, rfl⟩

/-- the dead were all there -/
theorem names_deaths_subset {s : Stream} {n : RobotName} (hn : n ∈ (rules.deaths rule robots s).1.names) :
    n ∈ robots.map Robot.name := by
  obtain ⟨hage, hweight, hsilent⟩ := deaths_passes rules rule robots s
  simp only [Deaths.names, List.mem_append] at hn
  rcases hn with (hn | hn) | hn
  · exact names_ageCandidates_subset ((hage.map _).subset hn)
  · exact (names_weightCandidates_subset ((hweight.map _).subset hn)).1
  · rw [hsilent] at hn
    exact ((silentRobots_sublist _).map _).subset hn

/-- with unique names nobody dies twice -/
theorem nodup_names_deaths (hu : (robots.map Robot.name).Nodup) (s : Stream) :
    (rules.deaths rule robots s).1.names.Nodup := by
  obtain ⟨hage, hweight, hsilent⟩ := deaths_passes rules rule robots s
  rw [Deaths.names, List.nodup_append, List.nodup_append]
  refine ⟨⟨(hage.map _).nodup (nodup_names_ageCandidates hu),
    (hweight.map _).nodup (nodup_names_weightCandidates hu _), ?_⟩, ?_, ?_⟩
  · rintro n hn m hm rfl
    exact (names_weightCandidates_subset ((hweight.map _).subset hm)).2 hn
  · rw [hsilent]
    exact ((silentRobots_sublist _).map _).nodup hu
  · rintro n hn m hm rfl
    rw [hsilent] at hm
    exact not_mem_of_silent hm hn

@[simp]
theorem length_names_deaths (d : Deaths) : d.names.length = d.toll.total := by
  simp [Deaths.names, Deaths.toll, DeathToll.total, Nat.add_assoc]

/-! ## Killing -/

variable {p : Population}

theorem kill_population (s : Stream) :
    (rules.kill rule p s).2.1 = p.removeAll (rules.kill rule p s).1.names := rfl

/-- the survivors and the toll make up the population -/
theorem size_kill (hu : p.names.Nodup) (s : Stream) :
    (rules.kill rule p s).2.1.size + (rules.kill rule p s).1.toll.total = p.size := by
  rw [kill_population, ← length_names_deaths]
  exact Population.size_removeAll hu (nodup_names_deaths hu s) fun n hn => names_deaths_subset hn

end TradingRobots.DeathRules
