/-
Births: what one birth does to a population, and what a whole litter therefore does.

A parent is whoever is found under the name of a robot that was picked. Somebody always is, and under unique names it is
the robot that was picked. `breedOne_eq_true` and `breedPair_eq_true` say everything that a birth is: whose the parents
are, each child's program is a mutation of the parent's, or of a crossing of the two parents', and the parents are marked.
`Kept` is a property that every birth keeps; `breed_kept` and `inject?_kept` turn it into one of a whole litter and of all
newcomers, with their number.

`IsParent.eligible`: under unique names a parent is eligible itself.
`breed_size`: a litter fills or leaves empty exactly the slots it was given.
`exists_inject?`: newcomers come whenever programs can be drawn.
-/
import TradingRobots.Breeding
import TradingRobots.Proofs.Population.Names

namespace TradingRobots.BreedingRules

open TradingRobots.Random

variable {rules : BreedingRules} {rule : WeightRule}

/-! ## One birth -/

/-- a robot that was picked is one of those it was picked from -/
theorem mem_of_pick {robots : List Robot} {s s' : Stream} {k : Nat} {r : Robot}
    (h : pick rule robots s = (some (k, r), s')) : robots[k]? = some r := by
  simp only [pick, Prod.mk.injEq] at h
  obtain ⟨k', -, h⟩ := Option.bind_eq_some_iff.1 h.1
  obtain ⟨r', hr, h⟩ := Option.map_eq_some_iff.1 h
  simp only [Prod.mk.injEq] at h
  obtain ⟨rfl, rfl⟩ := h
  exact hr

theorem mem_robots_of_eligible {p : Population} {r : Robot} (h : r ∈ rules.eligible p) : r ∈ p.robots :=
  List.mem_of_mem_filter h

/-- the others of a list are robots of that list -/
theorem mem_of_others {robots : List Robot} {k : Nat} {r : Robot} (h : r ∈ others robots k) : r ∈ robots := by
  unfold others at h
  split at h
  · rename_i last hlast
    rcases List.mem_or_eq_of_mem_set (List.mem_of_mem_dropLast h) with h | rfl
    · exact h
    · exact List.mem_of_getLast? hlast
  · cases h

/-- a parent: whoever is found under the name of a robot that is eligible -/
def IsParent (rules : BreedingRules) (p : Population) (parent : Robot) : Prop :=
  ∃ chosen ∈ rules.eligible p, p.find? chosen.name = some parent

/-- somebody is found under the name of a robot that is eligible -/
theorem exists_find?_eligible {p : Population} {chosen : Robot} (h : chosen ∈ rules.eligible p) :
    ∃ parent, p.find? chosen.name = some parent :=
  Population.exists_find? (mem_robots_of_eligible h)

theorem IsParent.mem {p : Population} {parent : Robot} (h : rules.IsParent p parent) : parent ∈ p.robots := by
  obtain ⟨chosen, -, hfind⟩ := h
  exact Population.mem_of_find? hfind

/-- **Under unique names the parent is the very robot that was picked**, so it is eligible. -/
theorem IsParent.eligible {p : Population} (hu : p.names.Nodup) {parent : Robot} (h : rules.IsParent p parent) :
    parent ∈ rules.eligible p := by
  obtain ⟨chosen, hchosen, hfind⟩ := h
  have hself : p.find? chosen.name = some chosen := Population.find?_name hu (mem_robots_of_eligible hchosen)
  rw [hself] at hfind
  cases hfind
  exact hchosen

variable {g : Growth} {s s' : Stream} {k j : Nat} {chosen other parent first second : Robot}

theorem breedOne_unpicked (hpick : pick rule (rules.eligible g.population) g.stream = (none, s)) :
    rules.breedOne rule g = (false, { g with stream := s }) := by
  simp [breedOne, hpick]

/-- a birth, told by who was found under the name that was picked -/
theorem breedOne_picked (hpick : pick rule (rules.eligible g.population) g.stream = (some (k, chosen), s))
    (hfind : g.population.find? chosen.name = some parent) :
    let child := Mutation.mutate rules.bounds rules.rates parent.program s
    let inherited := rules.inheritance.inherit rule parent
    rules.breedOne rule g = (true, ⟨(g.population.add child.1 inherited).2.update parent.name Robot.bear, child.2,
      .born ⟨g.population.nextName⟩ parent.name :: g.noted⟩) := by
  simp [breedOne, hpick, hfind, Population.add]

theorem breedPair_unpicked (hpick : pick rule (rules.eligible g.population) g.stream = (none, s)) :
    rules.breedPair rule g = (false, { g with stream := s }) := by
  simp [breedPair, hpick]

theorem breedPair_alone (hpick : pick rule (rules.eligible g.population) g.stream = (some (k, chosen), s))
    (hother : pick rule (others (rules.eligible g.population) k) s = (none, s')) :
    rules.breedPair rule g = (false, { g with stream := s' }) := by
  simp [breedPair, hpick, hother]

/-- a population after the birth of two children, whose programs and inheritance are given, to two parents -/
def afterPair (p : Population) (first second : Robot) (a b : Program) (inherited : Float) : Population :=
  (((p.add a inherited).2.add b inherited).2.update first.name Robot.bear).update second.name Robot.bear

/-- a birth of two, told by who was found under the two names that were picked -/
theorem breedPair_picked (hpick : pick rule (rules.eligible g.population) g.stream = (some (k, chosen), s))
    (hother : pick rule (others (rules.eligible g.population) k) s = (some (j, other), s'))
    (hfirst : g.population.find? chosen.name = some first) (hsecond : g.population.find? other.name = some second) :
    let crossed := Crossing.cross first.program second.program s'
    let a := Mutation.mutate rules.bounds rules.rates crossed.1.1 crossed.2
    let b := Mutation.mutate rules.bounds rules.rates crossed.1.2 a.2
    rules.breedPair rule g = (true,
      ⟨afterPair g.population first second a.1 b.1 (rules.inheritance.inheritFromPair rule first second), b.2,
        .pairBorn ⟨g.population.nextName⟩ ⟨g.population.counterAfter 1⟩ first.name second.name :: g.noted⟩) := by
  simp [breedPair, hpick, hother, hfirst, hsecond, afterPair, Population.add]

/-- a robot that was picked among the others is eligible -/
theorem mem_eligible_of_pick_others {p : Population}
    (h : pick rule (others (rules.eligible p) k) s = (some (j, other), s')) : other ∈ rules.eligible p :=
  mem_of_others (List.mem_of_getElem? (mem_of_pick h))

/-- a birth that was not one leaves the population alone -/
theorem population_breedOne_of_false (h : (rules.breedOne rule g).1 = false) :
    (rules.breedOne rule g).2.population = g.population := by
  rcases hpick : pick rule (rules.eligible g.population) g.stream with ⟨_ | ⟨k, chosen⟩, s⟩
  · rw [breedOne_unpicked hpick]
  · obtain ⟨parent, hfind⟩ := exists_find?_eligible (List.mem_of_getElem? (mem_of_pick hpick))
    rw [breedOne_picked hpick hfind] at h
    cases h

theorem population_breedPair_of_false (h : (rules.breedPair rule g).1 = false) :
    (rules.breedPair rule g).2.population = g.population := by
  rcases hpick : pick rule (rules.eligible g.population) g.stream with ⟨_ | ⟨k, chosen⟩, s⟩
  · rw [breedPair_unpicked hpick]
  · rcases hother : pick rule (others (rules.eligible g.population) k) s with ⟨_ | ⟨j, other⟩, s'⟩
    · rw [breedPair_alone hpick hother]
    · obtain ⟨first, hfirst⟩ := exists_find?_eligible (List.mem_of_getElem? (mem_of_pick hpick))
      obtain ⟨second, hsecond⟩ := exists_find?_eligible (mem_eligible_of_pick_others hother)
      rw [breedPair_picked hpick hother hfirst hsecond] at h
      cases h

/-- **One child of one parent**: the child's program is a mutation of the parent's. -/
theorem breedOne_eq_true (h : (rules.breedOne rule g).1 = true) :
    ∃ parent, rules.IsParent g.population parent ∧ ∃ s : Stream,
      (rules.breedOne rule g).2.population =
        (g.population.add (Mutation.mutate rules.bounds rules.rates parent.program s).1
          (rules.inheritance.inherit rule parent)).2.update parent.name Robot.bear := by
  rcases hpick : pick rule (rules.eligible g.population) g.stream with ⟨_ | ⟨k, chosen⟩, s⟩
  · rw [breedOne_unpicked hpick] at h
    cases h
  · have hchosen := List.mem_of_getElem? (mem_of_pick hpick)
    obtain ⟨parent, hfind⟩ := exists_find?_eligible hchosen
    refine ⟨parent, ⟨chosen, hchosen, hfind⟩, s, ?_⟩
    rw [breedOne_picked hpick hfind]

/-- **Two children of two parents**: the children's programs are mutations of the crossing of the parents' programs, and
both children inherit the same. -/
theorem breedPair_eq_true (h : (rules.breedPair rule g).1 = true) :
    ∃ first, rules.IsParent g.population first ∧ ∃ second, rules.IsParent g.population second ∧ ∃ s s₁ s₂ : Stream,
      (rules.breedPair rule g).2.population = afterPair g.population first second
        (Mutation.mutate rules.bounds rules.rates (Crossing.cross first.program second.program s).1.1 s₁).1
        (Mutation.mutate rules.bounds rules.rates (Crossing.cross first.program second.program s).1.2 s₂).1
        (rules.inheritance.inheritFromPair rule first second) := by
  rcases hpick : pick rule (rules.eligible g.population) g.stream with ⟨_ | ⟨k, chosen⟩, s⟩
  · rw [breedPair_unpicked hpick] at h
    cases h
  · rcases hother : pick rule (others (rules.eligible g.population) k) s with ⟨_ | ⟨j, other⟩, s'⟩
    · rw [breedPair_alone hpick hother] at h
      cases h
    · have hchosen := List.mem_of_getElem? (mem_of_pick hpick)
      have hmember := mem_eligible_of_pick_others hother
      obtain ⟨first, hfirst⟩ := exists_find?_eligible hchosen
      obtain ⟨second, hsecond⟩ := exists_find?_eligible hmember
      have hborn := breedPair_picked hpick hother hfirst hsecond
      exact ⟨first, ⟨chosen, hchosen, hfirst⟩, second, ⟨other, hmember, hsecond⟩, s', _, _,
        congrArg (fun outcome => outcome.2.population) hborn⟩

/-! ## A litter -/

/-- a property of populations that every birth keeps, with the number of children so far -/
structure Kept (rules : BreedingRules) (rule : WeightRule) (motive : Nat → Population → Prop) : Prop where
  one : ∀ n g, motive n g.population → (rules.breedOne rule g).1 = true →
    motive (n + 1) (rules.breedOne rule g).2.population
  pair : ∀ n g, motive n g.population → (rules.breedPair rule g).1 = true →
    motive (n + 2) (rules.breedPair rule g).2.population

variable {motive : Nat → Population → Prop}

theorem fillSingly_kept (hk : Kept rules rule motive) (slots : Nat) {n : Nat} {g : Growth} (h : motive n g.population) :
    (rules.fillSingly rule slots g).1 ≤ slots ∧
      motive (n + (slots - (rules.fillSingly rule slots g).1)) (rules.fillSingly rule slots g).2.population := by
  induction slots generalizing n g with
  | zero => exact ⟨Nat.le_refl 0, h⟩
  | succ slots ih =>
    cases hb : (rules.breedOne rule g).1 with
    | true =>
      obtain ⟨hle, hm⟩ := ih (hk.one n g h hb)
      simp only [fillSingly, hb, if_true]
      refine ⟨Nat.le_succ_of_le hle, ?_⟩
      rwa [show n + (slots + 1 - (rules.fillSingly rule slots (rules.breedOne rule g).2).1) =
        n + 1 + (slots - (rules.fillSingly rule slots (rules.breedOne rule g).2).1) by omega]
    | false =>
      simp only [fillSingly, hb, Bool.false_eq_true, if_false, Nat.sub_self, Nat.add_zero, Nat.le_refl, true_and]
      rwa [population_breedOne_of_false hb]

theorem fillInPairs_kept (hk : Kept rules rule motive) (slots : Nat) {n : Nat} {g : Growth}
    (h : motive n g.population) : (rules.fillInPairs rule slots g).1 ≤ slots ∧
      motive (n + (slots - (rules.fillInPairs rule slots g).1)) (rules.fillInPairs rule slots g).2.population := by
  induction slots using Nat.strongRecOn generalizing n g with
  | ind slots ih =>
    match slots with
    | 0 => exact ⟨Nat.le_refl 0, h⟩
    | 1 => exact ⟨Nat.le_refl 1, h⟩
    | slots + 2 =>
      cases hb : (rules.breedPair rule g).1 with
      | true =>
        obtain ⟨hle, hm⟩ := ih slots (by omega) (hk.pair n g h hb)
        simp only [fillInPairs, hb, if_true]
        refine ⟨by omega, ?_⟩
        rwa [show n + (slots + 2 - (rules.fillInPairs rule slots (rules.breedPair rule g).2).1) =
          n + 2 + (slots - (rules.fillInPairs rule slots (rules.breedPair rule g).2).1) by omega]
      | false =>
        simp only [fillInPairs, hb, Bool.false_eq_true, if_false, Nat.sub_self, Nat.add_zero, Nat.le_refl, true_and]
        rwa [population_breedPair_of_false hb]

/-- what every birth keeps, a litter keeps, with all its children counted -/
theorem breed_kept (hk : Kept rules rule motive) (slots : Nat) {g : Growth} (h : motive 0 g.population) :
    (rules.breed rule slots g).born + (rules.breed rule slots g).starved = slots ∧
      motive (rules.breed rule slots g).born (rules.breed rule slots g).growth.population := by
  cases hp : rules.inPairs with
  | true =>
    obtain ⟨hle, hm⟩ := fillInPairs_kept hk slots h
    simp only [breed, hp, if_true]
    rw [Nat.zero_add] at hm
    exact ⟨Nat.sub_add_cancel hle, hm⟩
  | false =>
    obtain ⟨hle, hm⟩ := fillSingly_kept hk slots h
    simp only [breed, hp, Bool.false_eq_true, if_false]
    rw [Nat.zero_add] at hm
    exact ⟨Nat.sub_add_cancel hle, hm⟩

/-- a litter fills its slots or leaves them empty, and adds a robot for every child -/
theorem breed_size (rules : BreedingRules) (rule : WeightRule) (slots : Nat) (g : Growth) :
    (rules.breed rule slots g).born + (rules.breed rule slots g).starved = slots ∧
    (rules.breed rule slots g).growth.population.size = g.population.size + (rules.breed rule slots g).born ∧
    (rules.breed rule slots g).growth.population.desiredSize = g.population.desiredSize := by
  refine breed_kept (motive := fun n p => p.size = g.population.size + n ∧ p.desiredSize = g.population.desiredSize)
    ⟨?_, ?_⟩ slots ⟨rfl, rfl⟩
  · rintro n g' ⟨hs, hd⟩ hb
    obtain ⟨parent, -, s, hp⟩ := breedOne_eq_true hb
    rw [hp]
    exact ⟨by simp [hs]; omega, by simp [hd]⟩
  · rintro n g' ⟨hs, hd⟩ hb
    obtain ⟨first, -, second, -, s, s₁, s₂, hp⟩ := breedPair_eq_true hb
    rw [hp]
    exact ⟨by simp [afterPair, hs]; omega, by simp [afterPair, hd]⟩

/-! ## Newcomers -/

/-- what additions of drawn programs keep, an injection keeps -/
theorem inject?_kept {count n : Nat} {g g' : Growth}
    (step : ∀ n q program s s', motive n q → rules.bounds.randomProgram? s = some (program, s') →
      motive (n + 1) (q.add program 0.0).2)
    (h : motive n g.population) (hg : rules.inject? count g = some g') : motive (n + count) g'.population := by
  obtain ⟨⟨names, p, s⟩, hmany, hg⟩ := Option.bind_eq_some_iff.1 hg
  simp only [Option.some.injEq] at hg
  subst hg
  exact (Population.addManyRandom?_induction step h hmany).1

theorem inject?_size {count : Nat} {g g' : Growth} (hg : rules.inject? count g = some g') :
    g'.population.size = g.population.size + count ∧ g'.population.desiredSize = g.population.desiredSize := by
  have := inject?_kept (motive := fun n p => p.size = g.population.size + n ∧
    p.desiredSize = g.population.desiredSize) ?_ (n := 0) ⟨rfl, rfl⟩ hg
  · simpa using this
  · rintro n q program s s' ⟨hs, hd⟩ -
    exact ⟨by simp [hs]; omega, by simp [hd]⟩

/-- none are asked for, or their programs can be drawn -/
theorem exists_inject? {count : Nat} (h : 0 < count → rules.bounds.Drawable) (g : Growth) :
    ∃ g', rules.inject? count g = some g' := by
  obtain ⟨names, p, s, hmany⟩ := Population.exists_addManyRandom? h g.population g.stream
  exact ⟨_, Option.bind_eq_some_iff.2 ⟨_, hmany, rfl⟩⟩

end TradingRobots.BreedingRules
