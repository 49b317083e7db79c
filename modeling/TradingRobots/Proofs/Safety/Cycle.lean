/-
Cycles and random populations that do not fail.

A cycle sorts robots by weight, counts its dead off the population, the newcomers' places off the free ones and every
birth off the slots that are left, and looks its parents up by the position that the wheel gave and then by name. Weights are finite, so
they compare; nothing dies that did not live; no more places are kept than are free; a birth takes no more slots than
there are; and the wheel stops at an entry that it has.

`killGuarded_eq`, `breedGuarded_eq`, `injectGuarded_eq`: deaths, births and newcomers.
`cycleGuarded_eq`: a cycle that comes about does so without failing.
`randomGuarded_eq`: so does a random population.
-/
import TradingRobots.Proofs.Breeding.Births
import TradingRobots.Proofs.Population.Deaths
import TradingRobots.Proofs.Safety.Drawing
import TradingRobots.Proofs.Weight.Sound
import TradingRobots.Proofs.Wheel.Entries
import TradingRobots.Cycle

namespace TradingRobots

open TradingRobots.Random

/-! ## Deaths -/

namespace DeathRules

/-- robots are sorted by weights that must compare, and the survivors counted off those who were there -/
def killGuarded (rules : DeathRules) (rule : WeightRule) (p : Population) (s : Stream) :
    Guarded (Deaths × Population × Stream) := do
  if (Weighed.ofRobots rule p.robots).all fun w => w.2.isFinite then
    let (dead, survivors, s) := rules.kill rule p s
    let _ ← Guarded.sub p.size survivors.size
    .ok (dead, survivors, s)
  else .error .disorder

/-- **Robots of any population die without a failure.** -/
theorem killGuarded_eq (rules : DeathRules) (rule : WeightRule) (p : Population) (s : Stream) :
    rules.killGuarded rule p s = .ok (rules.kill rule p s) := by
  have hcompare : ((Weighed.ofRobots rule p.robots).all fun w => w.2.isFinite) = true := by
    rw [List.all_eq_true]
    intro w hw
    obtain ⟨r, -, rfl⟩ := List.mem_map.1 hw
    exact r.isFinite_weight rule
  have hleft : (rules.kill rule p s).2.1.size ≤ p.size := Population.size_removeAll_le _
  rw [killGuarded, if_pos hcompare]
  dsimp only
  rw [Guarded.sub_eq hleft]
  rfl

end DeathRules

/-! ## Births -/

namespace BreedingRules

/-- takes one robot of a list away: its position must be one of the list's -/
def othersGuarded (robots : List Robot) (k : Nat) : Guarded (List Robot) :=
  if k < robots.length then .ok (others robots k) else .error .index

/-- picks a robot by weight, and looks it up by the position that the wheel gave -/
def pickGuarded (rule : WeightRule) (robots : List Robot) (s : Stream) : Guarded (Option (Nat × Robot) × Stream) := do
  let (position, s) ← Wheel.selectGuarded (robots.map fun r => r.weight rule) s
  match position with
  | none => .ok (none, s)
  | some k =>
    let r ← Guarded.index robots k
    .ok (some (k, r), s)

def breedOneGuarded (rules : BreedingRules) (rule : WeightRule) (g : Growth) : Guarded (Bool × Growth) := do
  let (picked, s) ← pickGuarded rule (rules.eligible g.population) g.stream
  match picked with
  | none => .ok (false, { g with stream := s })
  | some (_, chosen) =>
    match g.population.find? chosen.name with
    | none => .ok (false, { g with stream := s })
    | some parent =>
      let (program, s) ← Mutation.mutateGuarded rules.bounds rules.rates parent.program s
      let (child, p) := g.population.add program (rules.inheritance.inherit rule parent)
      .ok (true, ⟨p.update parent.name Robot.bear, s, .born child parent.name :: g.noted⟩)

def breedPairGuarded (rules : BreedingRules) (rule : WeightRule) (g : Growth) : Guarded (Bool × Growth) := do
  let candidates := rules.eligible g.population
  let (picked, s) ← pickGuarded rule candidates g.stream
  match picked with
  | none => .ok (false, { g with stream := s })
  | some (k, first) =>
    let others ← othersGuarded candidates k
    let (picked, s) ← pickGuarded rule others s
    match picked with
    | none => .ok (false, { g with stream := s })
    | some (_, second) =>
      match g.population.find? first.name, g.population.find? second.name with
      | some first, some second =>
        let ((a, b), s) ← Crossing.crossGuarded first.program second.program s
        let (a, s) ← Mutation.mutateGuarded rules.bounds rules.rates a s
        let (b, s) ← Mutation.mutateGuarded rules.bounds rules.rates b s
        let inherited := rules.inheritance.inheritFromPair rule first second
        let (firstChild, p) := g.population.add a inherited
        let (secondChild, p) := p.add b inherited
        let p := (p.update first.name Robot.bear).update second.name Robot.bear
        .ok (true, ⟨p, s, .pairBorn firstChild secondChild first.name second.name :: g.noted⟩)
      | _, _ => .ok (false, { g with stream := s })

/-- births until no slots are left, each counted off the slots left; the first number limits the rounds -/
def fillGuarded (rules : BreedingRules) (rule : WeightRule) : Nat → Nat → Growth → Guarded (Nat × Growth)
  | 0, left, g => .ok (left, g)
  | rounds + 1, left, g =>
    if left = 0 ∨ (rules.inPairs ∧ left < 2) then .ok (left, g)
    else do
      let (done, g) ← if rules.inPairs then rules.breedPairGuarded rule g else rules.breedOneGuarded rule g
      if done then
        let left ← Guarded.sub left (if rules.inPairs then 2 else 1)
        rules.fillGuarded rule rounds left g
      else .ok (left, g)

/-- no more rounds are needed than there are slots -/
def breedGuarded (rules : BreedingRules) (rule : WeightRule) (slots : Nat) (g : Growth) : Guarded Litter := do
  let (left, g) ← rules.fillGuarded rule slots slots g
  let noted := if 0 < left then .starved left slots :: g.noted else g.noted
  .ok ⟨{ g with noted := noted }, slots - left, left⟩

/-- **A pick never fails**: the wheel stops at a robot of the list. -/
theorem pickGuarded_eq (rule : WeightRule) (robots : List Robot) (s : Stream) :
    pickGuarded rule robots s = .ok (pick rule robots s) := by
  rw [pickGuarded, Wheel.selectGuarded_eq, Guarded.ok_bind, pick]
  rcases hselect : Wheel.select (robots.map fun r => r.weight rule) s with ⟨_ | k, s'⟩
  · rw [hselect]
    rfl
  · rw [hselect]
    have hk : k < robots.length := by
      have hlt := Wheel.select_lt hselect
      rwa [List.length_map] at hlt
    have hr : robots[k]? = some robots[k] := List.getElem?_eq_getElem hk
    dsimp only
    rw [Guarded.index_eq hr, Guarded.ok_bind, Option.bind_some, hr]
    rfl

variable (rules : BreedingRules) (rule : WeightRule)

theorem breedOneGuarded_eq (g : Growth) : rules.breedOneGuarded rule g = .ok (rules.breedOne rule g) := by
  rw [breedOneGuarded, pickGuarded_eq, Guarded.ok_bind, breedOne]
  rcases pick rule (rules.eligible g.population) g.stream with ⟨_ | ⟨k, chosen⟩, s⟩
  · rfl
  · dsimp only
    cases g.population.find? chosen.name with
    | none => rfl
    | some parent =>
      dsimp only
      rw [Mutation.mutateGuarded_eq]
      rfl

theorem breedPairGuarded_eq (g : Growth) : rules.breedPairGuarded rule g = .ok (rules.breedPair rule g) := by
  rw [breedPairGuarded, breedPair]
  dsimp only
  rw [pickGuarded_eq, Guarded.ok_bind]
  rcases hpick : pick rule (rules.eligible g.population) g.stream with ⟨_ | ⟨k, first⟩, s⟩
  · rfl
  · have hk : k < (rules.eligible g.population).length := (List.getElem?_eq_some_iff.1 (mem_of_pick hpick)).1
    dsimp only
    rw [othersGuarded, if_pos hk, Guarded.ok_bind, pickGuarded_eq, Guarded.ok_bind]
    rcases pick rule (others (rules.eligible g.population) k) s with ⟨_ | ⟨k', second⟩, s'⟩
    · rfl
    · dsimp only
      rcases g.population.find? first.name with _ | first
      · rfl
      rcases g.population.find? second.name with _ | second
      · rfl
      dsimp only
      rw [Crossing.crossGuarded_eq, Guarded.ok_bind]
      rcases Crossing.cross first.program second.program s' with ⟨⟨a, b⟩, s₁⟩
      dsimp only
      rw [Mutation.mutateGuarded_eq, Guarded.ok_bind]
      rcases Mutation.mutate rules.bounds rules.rates a s₁ with ⟨a', s₂⟩
      dsimp only
      rw [Mutation.mutateGuarded_eq]
      rfl

/-- births one by one, given rounds for all slots -/
theorem fillGuarded_eq_singly (h : rules.inPairs = false) {rounds left : Nat} (hle : left ≤ rounds) (g : Growth) :
    rules.fillGuarded rule rounds left g = .ok (rules.fillSingly rule left g) := by
  induction rounds generalizing left g with
  | zero =>
    obtain rfl := Nat.le_zero.1 hle
    rfl
  | succ rounds ih =>
    cases left with
    | zero => simp [fillGuarded, fillSingly]
    | succ left =>
      simp only [fillGuarded, fillSingly, h, Bool.false_eq_true, if_false, breedOneGuarded_eq, Guarded.ok_bind]
      rw [if_neg (by simp)]
      split
      · rw [Guarded.sub_eq (Nat.succ_pos left), Guarded.ok_bind]
        exact ih (Nat.le_of_succ_le_succ hle) _
      · rfl

/-- births two by two, given rounds for all slots -/
theorem fillGuarded_eq_inPairs (h : rules.inPairs = true) {rounds left : Nat} (hle : left ≤ rounds) (g : Growth) :
    rules.fillGuarded rule rounds left g = .ok (rules.fillInPairs rule left g) := by
  induction rounds generalizing left g with
  | zero =>
    obtain rfl := Nat.le_zero.1 hle
    rfl
  | succ rounds ih =>
    match left, hle with
    | 0, _ => simp [fillGuarded, fillInPairs]
    | 1, _ => simp [fillGuarded, fillInPairs, h]
    | left + 2, hle =>
      simp only [fillGuarded, fillInPairs, h, if_true, breedPairGuarded_eq, Guarded.ok_bind]
      rw [if_neg (by simp)]
      split
      · rw [Guarded.sub_eq (Nat.le_add_left 2 left), Guarded.ok_bind]
        exact ih (by omega) _
      · rfl

/-- **A litter of any number of slots comes without a failure.** -/
theorem breedGuarded_eq (slots : Nat) (g : Growth) :
    rules.breedGuarded rule slots g = .ok (rules.breed rule slots g) := by
  rw [breedGuarded, breed]
  cases h : rules.inPairs with
  | true =>
    rw [fillGuarded_eq_inPairs rules rule h (Nat.le_refl slots)]
    rfl
  | false =>
    rw [fillGuarded_eq_singly rules rule h (Nat.le_refl slots)]
    rfl

end BreedingRules

/-! ## Newcomers -/

namespace Population

def addRandomGuarded (p : Population) (bounds : ProgramBounds) (s : Stream) :
    Guarded (RobotName × Population × Stream) := do
  let (program, s) ← bounds.randomProgramGuarded s
  let (name, p) := p.add program 0.0
  .ok (name, p, s)

def addManyRandomGuarded (bounds : ProgramBounds) :
    Nat → Population → Stream → Guarded (List RobotName × Population × Stream)
  | 0, p, s => .ok ([], p, s)
  | n + 1, p, s => do
    let (name, p, s) ← p.addRandomGuarded bounds s
    let (names, p, s) ← addManyRandomGuarded bounds n p s
    .ok (name :: names, p, s)

def randomGuarded (desiredSize : Nat) (bounds : ProgramBounds) (s : Stream) : Guarded (Population × Stream) := do
  let (_, p, s) ← addManyRandomGuarded bounds desiredSize (.empty desiredSize) s
  .ok (p, s)

variable {bounds : ProgramBounds}

theorem addRandomGuarded_eq {p : Population} {s : Stream} {added : RobotName × Population × Stream}
    (h : p.addRandom? bounds s = some added) : p.addRandomGuarded bounds s = .ok added := by
  obtain ⟨⟨program, s'⟩, hprogram, h⟩ := Option.bind_eq_some_iff.1 h
  cases h
  rw [addRandomGuarded, bounds.randomProgramGuarded_eq hprogram]
  rfl

theorem addManyRandomGuarded_eq {n : Nat} {p : Population} {s : Stream}
    {added : List RobotName × Population × Stream} (h : addManyRandom? bounds n p s = some added) :
    addManyRandomGuarded bounds n p s = .ok added := by
  induction n generalizing p s added with
  | zero =>
    cases h
    rfl
  | succ n ih =>
    obtain ⟨⟨name, q, s₁⟩, hone, h⟩ := Option.bind_eq_some_iff.1 h
    obtain ⟨⟨names, q', s₂⟩, hrest, h⟩ := Option.bind_eq_some_iff.1 h
    cases h
    rw [addManyRandomGuarded, addRandomGuarded_eq hone, Guarded.ok_bind]
    dsimp only
    rw [ih hrest]
    rfl

/-- **A random population that comes about does so without a failure.** -/
theorem randomGuarded_eq {desiredSize : Nat} {s : Stream} {drawn : Population × Stream}
    (h : random? desiredSize bounds s = some drawn) : randomGuarded desiredSize bounds s = .ok drawn := by
  obtain ⟨⟨names, p, s'⟩, hmany, h⟩ := Option.bind_eq_some_iff.1 h
  cases h
  rw [randomGuarded, addManyRandomGuarded_eq hmany]
  rfl

end Population

def BreedingRules.injectGuarded (rules : BreedingRules) (count : Nat) (g : Growth) : Guarded Growth := do
  let (names, p, s) ← Population.addManyRandomGuarded rules.bounds count g.population g.stream
  .ok ⟨p, s, (names.map Event.injected).reverse ++ g.noted⟩

theorem BreedingRules.injectGuarded_eq {rules : BreedingRules} {count : Nat} {g grown : Growth}
    (h : rules.inject? count g = some grown) : rules.injectGuarded count g = .ok grown := by
  obtain ⟨⟨names, p, s⟩, hmany, h⟩ := Option.bind_eq_some_iff.1 h
  cases h
  rw [injectGuarded, Population.addManyRandomGuarded_eq hmany]
  rfl

/-! ## Cycles -/

namespace EvolutionPolicy

/-- a cycle that takes the newcomers' places off the free ones -/
def cycleGuarded (policy : EvolutionPolicy) (p : Population) (s : Stream) : Guarded CycleResult := do
  let (dead, survivors, s) ← policy.deaths.killGuarded policy.weights p s
  let free := survivors.freeCapacity
  let random := policy.randomSlots survivors.desiredSize free
  let slots ← Guarded.sub free random
  let litter ← policy.breeding.breedGuarded policy.weights slots ⟨survivors, s, []⟩
  let grown ← policy.breeding.injectGuarded random litter.growth
  .ok {
    report := ⟨p.size, dead.toll, litter.born, litter.starved, random, grown.population.size⟩
    population := grown.population
    stream := grown.stream
    events := dead.events ++ grown.noted.reverse }

/-- **A cycle that comes about does so without failing.** -/
theorem cycleGuarded_eq {policy : EvolutionPolicy} {p : Population} {s : Stream} {c : CycleResult}
    (h : policy.cycle? p s = some c) : policy.cycleGuarded p s = .ok c := by
  rw [cycleGuarded, DeathRules.killGuarded_eq, Guarded.ok_bind]
  unfold cycle? at h
  rcases hkill : policy.deaths.kill policy.weights p s with ⟨dead, survivors, s'⟩
  rw [hkill] at h
  obtain ⟨grown, hgrown, h⟩ := Option.bind_eq_some_iff.1 h
  cases h
  have hfree : policy.randomSlots survivors.desiredSize survivors.freeCapacity ≤ survivors.freeCapacity :=
    Nat.min_le_right _ _
  dsimp only
  rw [Guarded.sub_eq hfree, Guarded.ok_bind, BreedingRules.breedGuarded_eq, Guarded.ok_bind,
    BreedingRules.injectGuarded_eq hgrown]
  rfl

end EvolutionPolicy

end TradingRobots
