/-
What the death rules promise: whom they spare, how many they take, and that every death has one reason.

The robots that are too young and the heaviest share are protected from deaths of age and of weight; the weight of each
is compared with that of the whole population before anyone dies. Both rules stay within their caps. Only silence takes
protected robots, and it takes everyone who was asked and never named a direction.

`mem_protectedNames_iff`: who is protected, told by outcomes and rank.
`kill_by_the_rules`: the promises, for every population with unique names.
-/
import TradingRobots.Proofs.Population.Ranking
import TradingRobots.Random.Sources

namespace TradingRobots.DeathRules

open TradingRobots.Random

variable {rules : DeathRules} {rule : WeightRule} {robots : List Robot}

/-! ## Reasons -/

/-- why a robot dies -/
inductive Reason where
  | age
  | weight
  | silence
deriving DecidableEq, Repr

namespace Deaths

/-- who died for a reason -/
def namesOf (d : Deaths) : Reason → List RobotName
  | .age => d.byAge.map Robot.name
  | .weight => d.byWeight.map Prod.fst
  | .silence => d.silent.map Robot.name

theorem mem_names_iff {d : Deaths} {n : RobotName} : n ∈ d.names ↔ ∃ reason, n ∈ d.namesOf reason := by
  rw [names, List.mem_append, List.mem_append]
  constructor
  · rintro ((h | h) | h)
    · exact ⟨.age, h⟩
    · exact ⟨.weight, h⟩
    · exact ⟨.silence, h⟩
  · rintro ⟨reason, h⟩
    cases reason with
    | age => exact .inl (.inl h)
    | weight => exact .inl (.inr h)
    | silence => exact .inr h

/-- distinct names stand under one reason only -/
theorem reason_eq {d : Deaths} (h : d.names.Nodup) {n : RobotName} {a b : Reason} (ha : n ∈ d.namesOf a)
    (hb : n ∈ d.namesOf b) : a = b := by
  rw [names, List.nodup_append, List.nodup_append] at h
  obtain ⟨⟨-, -, hageWeight⟩, -, hsilence⟩ := h
  cases a <;> cases b
  case age.age | weight.weight | silence.silence => rfl
  case age.weight => exact absurd rfl (hageWeight n ha n hb)
  case weight.age => exact absurd rfl (hageWeight n hb n ha)
  case age.silence => exact absurd rfl (hsilence n (List.mem_append_left _ ha) n hb)
  case silence.age => exact absurd rfl (hsilence n (List.mem_append_left _ hb) n ha)
  case weight.silence => exact absurd rfl (hsilence n (List.mem_append_right _ ha) n hb)
  case silence.weight => exact absurd rfl (hsilence n (List.mem_append_right _ hb) n ha)

theorem nodup_namesOf {d : Deaths} (h : d.names.Nodup) (reason : Reason) : (d.namesOf reason).Nodup := by
  rw [names, List.nodup_append, List.nodup_append] at h
  obtain ⟨⟨hage, hweight, -⟩, hsilence, -⟩ := h
  cases reason with
  | age => exact hage
  | weight => exact hweight
  | silence => exact hsilence

end Deaths

/-- the deaths that a toll counts for a reason -/
def countOf (t : DeathToll) : Reason → Nat
  | .age => t.byAge
  | .weight => t.byWeight
  | .silence => t.silent

theorem countOf_toll (d : Deaths) (reason : Reason) : countOf d.toll reason = (d.namesOf reason).length := by
  cases reason with
  | age => exact (List.length_map _).symm
  | weight => exact (List.length_map _).symm
  | silence => exact (List.length_map _).symm

/-! ## Protection -/

/-- protected from deaths of age and of weight: too young, or outranked by few enough -/
def Shielded (rules : DeathRules) (rule : WeightRule) (robots : List Robot) (r : Robot) : Prop :=
  r.outcomes < rules.protectUntilOutcomes ∨ r.rank rule robots < rules.protectedCount robots.length

theorem mem_young_iff (hu : (robots.map Robot.name).Nodup) {r : Robot} (hr : r ∈ robots) :
    r.name ∈ rules.young robots ↔ r.outcomes < rules.protectUntilOutcomes := by
  rw [young, List.mem_map]
  constructor
  · rintro ⟨other, hother, hsame⟩
    obtain ⟨hother, hyoung⟩ := List.mem_filter.1 hother
    obtain rfl : other = r := List.inj_on_of_nodup_map hu hother hr hsame
    exact of_decide_eq_true hyoung
  · exact fun hyoung => ⟨r, List.mem_filter.2 ⟨hr, decide_eq_true hyoung⟩, rfl⟩

/-- **Who is protected**: the young, and those outranked by few enough. -/
theorem mem_protectedNames_iff (hu : (robots.map Robot.name).Nodup) {r : Robot} (hr : r ∈ robots) :
    r.name ∈ rules.protectedNames rule robots ↔ rules.Shielded rule robots r := by
  rw [protectedNames, List.mem_append, mem_young_iff hu hr, mem_best_iff hu hr, Shielded]

theorem not_protected_of_aged {n : RobotName} (hn : n ∈ (rules.ageCandidates rule robots).map Robot.name) :
    n ∉ rules.protectedNames rule robots := by
  obtain ⟨r, hr, rfl⟩ := List.mem_map.1 (names_ageCandidates_perm.subset hn)
  simpa using (List.mem_filter.1 hr).2

theorem not_protected_of_weighed {dead : List RobotName} {n : RobotName}
    (hn : n ∈ (rules.weightCandidates rule robots dead).map Prod.fst) : n ∉ rules.protectedNames rule robots := by
  obtain ⟨rest, hperm, hsub⟩ := names_weightCandidates_sublist rules rule robots dead
  obtain ⟨w, hw, rfl⟩ := List.mem_map.1 ((hperm.map _).subset ((hsub.map _).subset hn))
  have hsafe := (List.mem_filter.1 hw).2
  simp only [Bool.and_eq_true, Bool.not_eq_true', List.contains_eq_mem, decide_eq_false_iff_not] at hsafe
  exact hsafe.1

/-- deaths of age and of weight spare the protected -/
theorem not_shielded_of_dead (hu : (robots.map Robot.name).Nodup) {s : Stream} {r : Robot} (hr : r ∈ robots)
    (h : r.name ∈ (rules.deaths rule robots s).1.namesOf .age ∨ r.name ∈ (rules.deaths rule robots s).1.namesOf .weight) :
    ¬rules.Shielded rule robots r := by
  obtain ⟨hage, hweight, -⟩ := deaths_passes rules rule robots s
  rw [← mem_protectedNames_iff hu hr]
  rcases h with h | h
  · exact not_protected_of_aged ((hage.map _).subset h)
  · exact not_protected_of_weighed ((hweight.map _).subset h)

/-! ## Caps -/

theorem length_deathsUpTo_le {α : Type} (probability : Float) (room : Nat) (xs : List α) (s : Stream) :
    (deathsUpTo probability room xs s).1.length ≤ room := by
  induction xs generalizing room s with
  | nil => cases room <;> exact Nat.zero_le _
  | cons x rest ih =>
    cases room with
    | zero => exact Nat.le_refl 0
    | succ room =>
      simp only [deathsUpTo]
      split
      · exact Nat.succ_le_succ (ih room _)
      · exact ih (room + 1) _

theorem length_byAge_le (s : Stream) :
    (rules.deaths rule robots s).1.byAge.length ≤ cap rules.maximumByAge robots.length :=
  length_deathsUpTo_le _ _ _ _

theorem length_byWeight_le (s : Stream) :
    (rules.deaths rule robots s).1.byWeight.length ≤ cap rules.maximumByWeight robots.length := by
  obtain ⟨-, hweight, -⟩ := deaths_passes rules rule robots s
  exact hweight.length_le.trans (List.length_take_le _ _)

/-! ## Silence -/

theorem mem_silentRobots_iff {dead : List RobotName} {r : Robot} :
    r ∈ rules.silentRobots robots dead ↔
      rules.removeSilent = true ∧ r ∈ robots ∧ r.neverPredicted = true ∧ r.name ∉ dead := by
  unfold silentRobots
  split
  next h => simp [h]
  next h => simp [h]

/-- with the rule on, whoever was asked and never named a direction dies, of silence if of nothing else -/
theorem dead_of_silent {s : Stream} {r : Robot} (hr : r ∈ robots) (hon : rules.removeSilent = true)
    (hsilent : r.neverPredicted = true) : r.name ∈ (rules.deaths rule robots s).1.names := by
  obtain ⟨-, -, hpass⟩ := deaths_passes rules rule robots s
  rw [Deaths.names, List.mem_append]
  by_cases hdead : r.name ∈ (rules.deaths rule robots s).1.byAge.map Robot.name ++
      (rules.deaths rule robots s).1.byWeight.map Prod.fst
  · exact .inl hdead
  · right
    rw [hpass]
    exact List.mem_map_of_mem (mem_silentRobots_iff.2 ⟨hon, hr, hsilent, hdead⟩)

/-- whoever died of silence was asked and never named a direction -/
theorem silent_of_dead (hu : (robots.map Robot.name).Nodup) {s : Stream} {r : Robot} (hr : r ∈ robots)
    (h : r.name ∈ (rules.deaths rule robots s).1.namesOf .silence) :
    rules.removeSilent = true ∧ r.neverPredicted = true := by
  obtain ⟨-, -, hpass⟩ := deaths_passes rules rule robots s
  rw [Deaths.namesOf, hpass] at h
  obtain ⟨other, hother, hsame⟩ := List.mem_map.1 h
  obtain ⟨hon, hin, hsilent, -⟩ := mem_silentRobots_iff.1 hother
  obtain rfl : other = r := List.inj_on_of_nodup_map hu hin hr hsame
  exact ⟨hon, hsilent⟩

/-! ## The promises -/

/-- what the rules promise about a population, those who died, and the population left -/
structure ByTheRules (rules : DeathRules) (rule : WeightRule) (p : Population) (d : Deaths) (q : Population) : Prop where
  /-- the survivors stand as they were, in their order -/
  survivors : q.robots.Sublist p.robots
  rest : q.desiredSize = p.desiredSize ∧ q.nextName = p.nextName
  /-- a robot is gone when it died, for one reason -/
  gone_iff : ∀ r ∈ p.robots, r ∉ q.robots ↔ ∃! reason, r.name ∈ d.namesOf reason
  counted : ∀ reason, countOf d.toll reason = p.robots.countP fun r => r.name ∈ d.namesOf reason
  age_cap : d.toll.byAge ≤ Binary64.nearestCount (rules.maximumByAge * Binary64.ofCount p.size)
  weight_cap : d.toll.byWeight ≤ Binary64.nearestCount (rules.maximumByWeight * Binary64.ofCount p.size)
  /-- age and weight take those only who are old enough and outranked by enough others -/
  spared : ∀ r ∈ p.robots, r.name ∈ d.namesOf .age ∨ r.name ∈ d.namesOf .weight →
    rules.protectUntilOutcomes ≤ r.outcomes ∧
      Binary64.ceilingCount (rules.protectBest * Binary64.ofCount p.size) ≤ r.rank rule p.robots
  /-- a protected robot is only taken by silence -/
  shielded : ∀ r ∈ p.robots, rules.Shielded rule p.robots r → r ∉ q.robots →
    rules.removeSilent = true ∧ 0 < r.calls ∧ r.isPredicting = false
  /-- with the rule on, no survivor was asked in vain -/
  heard : rules.removeSilent = true → ∀ r ∈ q.robots, ¬(0 < r.calls ∧ r.isPredicting = false)
  /-- with the rule off, nobody dies of silence -/
  silence_off : rules.removeSilent = false → d.toll.silent = 0

variable {p : Population}

theorem neverPredicted_iff (r : Robot) : r.neverPredicted = true ↔ 0 < r.calls ∧ r.isPredicting = false := by
  simp [Robot.neverPredicted]

/-- a survivor is a robot that is not among the dead -/
theorem mem_survivors_iff {s : Stream} {r : Robot} :
    r ∈ (rules.kill rule p s).2.1.robots ↔ r ∈ p.robots ∧ r.name ∉ (rules.kill rule p s).1.names := by
  rw [kill_population, Population.removeAll]
  simp

/-- as many robots of a list bear some distinct names as there are names, if each is borne -/
theorem countP_names {names : List RobotName} (hu : (robots.map Robot.name).Nodup) (hnames : names.Nodup)
    (hsub : ∀ n ∈ names, n ∈ robots.map Robot.name) : robots.countP (fun r => r.name ∈ names) = names.length := by
  have hleft := Population.length_filter_names hu hnames hsub
  have hsplit := List.length_eq_length_filter_add (l := robots) fun r => names.contains r.name
  simp only [List.contains_eq_mem] at hleft hsplit
  rw [List.countP_eq_length_filter]
  omega

/-- **Deaths keep to the rules**, for every population whose names are unique, every weight rule and every stream. -/
theorem kill_by_the_rules (rules : DeathRules) (rule : WeightRule) (p : Population) (s : Stream)
    (hu : p.names.Nodup) :
    ByTheRules rules rule p (rules.kill rule p s).1 (rules.kill rule p s).2.1 := by
  have hnodup : (rules.kill rule p s).1.names.Nodup := nodup_names_deaths hu s
  have hgone : ∀ r ∈ p.robots, r ∉ (rules.kill rule p s).2.1.robots → r.name ∈ (rules.kill rule p s).1.names :=
    fun r hr hnot => by_contra fun hdead => hnot (mem_survivors_iff.2 ⟨hr, hdead⟩)
  refine ⟨List.filter_sublist, ⟨rfl, rfl⟩, ?_, ?_, length_byAge_le s, length_byWeight_le s, ?_, ?_, ?_, ?_⟩
  · intro r hr
    constructor
    · intro hnot
      obtain ⟨reason, hreason⟩ := Deaths.mem_names_iff.1 (hgone r hr hnot)
      exact ⟨reason, hreason, fun other hother => Deaths.reason_eq hnodup hother hreason⟩
    · rintro ⟨reason, hreason, -⟩ hleft
      exact (mem_survivors_iff.1 hleft).2 (Deaths.mem_names_iff.2 ⟨reason, hreason⟩)
  · intro reason
    rw [countOf_toll, countP_names hu (Deaths.nodup_namesOf hnodup reason)]
    exact fun n hn => names_deaths_subset (Deaths.mem_names_iff.2 ⟨reason, hn⟩)
  · intro r hr hdead
    have hopen := not_shielded_of_dead hu hr hdead
    rw [Shielded, not_or, not_lt, not_lt] at hopen
    exact hopen
  · intro r hr hshielded hnot
    obtain ⟨reason, hreason⟩ := Deaths.mem_names_iff.1 (hgone r hr hnot)
    cases reason with
    | age => exact absurd hshielded (not_shielded_of_dead hu hr (.inl hreason))
    | weight => exact absurd hshielded (not_shielded_of_dead hu hr (.inr hreason))
    | silence =>
      obtain ⟨hon, hsilent⟩ := silent_of_dead hu hr hreason
      exact ⟨hon, (neverPredicted_iff r).1 hsilent⟩
  · intro hon r hr hsilent
    obtain ⟨hin, hleft⟩ := mem_survivors_iff.1 hr
    exact hleft (dead_of_silent hin hon ((neverPredicted_iff r).2 hsilent))
  · intro hoff
    have hnone : (rules.kill rule p s).1.silent = [] := by
      refine List.eq_nil_iff_forall_not_mem.2 fun r hr => ?_
      rw [kill, (deaths_passes rules rule p.robots s).2.2] at hr
      exact absurd (mem_silentRobots_iff.1 hr).1 (by simp [hoff])
    rw [Deaths.toll, hnone, List.length_nil]

/-- young, and asked in vain -/
def unheard : Robot :=
  { Robot.new ⟨1⟩ ⟨[.emit .out], 1⟩ 2.0 with outcomes := 2, calls := 3 }

/-- heavier than the other four -/
def heaviest : Robot :=
  { Robot.new ⟨2⟩ ⟨[.emit .long], 1⟩ 7.0 with outcomes := 5, calls := 6, isPredicting := true }

/-- five robots, of which the first and the fourth are equally old and the last two weigh the same -/
def fiveRobots : Population where
  desiredSize := 5
  nextName := 5
  robots := [
    { Robot.new ⟨0⟩ ⟨[.emit .long], 1⟩ 1.0 with outcomes := 9, calls := 10, isPredicting := true },
    unheard,
    heaviest,
    { Robot.new ⟨3⟩ ⟨[.emit .short], 1⟩ 0.5 with outcomes := 9, calls := 10, isPredicting := true },
    { Robot.new ⟨4⟩ ⟨[.emit .short], 1⟩ 0.5 with outcomes := 4, calls := 5, isPredicting := true }]

/-- rules that kill whomever they consider: the heaviest survives, the unheard one goes although it is protected, and at
most one robot dies of age and one of weight -/
theorem kill_by_the_rules_five :
    let rules : DeathRules := ⟨0.2, 0.2, 1.0, 1.0, 3, 0.4, true⟩
    let rule : WeightRule := ⟨.winCount, 2.0⟩
    let killed := rules.kill rule fiveRobots (listed [])
    fiveRobots.names.Nodup ∧ heaviest ∈ killed.2.1.robots ∧
      rules.Shielded rule fiveRobots.robots unheard ∧ unheard ∉ killed.2.1.robots ∧
      killed.1.toll.byAge ≤ 1 ∧ killed.1.toll.byWeight ≤ 1 := by
  intro rules rule killed
  have hu : fiveRobots.names.Nodup := by decide
  have h := kill_by_the_rules rules rule fiveRobots (listed []) hu
  have hcap : Binary64.nearestCount (0.2 * Binary64.ofCount fiveRobots.size) = 1 := by decide +kernel
  have hfirst : heaviest.rank rule fiveRobots.robots < rules.protectedCount fiveRobots.robots.length := by
    decide +kernel
  have hsurvives : heaviest ∈ killed.2.1.robots := by
    by_contra hgone
    have hsilent := (h.shielded heaviest (by simp [fiveRobots]) (.inr hfirst) hgone).2.2
    exact absurd hsilent (by decide)
  have hremoved : unheard ∉ killed.2.1.robots := fun hleft => h.heard rfl unheard hleft ⟨by decide, rfl⟩
  exact ⟨hu, hsurvives, .inl (by decide), hremoved, h.age_cap.trans hcap.le, h.weight_cap.trans hcap.le⟩

end TradingRobots.DeathRules
