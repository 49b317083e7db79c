/-
What the death rules look at, robot by robot and number by number.

The robots that age may take stand in a queue, oldest first. The rule goes along it, draws one number for each robot it
comes to and takes the robot if the number is below the probability; it stops only when the cap is reached. The rule of
weight goes along the queue of those that are left, lightest first, as far as its cap, whatever it takes. Nothing is drawn
for the silent. So the numbers are told by positions: the first rule uses the first so many numbers of the stream, and the
second one the next.

`deathsUpTo_considers`, `deathsAmong_eq`: the two ways along a queue.
`kill_passes`: the queues, the numbers, the dead and the stream afterwards, for every population with unique names.
-/
import TradingRobots.Proofs.Population.Protection
import TradingRobots.Proofs.Random.Unit

namespace TradingRobots.DeathRules

open TradingRobots.Random

/-! ## Along a queue -/

section Queue

variable {α β : Type} {probability : Float} {s : Stream}

/-- the members of a queue whose own number is below the probability, where the number of a member is the one at its
place -/
def struck (probability : Float) (s : Stream) (xs : List α) : List α :=
  (xs.zipIdx.filter fun e => s.number e.2 < probability).map Prod.fst

theorem struck_cons (x : α) (xs : List α) :
    struck probability s (x :: xs) =
      if s.number 0 < probability then x :: struck probability (s.skip 1) xs else struck probability (s.skip 1) xs := by
  have hshift : ((xs.zipIdx 1).filter fun e => s.number e.2 < probability).map Prod.fst =
      struck probability (s.skip 1) xs := by
    rw [struck, List.zipIdx_succ, List.filter_map, List.map_map]
    simp only [Function.comp_def, Stream.number_skip, Nat.add_comm 1]
  rw [← hshift, struck, List.zipIdx_cons, List.filter_cons, Nat.zero_add]
  simp only [decide_eq_true_eq]
  split
  · rfl
  · rfl

theorem struck_sublist (xs : List α) : (struck probability s xs).Sublist xs := by
  have hsub := (List.filter_sublist (p := fun e : α × Nat => decide (s.number e.2 < probability))
    (l := xs.zipIdx)).map Prod.fst
  rwa [List.zipIdx_map_fst] at hsub

theorem struck_map (f : α → β) (xs : List α) : struck probability s (xs.map f) = (struck probability s xs).map f := by
  induction xs generalizing s with
  | nil => rfl
  | cons x xs ih =>
    rw [List.map_cons, struck_cons, struck_cons, ih]
    split
    · rfl
    · rfl

/-- no number reaches one -/
theorem struck_one (xs : List α) : struck 1.0 s xs = xs := by
  induction xs generalizing s with
  | nil => rfl
  | cons x xs ih => rw [struck_cons, if_pos (s.number_lt_one 0), ih]

/-- no number lies below zero, or below what is not above zero -/
theorem struck_none (h : ¬0.0 < probability) (xs : List α) : struck probability s xs = [] := by
  induction xs generalizing s with
  | nil => rfl
  | cons x xs ih =>
    have hnot : ¬s.number 0 < probability := fun hlt => h (Stream.pos_of_number_lt hlt)
    rw [struck_cons, if_neg hnot, ih]

/-- a prefix of a queue that a pass with a cap goes through: all of it, or until so many are taken -/
structure Considered (probability : Float) (room : Nat) (xs : List α) (s : Stream) (k : Nat) : Prop where
  within : k ≤ xs.length
  /-- short of the end, the cap is reached -/
  full : k < xs.length → (struck probability s (xs.take k)).length = room
  /-- it is not reached before -/
  early : ∀ j < k, (struck probability s (xs.take j)).length < room

variable {room k : Nat} {x : α} {xs : List α}

theorem considered_none (h : room = 0 ∨ xs = []) : Considered probability room xs s 0 where
  within := Nat.zero_le _
  full := by
    intro hshort
    rcases h with rfl | rfl
    · rfl
    · exact absurd hshort (Nat.lt_irrefl 0)
  early := fun j hj => absurd hj (Nat.not_lt_zero j)

/-- a first member that is struck takes room -/
theorem Considered.struck (hstruck : s.number 0 < probability) (h : Considered probability room xs (s.skip 1) k) :
    Considered probability (room + 1) (x :: xs) s (k + 1) where
  within := Nat.succ_le_succ h.within
  full := by
    intro hshort
    rw [List.take_succ_cons, struck_cons, if_pos hstruck, List.length_cons, h.full (Nat.lt_of_succ_lt_succ hshort)]
  early := by
    intro j hj
    cases j with
    | zero => exact Nat.succ_pos room
    | succ j =>
      rw [List.take_succ_cons, struck_cons, if_pos hstruck, List.length_cons]
      exact Nat.succ_lt_succ (h.early j (Nat.lt_of_succ_lt_succ hj))

/-- a first member that is passed over takes none -/
theorem Considered.passed (hpassed : ¬s.number 0 < probability)
    (h : Considered probability (room + 1) xs (s.skip 1) k) :
    Considered probability (room + 1) (x :: xs) s (k + 1) where
  within := Nat.succ_le_succ h.within
  full := by
    intro hshort
    rw [List.take_succ_cons, struck_cons, if_neg hpassed, h.full (Nat.lt_of_succ_lt_succ hshort)]
  early := by
    intro j hj
    cases j with
    | zero => exact Nat.succ_pos room
    | succ j =>
      rw [List.take_succ_cons, struck_cons, if_neg hpassed]
      exact h.early j (Nat.lt_of_succ_lt_succ hj)

/-- **A pass with a cap goes through a prefix**, takes those of it whose number is below the probability, and uses one
number for each. -/
theorem deathsUpTo_considers (probability : Float) (room : Nat) (xs : List α) (s : Stream) :
    ∃ k, Considered probability room xs s k ∧
      deathsUpTo probability room xs s = (DeathRules.struck probability s (xs.take k), s.skip k) := by
  induction xs generalizing room s with
  | nil =>
    refine ⟨0, considered_none (.inr rfl), ?_⟩
    rw [Stream.skip_zero]
    cases room <;> rfl
  | cons x rest ih =>
    cases room with
    | zero =>
      refine ⟨0, considered_none (.inl rfl), ?_⟩
      rw [Stream.skip_zero]
      rfl
    | succ room =>
      simp only [deathsUpTo, Stream.unit_eq]
      by_cases hstruck : s.number 0 < probability
      · obtain ⟨k, hconsidered, hpass⟩ := ih room (s.skip 1)
        refine ⟨k + 1, hconsidered.struck hstruck, ?_⟩
        rw [if_pos hstruck, hpass, List.take_succ_cons, struck_cons, if_pos hstruck, Stream.skip_skip, Nat.add_comm 1]
      · obtain ⟨k, hconsidered, hpass⟩ := ih (room + 1) (s.skip 1)
        refine ⟨k + 1, hconsidered.passed hstruck, ?_⟩
        rw [if_neg hstruck, hpass, List.take_succ_cons, struck_cons, if_neg hstruck, Stream.skip_skip, Nat.add_comm 1]

/-- if everybody is struck, a pass with a cap goes as far as the cap -/
theorem Considered.certain (h : Considered 1.0 room xs s k) : xs.take k = xs.take room := by
  obtain ⟨hwithin, hfull, hearly⟩ := h
  simp only [struck_one, List.length_take] at hfull hearly
  rcases Nat.lt_or_eq_of_le hwithin with hshort | rfl
  · have hroom := hfull hshort
    rw [Nat.min_eq_left hwithin] at hroom
    rw [hroom]
  · rw [List.take_length]
    symm
    apply List.take_of_length_le
    by_contra hlong
    have hlast := hearly room (Nat.lt_of_not_le hlong)
    omega

/-- a pass without a cap goes through all of the queue -/
theorem deathsAmong_eq (probability : Float) (xs : List α) (s : Stream) :
    deathsAmong probability xs s = (struck probability s xs, s.skip xs.length) := by
  induction xs generalizing s with
  | nil => rw [List.length_nil, Stream.skip_zero]; rfl
  | cons x rest ih =>
    simp only [deathsAmong, Stream.unit_eq, ih]
    rw [struck_cons, Stream.skip_skip, List.length_cons, Nat.add_comm 1]

end Queue

/-! ## The queues -/

variable {rules : DeathRules} {rule : WeightRule} {robots : List Robot}

/-- the robots that age may take, oldest first, the lower name first among equals -/
structure OldestFirst (rules : DeathRules) (rule : WeightRule) (robots queue : List Robot) : Prop where
  members : ∀ r, r ∈ queue ↔ r ∈ robots ∧ ¬rules.Shielded rule robots r
  ordered : queue.Pairwise fun a b =>
    b.outcomes < a.outcomes ∨ a.outcomes = b.outcomes ∧ a.name.number < b.name.number

/-- the robots that weight may take when some have died of age, lightest first, the lower name first among equals -/
structure LightestFirst (rules : DeathRules) (rule : WeightRule) (robots aged queue : List Robot) : Prop where
  members : ∀ r, r ∈ queue ↔ r ∈ robots ∧ ¬rules.Shielded rule robots r ∧ r ∉ aged
  ordered : queue.Pairwise fun a b =>
    a.weight rule < b.weight rule ∨ ¬b.weight rule < a.weight rule ∧ a.name.number < b.name.number

/-- with unique names, a name stands in a list of members when its robot does -/
theorem name_mem_iff (hu : (robots.map Robot.name).Nodup) {some : List Robot} (hsub : some ⊆ robots) {r : Robot}
    (hr : r ∈ robots) : r.name ∈ some.map Robot.name ↔ r ∈ some := by
  constructor
  · intro hmem
    obtain ⟨other, hother, hsame⟩ := List.mem_map.1 hmem
    obtain rfl : other = r := List.inj_on_of_nodup_map hu (hsub hother) hr hsame
    exact hother
  · exact fun hmem => List.mem_map_of_mem hmem

theorem olderKey_lt_iff (a b : Robot) : olderKey a < olderKey b ↔
    b.outcomes < a.outcomes ∨ a.outcomes = b.outcomes ∧ a.name.number < b.name.number := by
  simp only [olderKey, Prod.Lex.toLex_lt_toLex, OrderDual.toDual_lt_toDual, OrderDual.toDual_inj]

theorem lighterKey_lt_iff (rule : WeightRule) (a b : Robot) :
    Weighed.lighterKey (a.name, a.weight rule) < Weighed.lighterKey (b.name, b.weight rule) ↔
      a.weight rule < b.weight rule ∨ ¬b.weight rule < a.weight rule ∧ a.name.number < b.name.number := by
  have hlt := Binary64.lt_iff_place (a.isFinite_weight rule) (b.isFinite_weight rule)
  have hgt := Binary64.lt_iff_place (b.isFinite_weight rule) (a.isFinite_weight rule)
  simp only [Weighed.lighterKey, Prod.Lex.toLex_lt_toLex, hlt, hgt]
  grind

/-- the rule of age goes along the queue of the oldest -/
theorem oldestFirst_ageCandidates (hu : (robots.map Robot.name).Nodup) :
    OldestFirst rules rule robots (rules.ageCandidates rule robots) where
  members := by
    intro r
    rw [ageCandidates, (List.mergeSort_perm _ _).mem_iff, List.mem_filter, Bool.not_eq_true', ← Bool.not_eq_true,
      List.contains_iff_mem]
    exact and_congr_right fun hr => not_congr (mem_protectedNames_iff hu hr)
  ordered := by
    have hkeys : ((robots.filter fun r => !(rules.protectedNames rule robots).contains r.name).map olderKey).Nodup :=
      nodup_map_key (fun _ => rfl) ((List.filter_sublist.map Robot.name).nodup hu)
    exact ((compares_olderFirst _).strictly_mergeSort hkeys).imp fun h => (olderKey_lt_iff _ _).1 h

variable (rules rule) in
/-- the rule of weight goes along the queue of the lightest, as far as its cap -/
theorem exists_lightestFirst (hu : (robots.map Robot.name).Nodup) {aged : List Robot} (haged : aged ⊆ robots) :
    ∃ queue, LightestFirst rules rule robots aged queue ∧
      rules.weightCandidates rule robots (aged.map Robot.name) =
        Weighed.ofRobots rule (queue.take (cap rules.maximumByWeight robots.length)) := by
  let weighed (r : Robot) : Weighed := (r.name, r.weight rule)
  let isOpen (r : Robot) : Bool :=
    !(rules.protectedNames rule robots).contains r.name && !(aged.map Robot.name).contains r.name
  let lighter (a b : Robot) : Bool := Weighed.lighterFirst (weighed a) (weighed b)
  have hcompares : Compares lighter (fun r => Weighed.lighterKey (weighed r)) (robots.filter isOpen) := fun a _ b _ =>
    Weighed.lighterFirst_iff (a.isFinite_weight rule) (b.isFinite_weight rule)
  have hkeys : ((robots.filter isOpen).map fun r => Weighed.lighterKey (weighed r)).Nodup :=
    nodup_map_key (fun _ => rfl) ((List.filter_sublist.map Robot.name).nodup hu)
  refine ⟨(robots.filter isOpen).mergeSort lighter, ⟨fun r => ?_, ?_⟩, ?_⟩
  · rw [(List.mergeSort_perm _ _).mem_iff, List.mem_filter]
    refine and_congr_right fun hr => ?_
    simp only [isOpen, Bool.and_eq_true, Bool.not_eq_true', ← Bool.not_eq_true, List.contains_iff_mem,
      name_mem_iff hu haged hr, mem_protectedNames_iff hu hr]
  · exact (hcompares.strictly_mergeSort hkeys).imp fun h => (lighterKey_lt_iff rule _ _).1 h
  · have hfilter : (Weighed.ofRobots rule robots).filter (fun w =>
        !(rules.protectedNames rule robots).contains w.1 && !(aged.map Robot.name).contains w.1) =
        (robots.filter isOpen).map weighed := List.filter_map
    have hsort : ((robots.filter isOpen).map weighed).mergeSort Weighed.lighterFirst =
        ((robots.filter isOpen).mergeSort lighter).map weighed :=
      (List.map_mergeSort (f := weighed) (r := lighter) fun a _ b _ => rfl).symm
    rw [weightCandidates, hfilter, hsort, Weighed.ofRobots, List.map_take]

/-! ## The passes -/

/-- the rules, pass by pass: the queues they go along, how far, with which numbers, and what is left -/
structure Passes (rules : DeathRules) (rule : WeightRule) (p : Population) (s : Stream) (oldest lightest : List Robot)
    (k : Nat) (d : Deaths) (q : Population) (t : Stream) : Prop where
  oldestFirst : OldestFirst rules rule p.robots oldest
  /-- age looks at the first k of the oldest, and stops short of the end only at its cap -/
  considered : Considered rules.probabilityByAge (cap rules.maximumByAge p.size) oldest s k
  /-- and takes those whose number is below the probability -/
  byAge : d.byAge = struck rules.probabilityByAge s (oldest.take k)
  lightestFirst : LightestFirst rules rule p.robots d.byAge lightest
  /-- weight looks at the lightest as far as its cap, and takes those whose number is below the probability; its numbers
  come right after those of age -/
  byWeight : d.byWeight = Weighed.ofRobots rule
    (struck rules.probabilityByWeight (s.skip k) (lightest.take (cap rules.maximumByWeight p.size)))
  /-- one number was drawn for each robot looked at, and none for the silent -/
  stream : t = s.skip (k + min (cap rules.maximumByWeight p.size) lightest.length)
  /-- who is gone died in one of the passes -/
  gone_iff : ∀ r ∈ p.robots, r ∉ q.robots ↔ r ∈ d.byAge ∨ (r.name, r.weight rule) ∈ d.byWeight ∨ r ∈ d.silent
  /-- numbers lie in [0, 1) -/
  numbers : ∀ i, 0.0 ≤ s.number i ∧ s.number i < 1.0
  /-- with certainty, age takes the oldest up to its cap -/
  certain_age : rules.probabilityByAge = 1.0 → d.byAge = oldest.take (cap rules.maximumByAge p.size)
  /-- and weight the lightest up to its own -/
  certain_weight : rules.probabilityByWeight = 1.0 →
    d.byWeight = Weighed.ofRobots rule (lightest.take (cap rules.maximumByWeight p.size))
  /-- without any chance they take nobody -/
  never_age : ¬0.0 < rules.probabilityByAge → d.byAge = []
  never_weight : ¬0.0 < rules.probabilityByWeight → d.byWeight = []

/-- a robot is gone when it stands in the list of a pass -/
theorem gone_iff_listed {p : Population} {s : Stream} (hu : p.names.Nodup) {r : Robot} (hr : r ∈ p.robots) :
    r ∉ (rules.kill rule p s).2.1.robots ↔
      r ∈ (rules.kill rule p s).1.byAge ∨ (r.name, r.weight rule) ∈ (rules.kill rule p s).1.byWeight ∨
        r ∈ (rules.kill rule p s).1.silent := by
  obtain ⟨hage, hweight, hsilent⟩ := deaths_passes rules rule p.robots s
  have hageSub : (rules.kill rule p s).1.byAge ⊆ p.robots := fun a ha =>
    (List.mem_filter.1 ((List.mergeSort_perm _ _).subset (hage.subset ha))).1
  have hweightSub : (rules.kill rule p s).1.byWeight ⊆ Weighed.ofRobots rule p.robots := by
    obtain ⟨rest, hperm, hsub⟩ :=
      names_weightCandidates_sublist rules rule p.robots ((rules.deaths rule p.robots s).1.byAge.map Robot.name)
    exact fun w hw => (List.mem_filter.1 (hperm.subset (hsub.subset (hweight.subset hw)))).1
  have hsilentSub : (rules.kill rule p s).1.silent ⊆ p.robots := fun a ha =>
    (silentRobots_sublist _).subset (hsilent ▸ ha)
  rw [mem_survivors_iff, not_and, not_not, Deaths.names, List.mem_append, List.mem_append, name_mem_iff hu hageSub hr,
    name_mem_iff hu hsilentSub hr, mem_of_name_mem hu hr hweightSub, or_assoc]
  exact ⟨fun h => h hr, fun h _ => h⟩

/-- **The death rules look at the right robots and draw exactly once for each**, for every population whose names are
unique, all rules and every stream. -/
theorem kill_passes (rules : DeathRules) (rule : WeightRule) (p : Population) (s : Stream) (hu : p.names.Nodup) :
    ∃ oldest lightest k, Passes rules rule p s oldest lightest k (rules.kill rule p s).1 (rules.kill rule p s).2.1
      (rules.kill rule p s).2.2 := by
  obtain ⟨k, hconsidered, hage⟩ := deathsUpTo_considers rules.probabilityByAge
    (cap rules.maximumByAge p.robots.length) (rules.ageCandidates rule p.robots) s
  have hqueue : OldestFirst rules rule p.robots (rules.ageCandidates rule p.robots) := oldestFirst_ageCandidates hu
  have haged : struck rules.probabilityByAge s ((rules.ageCandidates rule p.robots).take k) ⊆ p.robots :=
    fun r hr => ((hqueue.members r).1 (List.mem_of_mem_take ((struck_sublist _).subset hr))).1
  obtain ⟨lightest, hlightest, hcandidates⟩ := exists_lightestFirst rules rule hu haged
  -- the two passes, put together
  have hkill : rules.deaths rule p.robots s =
      (⟨struck rules.probabilityByAge s ((rules.ageCandidates rule p.robots).take k),
        Weighed.ofRobots rule (struck rules.probabilityByWeight (s.skip k)
          (lightest.take (cap rules.maximumByWeight p.robots.length))),
        (rules.kill rule p s).1.silent⟩,
        s.skip (k + min (cap rules.maximumByWeight p.robots.length) lightest.length)) := by
    simp only [kill, deaths, hage, hcandidates, deathsAmong_eq, Weighed.ofRobots, struck_map, List.length_map,
      List.length_take, Stream.skip_skip]
  have hbyAge : (rules.kill rule p s).1.byAge =
      struck rules.probabilityByAge s ((rules.ageCandidates rule p.robots).take k) := by
    rw [kill, hkill]
  have hbyWeight : (rules.kill rule p s).1.byWeight = Weighed.ofRobots rule (struck rules.probabilityByWeight (s.skip k)
      (lightest.take (cap rules.maximumByWeight p.size))) := by
    rw [kill, hkill]
    rfl
  refine ⟨rules.ageCandidates rule p.robots, lightest, k, hqueue, hconsidered, hbyAge, ?_, hbyWeight, ?_,
    fun r hr => gone_iff_listed hu hr, fun i => ⟨s.zero_le_number i, s.number_lt_one i⟩, ?_, ?_, ?_, ?_⟩
  · rw [hbyAge]
    exact hlightest
  · rw [kill, hkill]
    rfl
  · intro hcertain
    rw [hcertain] at hconsidered
    rw [hbyAge, hcertain, struck_one, hconsidered.certain]
    rfl
  · intro hcertain
    rw [hbyWeight, hcertain, struck_one]
  · intro hnever
    rw [hbyAge, struck_none hnever]
  · intro hnever
    rw [hbyWeight, struck_none hnever]
    rfl

/-- five robots under rules that take whomever they look at: the oldest of those that are not protected, then the lightest
of the rest, with one number for each -/
theorem kill_passes_five :
    let rules : DeathRules := ⟨0.2, 0.2, 1.0, 1.0, 3, 0.4, true⟩
    let rule : WeightRule := ⟨.winCount, 2.0⟩
    let killed := rules.kill rule fiveRobots (listed [])
    fiveRobots.names.Nodup ∧ ∃ oldest lightest k,
      Passes rules rule fiveRobots (listed []) oldest lightest k killed.1 killed.2.1 killed.2.2 ∧
        killed.1.byAge = oldest.take 1 ∧ killed.1.byWeight = Weighed.ofRobots rule (lightest.take 1) := by
  intro rules rule killed
  have hu : fiveRobots.names.Nodup := by decide
  obtain ⟨oldest, lightest, k, h⟩ := kill_passes rules rule fiveRobots (listed []) hu
  have hcap : cap 0.2 fiveRobots.size = 1 := by decide +kernel
  have hage := h.certain_age rfl
  have hweight := h.certain_weight rfl
  rw [hcap] at hage hweight
  exact ⟨hu, oldest, lightest, k, h, hage, hweight⟩

end TradingRobots.DeathRules
