/-
Deaths do not depend on the order in which robots are stored.

Each rule sorts its candidates, by age or by weight with the name deciding between equals, so its list is the same for
every order of the population; each number drawn meets the same robot, and the stream moves on alike. Only the list of
the silent follows the order of the population, and nothing is drawn for them.

`kill_reordered`: the same dead, the same words drawn, and the same survivors up to their order.
-/
import TradingRobots.Proofs.Population.Ranking
import TradingRobots.Random.Sources

namespace TradingRobots.DeathRules

open TradingRobots.Random

variable {rules : DeathRules} {rule : WeightRule} {robots others : List Robot}

/-! ## The candidates -/

theorem best_reordered (hu : (robots.map Robot.name).Nodup) (h : robots.Perm others) :
    rules.best (Weighed.ofRobots rule robots) = rules.best (Weighed.ofRobots rule others) := by
  have hperm : (Weighed.ofRobots rule robots).Perm (Weighed.ofRobots rule others) := h.map _
  have hkeys : ((Weighed.ofRobots rule robots).map Weighed.heavierKey).Nodup :=
    nodup_map_key (fun _ => rfl) (by rwa [map_fst_ofRobots])
  rw [best, best, (Weighed.compares_heavierFirst rule robots).mergeSort_eq_of_perm hkeys hperm, hperm.length_eq]

theorem protected_reordered (hu : (robots.map Robot.name).Nodup) (h : robots.Perm others) (n : RobotName) :
    (rules.protectedNames rule robots).contains n = (rules.protectedNames rule others).contains n := by
  have hyoung : n ∈ rules.young robots ↔ n ∈ rules.young others := ((h.filter _).map _).mem_iff
  rw [Bool.eq_iff_iff, List.contains_iff_mem, List.contains_iff_mem, protectedNames, protectedNames, List.mem_append,
    List.mem_append, hyoung, best_reordered hu h]

/-- the oldest come in the same order -/
theorem ageCandidates_reordered (hu : (robots.map Robot.name).Nodup) (h : robots.Perm others) :
    rules.ageCandidates rule robots = rules.ageCandidates rule others := by
  simp only [ageCandidates, protected_reordered hu h]
  have hperm := h.filter fun r => !(rules.protectedNames rule others).contains r.name
  exact (compares_olderFirst _).mergeSort_eq_of_perm
    (nodup_map_key (fun _ => rfl) ((List.filter_sublist.map Robot.name).nodup hu)) hperm

/-- so do the lightest -/
theorem weightCandidates_reordered (hu : (robots.map Robot.name).Nodup) (h : robots.Perm others)
    (dead : List RobotName) : rules.weightCandidates rule robots dead = rules.weightCandidates rule others dead := by
  simp only [weightCandidates, protected_reordered hu h, h.length_eq]
  let isOpen (w : Weighed) : Bool := !(rules.protectedNames rule others).contains w.1 && !dead.contains w.1
  have hperm : ((Weighed.ofRobots rule robots).filter isOpen).Perm ((Weighed.ofRobots rule others).filter isOpen) :=
    (h.map _).filter _
  have hnames : (((Weighed.ofRobots rule robots).filter isOpen).map Prod.fst).Nodup := by
    refine (List.filter_sublist.map Prod.fst).nodup ?_
    rwa [map_fst_ofRobots]
  have hcompares := (Weighed.compares_lighterFirst rule robots).subset
    (List.filter_sublist (p := isOpen) (l := Weighed.ofRobots rule robots)).subset
  exact congrArg _ (hcompares.mergeSort_eq_of_perm (nodup_map_key (fun _ => rfl) hnames) hperm)

/-- the silent are the same, in the order of the population -/
theorem silentRobots_reordered (h : robots.Perm others) (dead : List RobotName) :
    (rules.silentRobots robots dead).Perm (rules.silentRobots others dead) := by
  unfold silentRobots
  split
  · exact h.filter _
  · exact List.Perm.refl []

/-! ## The dead -/

/-- the same robots die of age and of weight, in the same order and with the same words drawn -/
theorem deaths_reordered (rules : DeathRules) (rule : WeightRule) (hu : (robots.map Robot.name).Nodup)
    (h : robots.Perm others) (s : Stream) :
    (rules.deaths rule robots s).1.byAge = (rules.deaths rule others s).1.byAge ∧
    (rules.deaths rule robots s).1.byWeight = (rules.deaths rule others s).1.byWeight ∧
    (rules.deaths rule robots s).1.silent.Perm (rules.deaths rule others s).1.silent ∧
    (rules.deaths rule robots s).2 = (rules.deaths rule others s).2 := by
  simp only [deaths, ageCandidates_reordered hu h, weightCandidates_reordered hu h, h.length_eq, true_and, and_true]
  exact silentRobots_reordered h _

/-- **Deaths do not depend on the order of the robots.** In two populations that hold the same robots under unique names,
under the same rules and with the same stream: the tolls are equal, the streams afterwards are equal, the same names die,
and the survivors are the same up to their order. -/
theorem kill_reordered (rules : DeathRules) (rule : WeightRule) (p q : Population) (s : Stream) (hu : p.names.Nodup)
    (h : p.robots.Perm q.robots) :
    let killed := rules.kill rule p s
    let other := rules.kill rule q s
    killed.1.toll = other.1.toll ∧ killed.2.2 = other.2.2 ∧ (∀ n, n ∈ killed.1.names ↔ n ∈ other.1.names) ∧
      killed.2.1.robots.Perm other.2.1.robots := by
  intro killed other
  obtain ⟨hage, hweight, hsilent, hstream⟩ := deaths_reordered rules rule hu h s
  have hnames : killed.1.names.Perm other.1.names := by
    show (rules.deaths rule p.robots s).1.names.Perm (rules.deaths rule q.robots s).1.names
    rw [Deaths.names, Deaths.names, hage, hweight]
    exact (hsilent.map _).append_left _
  refine ⟨?_, hstream, fun n => hnames.mem_iff, ?_⟩
  · show (rules.deaths rule p.robots s).1.toll = (rules.deaths rule q.robots s).1.toll
    rw [Deaths.toll, Deaths.toll, hage, hweight, hsilent.length_eq]
  · have hsame : ∀ r : Robot, (!killed.1.names.contains r.name) = !other.1.names.contains r.name := fun r => by
      rw [Bool.eq_iff_iff, Bool.not_eq_true', Bool.not_eq_true', ← Bool.not_eq_true, ← Bool.not_eq_true,
        List.contains_iff_mem, List.contains_iff_mem, hnames.mem_iff]
    show (p.robots.filter fun r => !killed.1.names.contains r.name).Perm
      (q.robots.filter fun r => !other.1.names.contains r.name)
    simp only [hsame]
    exact h.filter _

/-- three robots, of which the last two are equally old and weigh the same -/
def threeRobots : List Robot := [
  { Robot.new ⟨4⟩ ⟨[.emit .long], 1⟩ 2.0 with outcomes := 8, calls := 9, isPredicting := true },
  { Robot.new ⟨7⟩ ⟨[.emit .long], 1⟩ 0.5 with outcomes := 6, calls := 7, isPredicting := true },
  { Robot.new ⟨2⟩ ⟨[.emit .short], 1⟩ 0.5 with outcomes := 6, calls := 7 }]

/-- the three and the same three backwards -/
theorem kill_reordered_three :
    let rules : DeathRules := ⟨0.5, 0.5, 0.5, 0.5, 3, 0.2, true⟩
    let rule : WeightRule := ⟨.winCount, 2.0⟩
    let p : Population := ⟨3, 9, threeRobots⟩
    let q : Population := ⟨3, 9, threeRobots.reverse⟩
    let s := listed [0, 0xFFFFFFFFFFFFFFFF]
    p.names.Nodup ∧ p.robots.Perm q.robots ∧ p.robots ≠ q.robots ∧
      (rules.kill rule p s).1.toll = (rules.kill rule q s).1.toll ∧
      (rules.kill rule p s).2.2.drawn = (rules.kill rule q s).2.2.drawn := by
  intro rules rule p q s
  have hu : p.names.Nodup := by decide
  have hperm : p.robots.Perm q.robots := (List.reverse_perm _).symm
  obtain ⟨htoll, hstream, -, -⟩ := kill_reordered rules rule p q s hu hperm
  exact ⟨hu, hperm, by decide +kernel, htoll, congrArg Stream.drawn hstream⟩

end TradingRobots.DeathRules
