/-
What robots pass on.

A property of robots is heritable when a birth leaves it with the parents, and newborns have it: those whose program was
mutated, those whose program was crossed and mutated, and those whose program was drawn. A cycle adds newborns, marks
parents and takes robots away, so it keeps every heritable property of all its robots.

`all_cycle?`: a cycle keeps heritable properties.
`heritable_registers`, `heritable_runnable`: which properties of register counts are heritable.
-/
import TradingRobots.Proofs.Cycle.Accounting
import TradingRobots.Proofs.Program.Variation

namespace TradingRobots

open TradingRobots.Random

/-- a property of robots that births and newcomers keep -/
structure Robot.Heritable (rules : BreedingRules) (motive : Robot → Prop) : Prop where
  bear : ∀ r, motive r → motive r.bear
  mutated : ∀ parent name inherited s, motive parent →
    motive (.new name (Mutation.mutate rules.bounds rules.rates parent.program s).1 inherited)
  crossed : ∀ first second child name inherited s s', motive first → motive second →
    child = (Crossing.cross first.program second.program s).1.1 ∨
      child = (Crossing.cross first.program second.program s).1.2 →
    motive (.new name (Mutation.mutate rules.bounds rules.rates child s').1 inherited)
  drawn : ∀ program name s s', rules.bounds.randomProgram? s = some (program, s') → motive (.new name program 0.0)

namespace Population

variable {motive : Robot → Prop} {p : Population}

theorem all_add (hp : ∀ r ∈ p.robots, motive r) {program : Program} {inherited : Float}
    (hnew : motive (.new ⟨p.nextName⟩ program inherited)) :
    ∀ r ∈ (p.add program inherited).2.robots, motive r := by
  intro r hr
  rcases List.mem_append.1 hr with hr | hr
  · exact hp r hr
  · rw [List.mem_singleton.1 hr]
    exact hnew

theorem all_update (hp : ∀ r ∈ p.robots, motive r) (name : RobotName) {f : Robot → Robot}
    (hf : ∀ r, motive r → motive (f r)) : ∀ r ∈ (p.update name f).robots, motive r := by
  intro r hr
  rcases mem_updateFirst hr with hr | ⟨r', hr', rfl⟩
  · exact hp r hr
  · exact hf r' (hp r' hr')

end Population

/-! ## Births, newcomers and cycles -/

namespace BreedingRules

variable {rules : BreedingRules} {rule : WeightRule} {motive : Robot → Prop}

/-- every birth keeps a heritable property of all robots -/
theorem kept_of_heritable (hm : Robot.Heritable rules motive) :
    Kept rules rule fun _ p => ∀ r ∈ p.robots, motive r where
  one := by
    intro _ g hg h
    obtain ⟨parent, hparent, s, hp⟩ := breedOne_eq_true h
    rw [hp]
    have hmotive : motive parent := hg parent hparent.mem
    exact Population.all_update (Population.all_add hg (hm.mutated _ _ _ _ hmotive)) _ hm.bear
  pair := by
    intro _ g hg h
    obtain ⟨first, hfirst, second, hsecond, s, s₁, s₂, hp⟩ := breedPair_eq_true h
    rw [hp, afterPair]
    have hmotive₁ : motive first := hg first hfirst.mem
    have hmotive₂ : motive second := hg second hsecond.mem
    refine Population.all_update (Population.all_update (Population.all_add (Population.all_add hg ?_) ?_) _ hm.bear) _
      hm.bear
    · exact hm.crossed first second _ _ _ s s₁ hmotive₁ hmotive₂ (Or.inl rfl)
    · exact hm.crossed first second _ _ _ s s₂ hmotive₁ hmotive₂ (Or.inr rfl)

/-- newcomers keep a heritable property of all robots -/
theorem all_inject? (hm : Robot.Heritable rules motive) {count : Nat} {g g' : Growth}
    (hg : ∀ r ∈ g.population.robots, motive r) (h : rules.inject? count g = some g') :
    ∀ r ∈ g'.population.robots, motive r :=
  inject?_kept (motive := fun _ p => ∀ r ∈ p.robots, motive r) (n := 0)
    (fun _ _ program s s' hall hp => Population.all_add hall (hm.drawn program _ s s' hp)) hg h

end BreedingRules

namespace EvolutionPolicy

variable {policy : EvolutionPolicy} {p : Population} {s : Stream} {c : CycleResult} {motive : Robot → Prop}

/-- **A cycle keeps heritable properties of all robots.** -/
theorem all_cycle? (hm : Robot.Heritable policy.breeding motive) (hp : ∀ r ∈ p.robots, motive r)
    (h : policy.cycle? p s = some c) : ∀ r ∈ c.population.robots, motive r := by
  obtain ⟨grown, hgrown, hc, -⟩ := cycle?_eq_some h
  rw [hc]
  have hsurvivors : ∀ r ∈ (policy.cull p s).2.1.robots, motive r :=
    fun r hr => hp r (List.mem_of_mem_filter hr)
  have hlitter : ∀ r ∈ (policy.litter p s).growth.population.robots, motive r :=
    (BreedingRules.breed_kept (BreedingRules.kept_of_heritable hm) _ hsurvivors).2
  exact BreedingRules.all_inject? hm hlitter hgrown

end EvolutionPolicy

/-! ## Registers -/

namespace BreedingRules

variable {rules : BreedingRules}

/-- a property of register counts is passed on when the larger of two counts has it, and counts that are drawn do -/
theorem heritable_registers {motive : Nat → Prop} (hmax : ∀ m n, motive m → motive n → motive (max m n))
    (hdrawn : ∀ n, 1 ≤ n → n ≤ rules.bounds.maximumRegisters → motive n) :
    Robot.Heritable rules fun r => motive r.program.registers where
  bear := fun _ hr => hr
  mutated := fun _ _ _ _ hparent => hparent
  crossed := by
    intro first second child name inherited s s' hfirst hsecond hchild
    obtain ⟨hregisters₁, hregisters₂⟩ := Crossing.registers_cross first.program second.program s
    have hlarger := hmax _ _ hfirst hsecond
    show motive child.registers
    rcases hchild with rfl | rfl
    · rwa [hregisters₁]
    · rwa [hregisters₂]
  drawn := by
    intro program name s s' hp
    obtain ⟨⟨length, s₁⟩, -, hp⟩ := Option.bind_eq_some_iff.1 hp
    obtain ⟨⟨registers, s₂⟩, hregisters, hp⟩ := Option.bind_eq_some_iff.1 hp
    obtain ⟨hge, hle⟩ := Stream.between?_eq_some hregisters
    dsimp only at hp
    split at hp
    · cases hp
    · cases hp
      exact hdrawn registers hge hle

/-- that memory can hold the registers is passed on, if it can hold those of newcomers -/
theorem heritable_runnable (h : rules.bounds.maximumRegisters ≤ Program.mostRegisters) :
    Robot.Heritable rules fun r => r.program.isRunnable = true :=
  heritable_registers (motive := fun n => decide (n ≤ Program.mostRegisters) = true)
    (fun _ _ hm hn => decide_eq_true (Nat.max_le.2 ⟨of_decide_eq_true hm, of_decide_eq_true hn⟩))
    fun _ _ hle => decide_eq_true (hle.trans h)

end BreedingRules

end TradingRobots
