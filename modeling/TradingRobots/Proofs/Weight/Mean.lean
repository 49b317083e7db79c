/-
The mean that both children of a pair inherit. The two inherited weights are added and the sum is halved, and each step
rounds. What a parent leaves alone is checked to be finite; the sum of two is not, and above the largest double it is
infinite.

Rounding stays on the side of every double, and twice a double is one while it is not too large. So the sum lies between
twice the one weight and twice the other, and its half between the two.

`inheritFromPair_between`: the mean of a finite sum lies between the two.
`inheritFromPair_finite_iff`: it is finite exactly when the sum is.
`inheritFromPair_spec`: with the child that stores it, and the file that gives the child back.
`inheritFromPair_overflow`: two robots under settings that are accepted, whose children inherit infinity.
-/
import TradingRobots.Proofs.Number.Stored
import TradingRobots.Proofs.Population.Codec
import TradingRobots.Proofs.Weight.Sound

namespace TradingRobots

open Float.Model
open Random.Stream (value value_add)

/-! ## The half of a sum -/

namespace Binary64

variable {a b : Float}

/-- half the largest double -/
def halfLargest : Float :=
  Float.ofBits 0x7FDFFFFFFFFFFFFF

theorem value_halfLargest : value halfLargest = .finite .positive (2 ^ 53 - 1) 970 (by decide) := rfl

/-- **The half of a finite sum lies between the two numbers.** -/
theorem half_sum_between (hfa : a.isFinite = true) (hfb : b.isFinite = true) (hpa : NonNegative (value a))
    (hpb : NonNegative (value b)) (hle : size (value a) ≤ size (value b)) (hfinite : (a + b).isFinite = true) :
    ((a + b) / 2.0).isFinite = true ∧ a ≤ (a + b) / 2.0 ∧ (a + b) / 2.0 ≤ b := by
  have ha := amount_value hfa hpa
  have hb := amount_value hfb hpb
  have hsum := nearest_add ha hb
  rw [← value_sum ha hb hfinite] at hsum
  have hsumpos : NonNegative (value (a + b)) := (nonNegative_add (.inl hpa) hpb).stored
  obtain ⟨hhalf, hhalfpos⟩ := nearest_half (amount_value hfinite hsumpos)
  -- the sum lies between twice the one and twice the other
  have hlow : 2 * size (value a) ≤ size (value (a + b)) :=
    hsum.above _ ha.rounded.representable.double (by linarith)
  have hhigh : size (value (a + b)) ≤ 2 * size (value b) :=
    hsum.below _ hb.rounded.representable.double (by linarith)
  have habove := hhalf.above _ ha.rounded.representable (by linarith)
  have hbelow := hhalf.below _ hb.rounded.representable (by linarith)
  have hfits := fits_of_size_le hhalf.rounded hb.rounded (rounded_value hfb).2 hbelow
  have hvalue : value ((a + b) / 2.0) = UnpackedFloat.div format (value (a + b)) (value 2.0) := by
    rw [value_div]
    exact stored_of_fits hhalf.rounded hfits
  refine ⟨?_, ?_, ?_⟩
  · rw [isFinite_eq, value_div]
    exact isFinite_stored hfits
  · rw [le_iff, hvalue]
    exact le_of_size_le ha.rounded hhalf.rounded hpa hhalfpos habove
  · rw [le_iff, hvalue]
    exact le_of_size_le hhalf.rounded hb.rounded hhalfpos hpb hbelow

/-- **The half of a sum that is too large is infinite.** -/
theorem half_sum_infinite (ha : Amount (value a)) (hb : Amount (value b)) (hlarge : ¬(a + b).isFinite = true) :
    (a + b) / 2.0 = infinity := by
  have hsum : value (a + b) = .infinity .positive := by
    apply value_sum_large ha hb
    rwa [← finite_iff_fits_sum ha hb]
  apply eq_of_value
  rw [value_div, hsum, value_two, value_infinity]
  exact stored_infinity .positive

/-- the half of a sum is not negative -/
theorem nonNegative_half_sum (ha : Amount (value a)) (hb : Amount (value b)) : NonNegative (value ((a + b) / 2.0)) := by
  by_cases hfinite : (a + b).isFinite = true
  · rw [value_div]
    exact (nearest_half (amount_value hfinite (nonNegative_add (.inl ha.2) hb.2).stored)).2.stored
  · rw [half_sum_infinite ha hb hfinite]
    rfl

/-- two numbers up to half the largest double have a finite sum -/
theorem finite_sum_of_halfLargest (ha : Amount (value a)) (hb : Amount (value b)) (hna : ¬halfLargest < a)
    (hnb : ¬halfLargest < b) : (a + b).isFinite = true := by
  have hhalf : Rounded (value halfLargest) := ⟨by decide, by decide, .inl (by decide)⟩
  have hlargest : Rounded (.finite .positive (2 ^ 53 - 1) 971 (by decide)) := ⟨by decide, by decide, .inl (by decide)⟩
  have hbound : ∀ {x : Float}, Amount (value x) → ¬halfLargest < x → size (value x) ≤ size (value halfLargest) := by
    intro x hx hnot
    by_contra hlt
    apply hnot
    rw [lt_iff]
    exact lt_of_size_lt hhalf hx.rounded rfl hx.nonNegative (not_le.1 hlt)
  have hdouble : 2 * size (value halfLargest) = size (.finite .positive (2 ^ 53 - 1) 971 (by decide)) := by
    rw [value_halfLargest, size_finite, size_finite, show (971 : Int) = 970 + 1 by decide, two_zpow_succ]
    ring
  have hsum := nearest_add ha hb
  have hbelow := hsum.below _ hlargest.representable (by
    have := hbound ha hna
    have := hbound hb hnb
    rw [← hdouble]
    linarith)
  rw [finite_iff_fits_sum ha hb]
  refine fits_of_size_le hsum.rounded hlargest ?_ hbelow
  show (971 : Int) < 972
  decide

end Binary64

/-! ## What a file gives back -/

/-- nothing is read back of a double that is not finite -/
theorem restored?_of_not_finite {x : Float} (h : x.isFinite = false) : restored? x = none := by
  rw [restored?, Json.real, h, if_neg Bool.false_ne_true]
  rfl

/-- a written robot whose inherited weight is not finite is not read -/
theorem Robot.ofJson?_of_not_finite {r : Robot} (h : r.inheritedWeight.isFinite = false) :
    Robot.ofJson? r.toJson = none := by
  have hrecord : r.toJson.record? fieldNames = some r.fieldValues :=
    Json.record?_object (fieldNames.zip r.fieldValues) (show fieldNames.Nodup by decide)
  have hweight : (Json.real r.inheritedWeight).toReal? = none := restored?_of_not_finite h
  unfold ofJson?
  rw [hrecord, fieldValues, Option.bind_eq_bind, Option.bind_some]
  dsimp only
  simp only [hweight, Option.bind_eq_bind, Option.bind_none, Option.bind_fun_none]

/-- a file of a population with such a robot is not taken -/
theorem Population.ofFileText_of_not_finite {p : Population} {r : Robot} (hr : r ∈ p.robots)
    (h : r.inheritedWeight.isFinite = false) (bounds : ProgramBounds) :
    Population.ofFileText bounds p.fileText = .error .malformed := by
  have hrecord : p.toJson.record? fieldNames =
      some [.count p.desiredSize, .count p.nextName, .array (p.robots.map Robot.toJson)] :=
    Json.record?_object (fieldNames.zip
      [.count p.desiredSize, .count p.nextName, .array (p.robots.map Robot.toJson)]) (show fieldNames.Nodup by decide)
  have hrobots : (p.robots.map Robot.toJson).mapM Robot.ofJson? = none := by
    rw [List.mapM_map]
    exact mapM_none hr (Robot.ofJson?_of_not_finite h)
  have hread : Population.ofJson? p.toJson = none := by
    simp only [ofJson?, hrecord, Json.toArray?, hrobots, Option.bind_eq_bind, Option.bind_some, Option.bind_none,
      Option.bind_fun_none]
  rw [ofFileText, parse?_fileText, Option.bind_some, hread]

/-! ## Pairs of parents -/

namespace InheritanceRule

open Binary64

variable (rule : InheritanceRule) (weights : WeightRule)

/-- what one parent leaves is finite and not negative -/
theorem finite_inherit (r : Robot) :
    (rule.inherit weights r).isFinite = true ∧ NonNegative (value (rule.inherit weights r)) := by
  unfold inherit fromParent
  split
  · exact ⟨rfl, rfl⟩
  · dsimp only
    split
    next hfinite =>
      refine ⟨?_, nonNegative_clamped _⟩
      unfold nonNegative
      split
      · exact hfinite
      · rfl
    next => exact ⟨rfl, rfl⟩

theorem amount_inherit (r : Robot) : Amount (value (rule.inherit weights r)) :=
  amount_value (finite_inherit rule weights r).1 (finite_inherit rule weights r).2

variable (first second : Robot)

/-- the mean does not depend on the order of the parents -/
theorem inheritFromPair_comm :
    rule.inheritFromPair weights second first = rule.inheritFromPair weights first second := by
  unfold inheritFromPair
  rw [Binary64.add_comm]

/-- **The mean of a finite sum is finite and lies between the two.** -/
theorem inheritFromPair_between
    (h : (rule.inherit weights first + rule.inherit weights second).isFinite = true) :
    (rule.inheritFromPair weights first second).isFinite = true ∧
      (rule.inherit weights first ≤ rule.inheritFromPair weights first second ∧
          rule.inheritFromPair weights first second ≤ rule.inherit weights second ∨
        rule.inherit weights second ≤ rule.inheritFromPair weights first second ∧
          rule.inheritFromPair weights first second ≤ rule.inherit weights first) := by
  obtain ⟨hfa, hpa⟩ := finite_inherit rule weights first
  obtain ⟨hfb, hpb⟩ := finite_inherit rule weights second
  rcases le_total (size (value (rule.inherit weights first))) (size (value (rule.inherit weights second))) with hle | hle
  · obtain ⟨hfinite, hbetween⟩ := half_sum_between hfa hfb hpa hpb hle h
    exact ⟨hfinite, .inl hbetween⟩
  · rw [Binary64.add_comm] at h
    rw [← inheritFromPair_comm]
    obtain ⟨hfinite, hbetween⟩ := half_sum_between hfb hfa hpb hpa hle h
    exact ⟨hfinite, .inr hbetween⟩

/-- the mean is infinite when the sum is too large, and then one of the two is above half the largest double -/
theorem inheritFromPair_infinite
    (h : ¬(rule.inherit weights first + rule.inherit weights second).isFinite = true) :
    rule.inheritFromPair weights first second = infinity ∧
      (halfLargest < rule.inherit weights first ∨ halfLargest < rule.inherit weights second) := by
  have ha := amount_inherit rule weights first
  have hb := amount_inherit rule weights second
  refine ⟨half_sum_infinite ha hb h, ?_⟩
  by_contra hsmall
  rw [not_or] at hsmall
  exact h (finite_sum_of_halfLargest ha hb hsmall.1 hsmall.2)

/-- the mean is finite exactly when the sum is -/
theorem inheritFromPair_finite_iff : (rule.inheritFromPair weights first second).isFinite = true ↔
    (rule.inherit weights first + rule.inherit weights second).isFinite = true := by
  refine ⟨fun hfinite => ?_, fun h => (inheritFromPair_between rule weights first second h).1⟩
  by_contra h
  rw [(inheritFromPair_infinite rule weights first second h).1] at hfinite
  exact absurd hfinite (by decide)

/-- a child stores the mean as it is -/
theorem inheritedWeight_newborn (name : RobotName) (program : Program) :
    (Robot.new name program (rule.inheritFromPair weights first second)).inheritedWeight =
      rule.inheritFromPair weights first second := by
  apply nonNegative_eq
  exact nonNegative_half_sum (amount_inherit rule weights first) (amount_inherit rule weights second)

/-- **A pair of children inherits the mean of its parents, unless their sum is too large for a double.** Under every rule,
for any two parents: the mean does not depend on their order. It is finite exactly when the sum of what the two leave
alone is, and then lies between these; otherwise it is infinite, and one of the two is above half the largest double. A
child stores the mean as it is: a child with a finite one is given back by a file, as far as its doubles come back at
all, and a file with a child that has an infinite one is not taken. -/
theorem inheritFromPair_spec (rule : InheritanceRule) (weights : WeightRule) (first second : Robot) :
    let a := rule.inherit weights first
    let b := rule.inherit weights second
    let pair := rule.inheritFromPair weights first second
    rule.inheritFromPair weights second first = pair ∧
    (pair.isFinite = true ↔ (a + b).isFinite = true) ∧
    (pair.isFinite = true → a ≤ pair ∧ pair ≤ b ∨ b ≤ pair ∧ pair ≤ a) ∧
    (pair.isFinite = false → pair = infinity ∧ (halfLargest < a ∨ halfLargest < b)) ∧
    ∀ name program, let child := Robot.new name program pair
      child.inheritedWeight = pair ∧
      (pair.isFinite = true → child.InWords → program.amounts.all Float.isFinite = true →
        (∀ x ∈ child.amounts, ComesBack x) → Robot.ofJson? child.toJson = some child) ∧
      (pair.isFinite = false → ∀ bounds (p : Population), child ∈ p.robots →
        Population.ofFileText bounds p.fileText = .error .malformed) := by
  intro a b pair
  have hiff : pair.isFinite = true ↔ (a + b).isFinite = true := inheritFromPair_finite_iff rule weights first second
  refine ⟨inheritFromPair_comm rule weights first second, hiff, ?_, ?_, ?_⟩
  · intro hfinite
    exact (inheritFromPair_between rule weights first second (hiff.1 hfinite)).2
  · intro hinfinite
    apply inheritFromPair_infinite
    rw [← hiff, hinfinite]
    exact Bool.false_ne_true
  · intro name program child
    have hstored : child.inheritedWeight = pair := inheritedWeight_newborn rule weights first second name program
    refine ⟨hstored, ?_, ?_⟩
    · intro hfinite hwords hprogram hback
      rw [Robot.ofJson?_toJson hwords, Robot.restored?_eq hback]
      apply if_pos
      rw [Robot.amounts, List.all_append, List.all_cons, List.all_nil, Bool.and_true, hstored, hfinite, Bool.and_true]
      exact hprogram
    · intro hinfinite bounds p hchild
      apply Population.ofFileText_of_not_finite hchild
      rw [hstored, hinfinite]

/-- settings under which only wins weigh, with a large exponent, and children inherit all that both parents earned -/
def steepSettings : EvolutionSettings :=
  { weightExponent := 1023.0, inheritedWeightMode := .parents, inheritedWeight := 1.0 }

/-- a newborn that was right twice -/
def rightTwice (name : Nat) : Robot :=
  (Robot.new ⟨name⟩ ⟨[.emit .long], 1⟩ 0.0).after
    [.predict "gold" .long, .predict "gold" .long, .resolve "gold" 1.0 0.0, .predict "gold" .long, .resolve "gold" 1.0 0.0]

/-- with a moderate exponent the children of two such robots inherit 4 and are given back by a file; with the large one
their file is not taken -/
theorem inheritFromPair_spec_rightTwice :
    let rule := steepSettings.inheritanceRule
    let child := fun exponent => Robot.new ⟨2⟩ ⟨[.emit .long], 1⟩
      (rule.inheritFromPair ⟨.winCount, exponent⟩ (rightTwice 0) (rightTwice 1))
    (child 2.0).inheritedWeight = 4.0 ∧ Robot.ofJson? (child 2.0).toJson = some (child 2.0) ∧
      Population.ofFileText ⟨1, 4, 1, 1, 1⟩ (Population.mk 1 3 [child 1023.0]).fileText = .error .malformed := by
  intro rule child
  obtain ⟨-, -, -, -, hmoderate⟩ := inheritFromPair_spec rule ⟨.winCount, 2.0⟩ (rightTwice 0) (rightTwice 1)
  obtain ⟨-, -, -, -, hsteep⟩ := inheritFromPair_spec rule ⟨.winCount, 1023.0⟩ (rightTwice 0) (rightTwice 1)
  obtain ⟨hstored, hback, -⟩ := hmoderate ⟨2⟩ ⟨[.emit .long], 1⟩
  refine ⟨hstored.trans (by decide +kernel), ?_, ?_⟩
  · exact hback (by decide +kernel) (by decide +kernel) (by decide +kernel) (by decide +kernel)
  · exact (hsteep ⟨2⟩ ⟨[.emit .long], 1⟩).2.2 (by decide +kernel) _ _ (List.mem_singleton_self _)

/-- the settings are accepted, each of two robots that were right twice leaves 2^1023, and the mean is infinite: above
both -/
theorem inheritFromPair_overflow :
    let rule := steepSettings.inheritanceRule
    let weights := steepSettings.weightRule
    let pair := rule.inheritFromPair weights (rightTwice 0) (rightTwice 1)
    steepSettings.check = .ok () ∧
    rule.inherit weights (rightTwice 0) = Float.ofBits 0x7FE0000000000000 ∧
    rule.inherit weights (rightTwice 1) = Float.ofBits 0x7FE0000000000000 ∧
    pair.isFinite = false ∧ ¬pair ≤ rule.inherit weights (rightTwice 0) ∧
      ¬pair ≤ rule.inherit weights (rightTwice 1) := by
  intro rule weights pair
  exact ⟨by decide +kernel, by decide +kernel, by decide +kernel, by decide +kernel, by decide +kernel,
    by decide +kernel⟩

end InheritanceRule

end TradingRobots
