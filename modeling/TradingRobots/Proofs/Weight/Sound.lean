/-
Weights of robots: finite always, and below zero only for what was stored so.

Earned weight is a power of a clamped base, so it is never negative, and what is not finite counts as none. A newborn's
inherited weight is clamped at zero. A robot that is read from a file is not clamped: its inherited weight is the number
that was stored, and the check of a population does not look at it.

`sound_weight`: a weight is sound unless the inherited one is below zero.
`sound_weights`: newborns weigh soundly whatever they inherit, and robots of a file exactly when nothing below zero was
stored, as long as they have no prediction.
`indebted_weight`: a file that is taken, with a robot that weighs less than nothing.
-/
import TradingRobots.PopulationFile
import TradingRobots.Proofs.Number.Sign
import TradingRobots.Settings

namespace TradingRobots

open Binary64 Float.Model
open Random.Stream (value value_add)

/-- a weight that selection can use: finite and not negative -/
structure SoundWeight (w : Float) : Prop where
  isFinite : w.isFinite = true
  nonneg : 0.0 ≤ w

/-! ## Powers -/

namespace Power

theorem Magnitude.nonNegative_toFloat (v : Magnitude) : NonNegative (value v.toFloat) := by
  unfold Magnitude.toFloat
  split
  · rfl
  · split
    · rfl
    · split
      · rfl
      · exact nonNegative_ofRatio _ _

theorem Magnitude.nonNegative_inverse (v : Magnitude) : NonNegative (value v.inverse) := by
  unfold Magnitude.inverse
  split
  · rfl
  · split
    · rfl
    · split
      · rfl
      · exact nonNegative_ofRatio _ _

/-- a power is not negative, or it is NaN -/
theorem nonNegative_real (x y : Float) : NonNegative (value (real x y)) ∨ value (real x y) = .notANumber := by
  by_cases hzero : y == 0.0
  · rw [real, if_pos hzero]
    exact Or.inl rfl
  by_cases hone : x == 1.0
  · rw [real, if_neg hzero, if_pos hone]
    exact Or.inl rfl
  by_cases hnan : x.isNaN || y.isNaN
  · rw [real, if_neg hzero, if_neg hone, if_pos hnan]
    exact Or.inr rfl
  rw [real, if_neg hzero, if_neg hone, if_neg hnan]
  left
  dsimp only
  split
  · split
    · rfl
    · rfl
  · split
    · exact Magnitude.nonNegative_toFloat _
    · exact Magnitude.nonNegative_inverse _

end Power

/-! ## Clamps -/

theorem isFinite_finiteOrZero (x : Float) : (finiteOrZero x).isFinite = true := by
  unfold finiteOrZero
  split
  · assumption
  · rfl

/-- what is not negative stays so, and NaN counts as none -/
theorem nonNegative_finiteOrZero {x : Float} (h : NonNegative (value x) ∨ value x = .notANumber) :
    NonNegative (value (finiteOrZero x)) := by
  unfold finiteOrZero
  split
  · rename_i hfinite
    rcases h with h | h
    · exact h
    · have hnone : (value x).isFinite = true := hfinite
      rw [h] at hnone
      cases hnone
  · rfl

theorem sound_finiteOrZero {x : Float} (h : NonNegative (value x) ∨ value x = .notANumber) :
    SoundWeight (finiteOrZero x) :=
  ⟨isFinite_finiteOrZero x, zero_le_of_nonNegative (nonNegative_finiteOrZero h)⟩

theorem WeightRule.nonNegative_earned (rule : WeightRule) (correct total : Nat) :
    NonNegative (value (rule.earned correct total)) := by
  unfold WeightRule.earned
  split
  · rfl
  · exact nonNegative_finiteOrZero (Power.nonNegative_real _ _)

/-! ## Robots -/

namespace Robot

/-- what is done to a robot's record -/
inductive Call where
  | predict (dataset : String) (signal : Signal)
  | resolve (dataset : String) (change threshold : Float)

def call (r : Robot) : Call → Robot
  | .predict dataset signal => r.predict dataset signal
  | .resolve dataset change threshold => (r.resolve dataset change threshold).2

/-- a robot after calls, one after the other -/
def after (r : Robot) (calls : List Call) : Robot :=
  calls.foldl call r

/-- no call changes what was inherited -/
theorem inheritedWeight_call (r : Robot) (c : Call) : (r.call c).inheritedWeight = r.inheritedWeight := by
  cases c with
  | predict dataset signal => rfl
  | resolve dataset change threshold =>
    show (r.resolve dataset change threshold).2.inheritedWeight = _
    unfold resolve
    split
    · rfl
    · rfl

theorem inheritedWeight_after (r : Robot) (calls : List Call) :
    (r.after calls).inheritedWeight = r.inheritedWeight := by
  induction calls generalizing r with
  | nil => rfl
  | cons c rest ih => exact (ih (r.call c)).trans (inheritedWeight_call r c)

theorem isFinite_weight (r : Robot) (rule : WeightRule) : (r.weight rule).isFinite = true :=
  isFinite_finiteOrZero _

/-- **A weight is sound unless the inherited one is below zero.** -/
theorem sound_weight {r : Robot} (rule : WeightRule) (h : ¬r.inheritedWeight < 0.0) : SoundWeight (r.weight rule) := by
  refine sound_finiteOrZero ?_
  rw [value_add]
  have hearned : NonNegative (value (r.earned rule)) := rule.nonNegative_earned r.correct r.predictions
  rcases value_of_not_below h with hpos | hzero | hnan
  · exact Or.inl (nonNegative_add (Or.inl hpos) hearned).stored
  · exact Or.inl (nonNegative_add (Or.inr hzero) hearned).stored
  · right
    rw [hnan]
    exact stored_notANumber

/-- without predictions, a finite inherited weight below zero is the whole weight -/
theorem weight_below_zero {r : Robot} (rule : WeightRule) (hnone : r.predictions = 0)
    (hfinite : r.inheritedWeight.isFinite = true) (h : r.inheritedWeight < 0.0) : r.weight rule < 0.0 := by
  have hearned : r.earned rule = 0.0 := by
    rw [earned, hnone]
    rfl
  have hsum : value (r.inheritedWeight + r.earned rule) = value r.inheritedWeight := by
    rw [hearned, value_add_zero h]
  have hkept : (r.inheritedWeight + r.earned rule).isFinite = true := by
    show (value (r.inheritedWeight + r.earned rule)).isFinite = true
    rw [hsum]
    exact hfinite
  rw [weight, finiteOrZero, if_pos hkept, lt_iff, hsum, ← lt_iff]
  exact h

theorem not_below_inheritedWeight_new (name : RobotName) (program : Program) (inherited : Float) :
    ¬(Robot.new name program inherited).inheritedWeight < 0.0 :=
  not_below_of_nonNegative (nonNegative_clamped inherited)

end Robot

/-- **Weights are sound unless a number below zero was stored.** Under every rule, after any calls: a newborn's weight
is sound, whatever it was to inherit. The weight of a robot of a population file that was taken is finite, and sound if
the stored inherited weight is not below zero; for a robot without predictions and with a finite inherited weight, only
then. -/
theorem Robot.sound_weights (rule : WeightRule) (calls : List Call) :
    (∀ name program inherited, SoundWeight (((Robot.new name program inherited).after calls).weight rule)) ∧
    ∀ bounds text p, Population.ofFileText bounds text = .ok p → ∀ r ∈ p.robots,
      ((r.after calls).weight rule).isFinite = true ∧
      (¬r.inheritedWeight < 0.0 → SoundWeight ((r.after calls).weight rule)) ∧
      ((r.after calls).predictions = 0 → r.inheritedWeight.isFinite = true →
        (SoundWeight ((r.after calls).weight rule) ↔ ¬r.inheritedWeight < 0.0)) := by
  have hkept : ∀ {r : Robot}, ¬r.inheritedWeight < 0.0 → SoundWeight ((r.after calls).weight rule) := by
    intro r h
    refine sound_weight rule ?_
    rw [inheritedWeight_after]
    exact h
  refine ⟨fun name program inherited => hkept (not_below_inheritedWeight_new name program inherited), ?_⟩
  intro bounds text p _ r _
  refine ⟨isFinite_weight _ rule, hkept, fun hnone hfinite => ⟨fun hsound hbelow => ?_, hkept⟩⟩
  rw [← inheritedWeight_after r calls] at hfinite hbelow
  have hweight : (r.after calls).weight rule < 0.0 := weight_below_zero rule hnone hfinite hbelow
  exact not_zero_le_of_below hweight hsound.nonneg

/-! ## A weight that was stored -/

/-- reading goes over the characters of all parts of a text -/
theorem Json.parse?_join (parts : List (List Char)) : Json.parse? (String.join (parts.map String.ofList)) =
    (Json.value? (2 * parts.flatten.length + 2) (Json.skipBlanks parts.flatten)).bind fun r =>
      if (Json.skipBlanks r.2).isEmpty then some r.1 else none := by
  have hchars : (String.join (parts.map String.ofList)).toList = parts.flatten := by
    rw [String.toList_join, List.flatMap_map]
    simp only [String.toList_ofList, List.flatMap_id']
  unfold Json.parse?
  rw [hchars]
  rfl

/-- a file with one robot, which inherited less than nothing -/
def indebtedText : String :=
  String.join [
    "\x7b\"desired_size\":1,\"next_name\":1,\"robots\":[\x7b\"name\":0,\"program\":\x7b\"instructions\":[\"EmitLong\"],",
    "\"register_count\":1\x7d,\"pending\":\x7b\x7d,\"current\":\x7b\x7d,\"total_outcomes\":0,\"total_predictions\":0,",
    "\"correct_predictions\":0,\"bias\":0,\"is_predicting\":false,\"prediction_calls\":0,\"total_children\":0,",
    "\"outcomes_at_last_child\":0,\"inherited_weight\":-5.0\x7d]\x7d"]

/-- the robot of that file -/
def indebted : Robot :=
  { Robot.new ⟨0⟩ ⟨[.emit .long], 1⟩ 0.0 with inheritedWeight := -5.0 }

set_option maxRecDepth 4000 in
theorem indebtedText_spells :
    (Json.parse? indebtedText).bind Population.ofJson? = some ⟨1, 1, [indebted]⟩ := by
  have htext : indebtedText = String.join ([_, _, _, _].map String.ofList) := rfl
  rw [htext, Json.parse?_join]
  decide +kernel

/-- the file is taken -/
theorem ofFileText_indebtedText :
    Population.ofFileText ⟨1, 4, 1, 1, 1⟩ indebtedText = .ok ⟨1, 1, [indebted]⟩ := by
  rw [Population.ofFileText, indebtedText_spells]
  rfl

/-- the robot of a file that is taken weighs less than nothing under the default settings -/
theorem Robot.indebted_weight :
    let settings : EvolutionSettings := {}
    settings.check = .ok () ∧ ∃ p, Population.ofFileText ⟨1, 4, 1, 1, 1⟩ indebtedText = .ok p ∧
      ∃ r ∈ p.robots, r.weight settings.weightRule < 0.0 ∧ ¬SoundWeight (r.weight settings.weightRule) := by
  intro settings
  have hbelow : indebted.weight settings.weightRule < 0.0 := by decide +kernel
  refine ⟨by decide +kernel, _, ofFileText_indebtedText, indebted, List.mem_singleton_self _, hbelow, ?_⟩
  exact fun hsound => not_zero_le_of_below hbelow hsound.nonneg

/-- what the file's robot weighs is finite, and not sound, because less than nothing was stored -/
theorem Robot.sound_weights_indebted :
    let rule := ({} : EvolutionSettings).weightRule
    (indebted.weight rule).isFinite = true ∧ ¬SoundWeight (indebted.weight rule) := by
  intro rule
  obtain ⟨hfinite, -, hexact⟩ :=
    (sound_weights rule []).2 _ _ _ ofFileText_indebtedText indebted (List.mem_singleton_self _)
  have hstored : indebted.inheritedWeight < 0.0 := by decide +kernel
  have hsound := hexact rfl (by decide +kernel)
  exact ⟨hfinite, fun h => hsound.1 h hstored⟩

end TradingRobots
