/-
Better records weigh more, until the power is too large for a double.

Wins less losses, the edge and the share of wins all grow with the wins of a total. Their parts are rounded, each step
keeps order, and so does the power, since exponents that settings may have are above zero. The edge and the share of wins
are at most one, and so are their powers. Wins less losses have no such bound: from some record on their power may be
infinite, and there the clamp leaves nothing of it, so the best records may weigh less than middling ones.

`WeightMode.base_mono`, `WeightRule.power_mono`: the base and its power grow with the record.
`WeightRule.isFinite_power`: under rates the power is always a finite double.
`WeightRule.earned_of_better`: better records weigh no less, as long as their power is a finite double.
`WeightRule.earned_overflow`: two wins of three weigh one, and three weigh nothing.
-/
import TradingRobots.Proofs.Number.Powers
import TradingRobots.Proofs.Number.Stored
import TradingRobots.Proofs.Settings.Saved

namespace TradingRobots

open Binary64 Float.Model
open Random.Stream (value)

/-! ## Bases -/

namespace WeightMode

variable {mode : WeightMode} {c c₁ c₂ total : Nat}

/-- the losses of a record -/
theorem roundedTo_losses (hc : c ≤ total) (hword : total < wordLimit) :
    RoundedTo (ofCount total - ofCount c) (size (value (ofCount total)) - size (value (ofCount c))) :=
  roundedTo_sub (plain_ofCount hword) (plain_ofCount (hc.trans_lt hword)) (size_ofCount_mono hc hword)

/-- wins less losses -/
theorem roundedTo_winCount (hc : c ≤ total) (hword : total < wordLimit) :
    RoundedTo (winCount.base (ofCount c) (ofCount total))
      (max (size (value (ofCount c)) - size (value (ofCount total - ofCount c))) 0) :=
  roundedTo_clamped (plain_ofCount (hc.trans_lt hword)) (roundedTo_losses hc hword).plain

/-- the share of wins -/
theorem roundedTo_proportional (hpos : 0 < total) (hc : c ≤ total) (hword : total < wordLimit) :
    RoundedTo (proportional.base (ofCount c) (ofCount total))
      (size (value (ofCount c)) / size (value (ofCount total))) := by
  have htotal := size_ofCount_pos hpos hword
  refine roundedTo_div (plain_ofCount (hc.trans_lt hword)) (plain_ofCount hword) htotal plain_one ?_
  rw [size_one]
  exact div_le_one_of_le₀ (size_ofCount_mono hc hword) htotal.le

/-- twice the wins -/
theorem roundedTo_doubled (hc : c ≤ total) (hword : total < wordLimit) :
    RoundedTo (2.0 * ofCount c) (2 * size (value (ofCount c))) ∧
      size (value (2.0 * ofCount c)) = 2 * size (value (ofCount c)) := by
  have hlimit : Plain (Float.ofBits 0x43F0000000000000) := ⟨rfl, rfl⟩
  have hlarge : Plain (Float.ofBits 0x4400000000000000) := ⟨rfl, rfl⟩
  refine roundedTo_double (plain_ofCount (hc.trans_lt hword)) hlarge ?_
  have hmost := size_ofCount_mono (Nat.le_sub_one_of_lt (hc.trans_lt hword)) (by decide)
  rw [ofCount_largest] at hmost
  have hdouble : 2 * size (value (Float.ofBits 0x43F0000000000000)) = size (value (Float.ofBits 0x4400000000000000)) := by
    show 2 * (((2 ^ 52 : Nat) : ℚ) * 2 ^ (12 : Int)) = ((2 ^ 52 : Nat) : ℚ) * 2 ^ (13 : Int)
    norm_num
  linarith

/-- twice the share of wins, -/
theorem roundedTo_rate (hpos : 0 < total) (hc : c ≤ total) (hword : total < wordLimit) :
    RoundedTo (2.0 * ofCount c / ofCount total) (2 * size (value (ofCount c)) / size (value (ofCount total))) := by
  have htotal := size_ofCount_pos hpos hword
  obtain ⟨hdouble, hexact⟩ := roundedTo_doubled hc hword
  rw [← hexact]
  refine roundedTo_div hdouble.plain (plain_ofCount hword) htotal plain_two ?_
  rw [size_two, hexact, div_le_iff₀ htotal]
  linarith [size_ofCount_mono hc hword]

/-- and the edge over a coin flip -/
theorem roundedTo_winRate (hpos : 0 < total) (hc : c ≤ total) (hword : total < wordLimit) :
    RoundedTo (winRate.base (ofCount c) (ofCount total))
      (max (size (value (2.0 * ofCount c / ofCount total)) - 1) 0) := by
  have hedge := roundedTo_clamped (roundedTo_rate hpos hc hword).plain plain_one
  rw [size_one] at hedge
  exact hedge

/-- the base of a record is a finite double, not negative, -/
theorem plain_base (mode : WeightMode) (hpos : 0 < total) (hc : c ≤ total) (hword : total < wordLimit) :
    Plain (mode.base (ofCount c) (ofCount total)) := by
  cases mode with
  | winCount => exact (roundedTo_winCount hc hword).plain
  | winRate => exact (roundedTo_winRate hpos hc hword).plain
  | proportional => exact (roundedTo_proportional hpos hc hword).plain

/-- **that grows with the wins.** -/
theorem base_mono (mode : WeightMode) (hpos : 0 < total) (hle : c₁ ≤ c₂) (hc : c₂ ≤ total) (hword : total < wordLimit) :
    size (value (mode.base (ofCount c₁) (ofCount total))) ≤ size (value (mode.base (ofCount c₂) (ofCount total))) := by
  have hwins := size_ofCount_mono hle (hc.trans_lt hword)
  have htotal := size_ofCount_pos hpos hword
  cases mode with
  | winCount =>
    -- the losses shrink
    have hlosses := (roundedTo_losses hc hword).mono (roundedTo_losses (hle.trans hc) hword) (sub_le_sub_left hwins _)
    exact (roundedTo_winCount (hle.trans hc) hword).mono (roundedTo_winCount hc hword)
      (max_le_max_right 0 (sub_le_sub hwins hlosses))
  | winRate =>
    have hrate := (roundedTo_rate hpos (hle.trans hc) hword).mono (roundedTo_rate hpos hc hword) (by gcongr)
    exact (roundedTo_winRate hpos (hle.trans hc) hword).mono (roundedTo_winRate hpos hc hword)
      (max_le_max_right 0 (sub_le_sub_right hrate 1))
  | proportional =>
    exact (roundedTo_proportional hpos (hle.trans hc) hword).mono (roundedTo_proportional hpos hc hword) (by gcongr)

/-- rates are at most one -/
theorem base_le_one (hmode : mode ≠ winCount) (hpos : 0 < total) (hc : c ≤ total) (hword : total < wordLimit) :
    size (value (mode.base (ofCount c) (ofCount total))) ≤ size (value 1.0) := by
  have hwins := size_ofCount_mono hc hword
  have htotal := size_ofCount_pos hpos hword
  cases mode with
  | winCount => exact absurd rfl hmode
  | winRate =>
    refine (roundedTo_winRate hpos hc hword).mono plain_one.roundedTo ?_
    have hrate := (roundedTo_rate hpos hc hword).mono plain_two.roundedTo (by
      rw [size_two, div_le_iff₀ htotal]
      linarith)
    rw [size_two] at hrate
    rw [size_one]
    exact max_le (by linarith) zero_le_one
  | proportional =>
    refine (roundedTo_proportional hpos hc hword).mono plain_one.roundedTo ?_
    rw [size_one]
    exact div_le_one_of_le₀ hwins htotal.le

end WeightMode

/-! ## Weights -/

namespace WeightRule

variable {rule : WeightRule} {c c₁ c₂ total : Nat}

/-- the power of a record's base, before what is not finite is dropped -/
def power (rule : WeightRule) (correct total : Nat) : Float :=
  if total = 0 then 0.0
  else Power.real (rule.mode.base (ofCount correct) (ofCount total)) rule.exponent

/-- what is earned is the power, or nothing where it is not finite -/
theorem earned_eq (hc : c ≤ total) : rule.earned c total = finiteOrZero (rule.power c total) := by
  unfold earned power
  split
  · rfl
  · rw [Nat.min_eq_left hc]

/-- an exponent that settings may have -/
def Accepted (rule : WeightRule) : Prop :=
  rule.exponent.isFinite = true ∧ 0.0 < rule.exponent

theorem nonNegative_power (hrule : rule.Accepted) (hc : c ≤ total) (hword : total < wordLimit) :
    NonNegative (value (rule.power c total)) := by
  unfold power
  split
  · rfl
  next hsome =>
    have hbase := rule.mode.plain_base (Nat.pos_of_ne_zero hsome) hc hword
    exact Power.nonNegative_power hbase.isFinite hbase.nonNegative hrule.1 hrule.2

/-- **The power grows with the record.** -/
theorem power_mono (hrule : rule.Accepted) (hle : c₁ ≤ c₂) (hc : c₂ ≤ total) (hword : total < wordLimit) :
    rule.power c₁ total ≤ rule.power c₂ total := by
  unfold power
  split
  · decide
  next hsome =>
    have hpos := Nat.pos_of_ne_zero hsome
    have hbase₁ := rule.mode.plain_base hpos (hle.trans hc) hword
    have hbase₂ := rule.mode.plain_base hpos hc hword
    exact Power.real_mono hbase₁.isFinite hbase₁.nonNegative hbase₂.isFinite hbase₂.nonNegative
      (rule.mode.base_mono hpos hle hc hword) hrule.1 hrule.2

/-- **The power of a rate is at most one.** -/
theorem isFinite_power (hrule : rule.Accepted) (hmode : rule.mode ≠ .winCount) (hc : c ≤ total)
    (hword : total < wordLimit) : (rule.power c total).isFinite = true := by
  have hpower := nonNegative_power hrule hc hword
  unfold power at hpower ⊢
  split
  · rfl
  next hsome =>
    rw [if_neg hsome] at hpower
    have hpos := Nat.pos_of_ne_zero hsome
    have hbase := rule.mode.plain_base hpos hc hword
    have hle := Power.real_mono hbase.isFinite hbase.nonNegative plain_one.isFinite plain_one.nonNegative
      (rule.mode.base_le_one hmode hpos hc hword) hrule.1 hrule.2
    have hone : Power.real 1.0 rule.exponent = 1.0 := by
      have hequal : ((1.0 : Float) == 1.0) = true := rfl
      rw [Power.real, if_neg (not_beq_zero hrule.2), if_pos hequal]
    rw [hone] at hle
    exact (plain_of_le hpower hle rfl).isFinite

/-- **Where the power is infinite nothing is earned**, and so for every better record. -/
theorem earned_of_infinite (hrule : rule.Accepted) (hle : c₁ ≤ c₂) (hc : c₂ ≤ total) (hword : total < wordLimit)
    (hlarge : (rule.power c₁ total).isFinite = false) : rule.power c₂ total = infinity ∧ rule.earned c₂ total = 0.0 := by
  have hinfinite : (rule.power c₂ total).isFinite = false := by
    by_contra hfinite
    have hplain := plain_of_le (nonNegative_power hrule (hle.trans hc) hword) (power_mono hrule hle hc hword)
      (Bool.eq_true_of_not_eq_false hfinite)
    rw [hplain.isFinite] at hlarge
    cases hlarge
  refine ⟨eq_infinity (nonNegative_power hrule hc hword) hinfinite, ?_⟩
  rw [earned_eq hc, finiteOrZero, hinfinite]
  rfl

/-- **A better record weighs no less** while its power is finite. -/
theorem earned_mono (hrule : rule.Accepted) (hle : c₁ ≤ c₂) (hc : c₂ ≤ total) (hword : total < wordLimit)
    (hfinite : (rule.power c₂ total).isFinite = true) : rule.earned c₁ total ≤ rule.earned c₂ total := by
  have hpower := power_mono hrule hle hc hword
  have hplain := plain_of_le (nonNegative_power hrule (hle.trans hc) hword) hpower hfinite
  rw [earned_eq (hle.trans hc), earned_eq hc, finiteOrZero, finiteOrZero, if_pos hplain.isFinite, if_pos hfinite]
  exact hpower

/-- **Better records never weigh less, as long as their power is a finite double.** Under rates it always is. Under wins
less losses it may be infinite, then it is for every better record too, and all these weigh nothing. -/
theorem earned_of_better {settings : EvolutionSettings} (hcheck : settings.check = .ok ()) (mode : WeightMode)
    (hle : c₁ ≤ c₂) (hc : c₂ ≤ total) (hword : total < wordLimit) :
    let rule : WeightRule := ⟨mode, settings.weightExponent⟩
    ((rule.power c₂ total).isFinite = true → rule.earned c₁ total ≤ rule.earned c₂ total) ∧
      (mode ≠ .winCount → (rule.power c₂ total).isFinite = true) ∧
      ((rule.power c₁ total).isFinite = false → rule.power c₂ total = infinity ∧ rule.earned c₂ total = 0.0) := by
  intro rule
  have hrule : rule.Accepted := (EvolutionSettings.check_eq_ok_iff.1 hcheck).2
  exact ⟨earned_mono hrule hle hc hword, fun hmode => isFinite_power hrule hmode hc hword,
    earned_of_infinite hrule hle hc hword⟩

/-- two wins and three of three, under the default settings -/
theorem earned_of_better_squares :
    let rule : WeightRule := ⟨.winCount, ({} : EvolutionSettings).weightExponent⟩
    ({} : EvolutionSettings).check = .ok () ∧ (rule.power 3 3).isFinite = true ∧ rule.earned 2 3 ≤ rule.earned 3 3 := by
  intro rule
  have hcheck : ({} : EvolutionSettings).check = .ok () := by decide +kernel
  have hfinite : (rule.power 3 3).isFinite = true := by decide +kernel
  exact ⟨hcheck, hfinite, (earned_of_better hcheck .winCount (by decide) le_rfl (by decide)).1 hfinite⟩

/-- **A large exponent**: the power of the better record is too large for a double, and nothing of it is left. -/
theorem earned_overflow :
    let settings : EvolutionSettings := { weightExponent := 1024.0 }
    let rule : WeightRule := ⟨.winCount, settings.weightExponent⟩
    settings.check = .ok () ∧ rule.power 3 3 = infinity ∧ rule.earned 2 3 = 1.0 ∧ rule.earned 3 3 = 0.0 ∧
      ¬rule.earned 2 3 ≤ rule.earned 3 3 := by
  decide +kernel

end WeightRule

end TradingRobots
