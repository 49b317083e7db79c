/-
The wheel in doubles, beside the wheel in exact numbers.

A share that is subtracted leaves what is left of the spin rounded, but the sign of a difference is exact and rounding
keeps order. So whatever is rounded, a larger number meets no earlier entry. If neither a running sum of the shares, nor
the spin, nor what is left of it has to be rounded, the wheel stops where it does in exact numbers.

`Weighted.roundedTo_spin`: the spin.
`exists_stop?_le`, `Weighted.turned_mono`: larger numbers meet no earlier entries.
`stop?_exact`, `Weighted.turned_exact`: what is not rounded.
`select_fair`: picks.
-/
import TradingRobots.Proofs.Number.Sums
import TradingRobots.Proofs.Wheel.Exact

namespace TradingRobots.Wheel

open Binary64
open TradingRobots.Random
open Random.Stream (value value_mul value_unitOf)

variable {weights : List Float}

/-! ## Shares and spins -/

/-- the exact number of a weight's share -/
def amount (weight : Float) : ℚ :=
  size (value (nonNegative weight))

theorem amount_of_not_pos {w : Float} (h : ¬0.0 < w) : amount w = 0 := by
  rw [amount, nonNegative_of_not_pos h, value_zero, size_zero]

theorem amount_of_pos {w : Float} (h : 0.0 < w) : amount w = size (value w) := by
  rw [amount, nonNegative_of_pos h]

/-- shares that are finite doubles -/
def FiniteShares (weights : List Float) : Prop :=
  ∀ w ∈ weights, Plain (nonNegative w)

theorem nonNegative_shares (weights : List Float) : ∀ x ∈ weights.map nonNegative, NonNegative (value x) := by
  intro x hx
  obtain ⟨w, -, rfl⟩ := List.mem_map.1 hx
  exact nonNegative_clamped w

theorem Weighted.finiteShares (h : Weighted weights) : FiniteShares weights :=
  fun _ hw => plain_sumOf (nonNegative_shares weights) h.isFinite _ (List.mem_map_of_mem hw)

theorem Weighted.plain_total (h : Weighted weights) : Plain (total weights) :=
  plain_of_pos h.isFinite h.pos

/-- the numbers that a wheel is turned by -/
structure Turn (u : Float) : Prop where
  plain : Plain u
  le_one : size (value u) ≤ 1

theorem turn_number (s : Stream) (i : Nat) : Turn (s.number i) := by
  obtain ⟨hamount, hbound⟩ := value_unitOf (s.word (s.drawn + i))
  exact ⟨hamount.plain, hbound.trans (by norm_num)⟩

/-- the spin is the product, rounded -/
theorem Weighted.roundedTo_spin (h : Weighted weights) {u : Float} (hu : Turn u) :
    RoundedTo (u * total weights) (size (value u) * size (value (total weights))) :=
  roundedTo_of_le (value_mul u (total weights)) (nearest_mul hu.plain.amount h.plain_total.amount) h.plain_total
    (mul_le_of_le_one_left (size_nonneg _) hu.le_one)

/-! ## Order -/

/-- **A smaller spin ends no later.** -/
theorem exists_stop?_le (hfinite : FiniteShares weights) {x y : Float} (hx : Plain x) (hy : Plain y)
    (hle : size (value x) ≤ size (value y)) {position k : Nat} (h : stop? y position weights = some k) :
    ∃ j, stop? x position weights = some j ∧ j ≤ k := by
  induction weights generalizing x y position with
  | nil => cases h
  | cons w rest ih =>
    obtain ⟨hw, hrest⟩ := List.forall_mem_cons.1 hfinite
    by_cases hpos : 0.0 < w
    · rw [nonNegative_of_pos hpos] at hw
      have hleast := le_stop? h
      rw [stop?_owner hpos] at h ⊢
      by_cases hends : x - w ≤ 0.0
      · exact ⟨position, if_pos hends, hleast⟩
      -- then the larger spin does not end here either, and leaves no less
      rw [sub_le_zero_iff hx hw, not_le] at hends
      have hmore : size (value w) < size (value y) := hends.trans_le hle
      rw [if_neg (by rwa [sub_le_zero_iff hy hw, not_le])] at h
      rw [if_neg (by rwa [sub_le_zero_iff hx hw, not_le])]
      have hleft := roundedTo_sub hx hw hends.le
      have hmoreLeft := roundedTo_sub hy hw hmore.le
      exact ih hrest hleft.plain hmoreLeft.plain (hleft.mono hmoreLeft (sub_le_sub_right hle _)) h
    · rw [stop?_pass hpos] at h ⊢
      exact ih hrest hx hy hle h

/-- **A larger number never meets an earlier entry**, whatever is rounded. -/
theorem Weighted.turned_mono (h : Weighted weights) {u v : Float} (hu : Turn u) (hv : Turn v) (huv : u ≤ v) {k l : Nat}
    (hk : turned weights u = some k) (hl : turned weights v = some l) : k ≤ l := by
  have hspins : size (value (u * total weights)) ≤ size (value (v * total weights)) := by
    refine (h.roundedTo_spin hu).mono (h.roundedTo_spin hv) ?_
    exact mul_le_mul_of_nonneg_right (size_le_of_le hu.plain hv.plain huv) (size_nonneg _)
  cases hlater : stop? (v * total weights) 0 weights with
  | some j =>
    obtain ⟨i, hi, hle⟩ :=
      exists_stop?_le h.finiteShares (h.roundedTo_spin hu).plain (h.roundedTo_spin hv).plain hspins hlater
    rw [turned, hlater, Option.some_or] at hl
    rw [turned, hi, Option.some_or] at hk
    rwa [← Option.some.inj hk, ← Option.some.inj hl]
  | none =>
    -- the walk of the larger one runs out, and no owner comes after the last one
    rw [turned, hlater, Option.none_or] at hl
    obtain ⟨i, hi, howner⟩ := h.turned_owns u
    rw [hk] at hi
    rw [Option.some.inj hi]
    exact (last?_eq_some_iff.1 hl).2 i howner

/-! ## Without rounding -/

theorem amount_nonneg (w : Float) : 0 ≤ amount w :=
  size_nonneg _

theorem reach_amounts (weights : List Float) (i : Nat) :
    reach (weights.map amount) i = exactSum (weights.map nonNegative) i := by
  rw [reach, exactSum, ← List.map_take, ← List.map_take, List.map_map, List.map_map]
  congr 1
  refine List.map_congr_left fun w _ => ?_
  rw [Function.comp_apply, shareIn_eq_max, max_eq_left (amount_nonneg w)]
  rfl

/-- **The walk is exact if what is left of the spin is a double at every entry.** -/
theorem stop?_exact (hfinite : FiniteShares weights) {x : Float} (hx : Plain x)
    (hleft : ∀ i, reach (weights.map amount) i < size (value x) →
      Representable (size (value x) - reach (weights.map amount) i)) (position : Nat) :
    stop? x position weights = stopIn? 0 (size (value x)) position (weights.map amount) := by
  induction weights generalizing x position with
  | nil => rfl
  | cons w rest ih =>
    obtain ⟨hw, hrest⟩ := List.forall_mem_cons.1 hfinite
    rw [List.map_cons] at hleft ⊢
    have hreach : ∀ i, reach (amount w :: rest.map amount) (i + 1) = amount w + reach (rest.map amount) i := by
      intro i
      rw [reach_cons, max_eq_left (amount_nonneg w)]
    by_cases hpos : 0.0 < w
    · rw [nonNegative_of_pos hpos] at hw
      rw [amount_of_pos hpos] at hleft hreach ⊢
      rw [stop?_owner hpos, stopIn?_owner (hw.pos_iff.1 hpos)]
      by_cases hends : size (value x) ≤ size (value w)
      · rw [if_pos hends, if_pos ((sub_le_zero_iff hx hw).2 hends)]
      · rw [if_neg hends, if_neg (by rwa [sub_le_zero_iff hx hw])]
        have hgoes := not_le.1 hends
        have hsub := roundedTo_sub hx hw hgoes.le
        have hexact : size (value (x - w)) = size (value x) - size (value w) := by
          have hone := hleft 1
          rw [hreach, reach_zero, add_zero] at hone
          exact hsub.nearest.exact (hone hgoes)
        rw [← hexact]
        refine ih hrest hsub.plain ?_ (position + 1)
        intro i hi
        rw [hexact] at hi ⊢
        have hlater := hleft (i + 1)
        rw [hreach, ← sub_sub] at hlater
        exact hlater (lt_sub_iff_add_lt'.1 hi)
    · rw [amount_of_not_pos hpos] at hleft hreach ⊢
      rw [stop?_pass hpos, stopIn?_pass le_rfl]
      refine ih hrest hx ?_ (position + 1)
      intro i hi
      have hlater := hleft (i + 1)
      rw [hreach, zero_add] at hlater
      exact hlater hi

/-- neither the running sums of the shares, nor the spin, nor what is left of it have to be rounded -/
structure Unrounded (weights : List Float) (u : Float) : Prop where
  sums : ∀ i, Representable (reach (weights.map amount) i)
  spin : Representable (size (value u) * totalIn 0 0 (weights.map amount))
  left : ∀ i, reach (weights.map amount) i < size (value u) * totalIn 0 0 (weights.map amount) →
    Representable (size (value u) * totalIn 0 0 (weights.map amount) - reach (weights.map amount) i)

/-- **Whole weights are not rounded**, and neither is a whole spin, up to 2^53. -/
theorem unrounded_of_whole {u : Float} {n : Nat} (hwhole : ∀ w ∈ weights, ∃ k : Nat, amount w = k)
    (htotal : totalIn 0 0 (weights.map amount) ≤ 2 ^ 53) (hu : size (value u) ≤ 1)
    (hspin : size (value u) * totalIn 0 0 (weights.map amount) = n) : Unrounded weights u := by
  have hsmall : ∀ k : Nat, (k : ℚ) ≤ totalIn 0 0 (weights.map amount) → Representable (k : ℚ) := by
    intro k hk
    have hbound : (k : ℚ) ≤ (2 ^ 53 : Nat) := hk.trans (by exact_mod_cast htotal)
    exact ⟨k, 0, by exact_mod_cast hbound, by decide, by rw [zpow_zero, mul_one]⟩
  have hsums : ∀ i, ∃ k : Nat, reach (weights.map amount) i = k := by
    refine exists_reach_eq fun x hx => ?_
    obtain ⟨w, hw, rfl⟩ := List.mem_map.1 hx
    exact hwhole w hw
  have hle : (n : ℚ) ≤ totalIn 0 0 (weights.map amount) := by
    rw [← hspin, totalIn_eq_reach]
    exact mul_le_of_le_one_left (reach_nonneg _ _) hu
  refine ⟨?_, ?_, ?_⟩
  · intro i
    obtain ⟨k, hk⟩ := hsums i
    have hreach := reach_le_length (weights.map amount) i
    rw [← totalIn_eq_reach, hk] at hreach
    rw [hk]
    exact hsmall k hreach
  · rw [hspin]
    exact hsmall n hle
  · intro i hi
    obtain ⟨k, hk⟩ := hsums i
    rw [hspin, hk] at hi ⊢
    have hlt : k < n := by exact_mod_cast hi
    rw [← Nat.cast_sub hlt.le]
    refine hsmall _ (le_trans ?_ hle)
    exact_mod_cast Nat.sub_le n k

/-- the total is the exact one, -/
theorem Unrounded.size_total {u : Float} (hexact : Unrounded weights u) (h : Weighted weights) :
    size (value (total weights)) = totalIn 0 0 (weights.map amount) := by
  have hsums : ∀ i, Representable (exactSum (weights.map nonNegative) i) := by
    intro i
    rw [← reach_amounts]
    exact hexact.sums i
  rw [total, size_sumOf (nonNegative_shares weights) h.isFinite hsums, ← reach_amounts, totalIn_eq_reach,
    List.length_map, List.length_map]

/-- and so is the spin. -/
theorem Unrounded.size_spin {u : Float} (hexact : Unrounded weights u) (h : Weighted weights) (hu : Turn u) :
    size (value (u * total weights)) = size (value u) * totalIn 0 0 (weights.map amount) := by
  rw [← hexact.size_total h]
  refine (h.roundedTo_spin hu).nearest.exact ?_
  rw [hexact.size_total h]
  exact hexact.spin

/-- **What is not rounded stops where exact numbers do.** -/
theorem Weighted.turned_exact (h : Weighted weights) {u : Float} (hu : Turn u) (hexact : Unrounded weights u) :
    turned weights u = turnedIn 0 0 (weights.map amount) (size (value u)) := by
  have hpos : 0 < totalIn 0 0 (weights.map amount) := by
    rw [← hexact.size_total h]
    exact h.plain_total.pos_iff.1 h.pos
  have hspin := hexact.size_spin h hu
  have hwalk : stop? (u * total weights) 0 weights =
      stopIn? 0 (size (value u) * totalIn 0 0 (weights.map amount)) 0 (weights.map amount) := by
    rw [← hspin]
    refine stop?_exact h.finiteShares (h.roundedTo_spin hu).plain ?_ 0
    rw [hspin]
    exact hexact.left
  obtain ⟨i, hi⟩ := exists_stopIn? hpos (size_nonneg (value u)) hu.le_one
  rw [turned, hwalk, turnedIn_eq_stopIn? hpos (size_nonneg (value u)) hu.le_one, hi, Option.some_or]

/-! ## Fair picks -/

/-- **The wheel is fair.** Nothing is picked from an empty wheel, and an entry that it has from every other one, whatever
the entries weigh. A wheel with weight, and not too much to sum, takes one number from the stream and is turned by it. It
stops at an entry that weighs more than zero, and streams with a larger number do not stop earlier. If nothing has to be
rounded it stops where it does in exact numbers, and there an entry owns what lies between the sum of the shares before
it and the sum with it, so a share of its weight in the total, the number zero is the first one's that weighs, and larger
numbers do not stop earlier. Where entries are picked evenly, nothing is said of streams on which that draw does not end
(`Stream.patience`). -/
theorem select_fair (weights : List Float) (s : Stream) :
    ((select weights s).1 = none ↔ weights = []) ∧
    (∀ k, (select weights s).1 = some k → k < weights.length) ∧
    (Weighted weights →
      select weights s = (turnedIn (-0.0) 0.0 weights (s.number 0), s.skip 1) ∧
      (∃ k, (select weights s).1 = some k ∧ Owns weights k) ∧
      (∀ t k l, s.number 0 ≤ t.number 0 → (select weights s).1 = some k → (select weights t).1 = some l → k ≤ l) ∧
      (Unrounded weights (s.number 0) →
        (select weights s).1 = turnedIn 0 0 (weights.map amount) (size (value (s.number 0))))) ∧
    ∀ exact : List ℚ, 0 < totalIn 0 0 exact →
      turnedIn 0 0 exact 0 = (exact.findIdx? fun w => 0 < w) ∧
      (∀ u i, 0 < u → u < 1 → (turnedIn 0 0 exact u = some i ↔
        reach exact i < u * totalIn 0 0 exact ∧ u * totalIn 0 0 exact ≤ reach exact (i + 1))) ∧
      (∀ i w, exact[i]? = some w →
        reach exact (i + 1) / totalIn 0 0 exact - reach exact i / totalIn 0 0 exact = max w 0 / totalIn 0 0 exact) ∧
      ∀ u v i j, 0 ≤ u → u ≤ v → v < 1 →
        turnedIn 0 0 exact u = some i → turnedIn 0 0 exact v = some j → i ≤ j := by
  refine ⟨select_eq_none_iff, fun k hk => select_lt (Prod.ext hk rfl), ?_, ?_⟩
  · intro hweighted
    have hturned : ∀ t, (select weights t).1 = turned weights (t.number 0) := by
      intro t
      rw [select_of_weighted hweighted]
    refine ⟨?_, ?_, ?_, ?_⟩
    · rw [← turned_eq_turnedIn]
      exact select_of_weighted hweighted s
    · rw [hturned]
      exact hweighted.turned_owns (s.number 0)
    · intro t k l hle hk hl
      rw [hturned] at hk hl
      exact hweighted.turned_mono (turn_number s 0) (turn_number t 0) hle hk hl
    · intro hexact
      rw [hturned]
      exact hweighted.turned_exact (turn_number s 0) hexact
  · intro exact htotal
    refine ⟨turnedIn_zero htotal, ?_, ?_, ?_⟩
    · intro u i hpos hlt
      exact turnedIn_iff htotal hpos hlt.le i
    · intro i w hw
      rw [← sub_div, reach_succ hw, add_sub_cancel_left]
    · intro u v i j hu huv hv hi hj
      exact turnedIn_mono htotal hu huv hv.le hi hj

/-- a negative weight, NaN, three, zero and one -/
def mixedWeights : List Float :=
  [-1.0, Float.ofBits 0x7FF8000000000000, 3.0, 0.0, 1.0]

/-- a stream of three quarters -/
def quarters : Stream :=
  Stream.ofWords fun _ => 0xC000000000000000

theorem number_quarters : quarters.number 0 = 0.75 := by decide +kernel

theorem size_three_quarters : size (value (quarters.number 0)) = 3 / 4 := by
  rw [number_quarters]
  show ((3 * 2 ^ 51 : Nat) : ℚ) * 2 ^ (-53 : Int) = 3 / 4
  norm_num

theorem amounts_mixed : mixedWeights.map amount = [0, 0, 3, 0, 1] := by
  have hnegative : amount (-1.0) = 0 := amount_of_not_pos (by decide +kernel)
  have hnan : amount (Float.ofBits 0x7FF8000000000000) = 0 := amount_of_not_pos (by decide +kernel)
  have hzero : amount 0.0 = 0 := amount_of_not_pos (by decide +kernel)
  have hone : amount 1.0 = 1 := (amount_of_pos (by decide +kernel)).trans size_one
  have hthree : amount 3.0 = 3 := by
    rw [amount_of_pos (by decide +kernel)]
    show ((3 * 2 ^ 51 : Nat) : ℚ) * 2 ^ (-51 : Int) = 3
    norm_num
  simp only [mixedWeights, List.map_cons, List.map_nil, hnegative, hnan, hzero, hone, hthree]

theorem reach_mixed : reach [0, 0, 3, 0, 1] 2 = 0 ∧ reach [0, 0, 3, 0, 1] 3 = 3 ∧ reach [0, 0, 3, 0, 1] 5 = 4 := by
  norm_num [reach, shareIn_eq_max]

/-- three quarters of the wheel end exactly with its third entry -/
theorem select_fair_quarters :
    Weighted mixedWeights ∧ Unrounded mixedWeights (quarters.number 0) ∧ 0 < totalIn 0 0 (mixedWeights.map amount) ∧
      select mixedWeights quarters = (turnedIn (-0.0) 0.0 mixedWeights (quarters.number 0), quarters.skip 1) ∧
      (select mixedWeights quarters).1 = some 2 := by
  have hweighted : Weighted mixedWeights := ⟨by decide +kernel, by decide +kernel⟩
  obtain ⟨hbefore, hwith, hall⟩ := reach_mixed
  have hsum : totalIn 0 0 (mixedWeights.map amount) = 4 := by
    rw [amounts_mixed, totalIn_eq_reach]
    exact hall
  have hunrounded : Unrounded mixedWeights (quarters.number 0) := by
    refine unrounded_of_whole (n := 3) ?_ (by rw [hsum]; norm_num) (turn_number quarters 0).le_one ?_
    · intro w hw
      have hmem := List.mem_map_of_mem (f := amount) hw
      rw [amounts_mixed] at hmem
      simp only [List.mem_cons, List.not_mem_nil, or_false] at hmem
      rcases hmem with h | h | h | h | h
      · exact ⟨0, h⟩
      · exact ⟨0, h⟩
      · exact ⟨3, h⟩
      · exact ⟨0, h⟩
      · exact ⟨1, h.trans Nat.cast_one.symm⟩
    · rw [size_three_quarters, hsum]
      norm_num
  have hpos : 0 < totalIn 0 0 (mixedWeights.map amount) := by
    rw [hsum]
    norm_num
  obtain ⟨-, -, hturned, hexact⟩ := select_fair mixedWeights quarters
  obtain ⟨hselect, -, -, hsame⟩ := hturned hweighted
  obtain ⟨-, howned, -, -⟩ := hexact (mixedWeights.map amount) hpos
  refine ⟨hweighted, hunrounded, hpos, hselect, ?_⟩
  rw [hsame hunrounded, size_three_quarters, howned (3 / 4) 2 (by norm_num) (by norm_num), hsum, amounts_mixed, hbefore,
    hwith]
  norm_num

end TradingRobots.Wheel
