/-
The wheel in exact numbers.

The wheel adds, subtracts, multiplies and compares, so it can be turned in any numbers that allow this. In doubles that is
the wheel itself. In rational numbers nothing is rounded: an entry is met when the running sum of the shares reaches the
spin for the first time, so it owns the part of the wheel between the sum before it and the sum with it, and a larger
number never meets an earlier entry. A spin of zero meets the first entry that weighs.

`turned_eq_turnedIn`: in doubles it is the wheel.
`stopIn?_iff`: the walk ends where the running sum reaches the spin.
`turnedIn_iff`, `turnedIn_zero`: the part of the wheel that an entry owns.
`turnedIn_mono`: larger numbers meet no earlier entries.
-/
import TradingRobots.Proofs.Wheel.Entries

namespace TradingRobots.Wheel

/-! ## A wheel in any numbers -/

section Numbers

variable {α : Type} [Add α] [Sub α] [Mul α] [LT α] [LE α] [BEq α] [DecidableLT α] [DecidableLE α]

/-- the part of the wheel that a weight owns -/
def shareIn (zero weight : α) : α :=
  if zero < weight then weight else zero

/-- walks around the wheel until the spin is used up -/
def stopIn? (zero : α) : α → Nat → List α → Option Nat
  | _, _, [] => none
  | spin, position, weight :: rest =>
    let share := shareIn zero weight
    if share == zero then stopIn? zero spin (position + 1) rest
    else
      let left := spin - share
      if left ≤ zero then some position else stopIn? zero left (position + 1) rest

/-- the last entry that owns a part of the wheel -/
def lastIn? (zero : α) (weights : List α) : Option Nat :=
  let positions := (List.range weights.length).zip weights
  ((positions.filter fun e => zero < e.2).getLast?).map Prod.fst

/-- the sum of all shares; `start` is what the sum starts from -/
def totalIn (start zero : α) (weights : List α) : α :=
  (weights.map (shareIn zero)).foldl (· + ·) start

/-- where the wheel stops that is turned by a number of [0, 1) -/
def turnedIn (start zero : α) (weights : List α) (u : α) : Option Nat :=
  (stopIn? zero (u * totalIn start zero weights) 0 weights).or (lastIn? zero weights)

end Numbers

theorem stop?_eq_stopIn? (spin : Float) (position : Nat) (weights : List Float) :
    stop? spin position weights = stopIn? 0.0 spin position weights := by
  induction weights generalizing spin position with
  | nil => rfl
  | cons w rest ih =>
    simp only [stop?, stopIn?, ih]
    rfl

/-- **In doubles it is the wheel.** -/
theorem turned_eq_turnedIn (weights : List Float) (u : Float) : turned weights u = turnedIn (-0.0) 0.0 weights u := by
  rw [turned, turnedIn, stop?_eq_stopIn?]
  rfl

/-! ## Running sums -/

variable {weights : List ℚ}

/-- the shares of the first entries, added up -/
def reach (weights : List ℚ) (i : Nat) : ℚ :=
  ((weights.take i).map (shareIn 0)).sum

theorem shareIn_eq_max (w : ℚ) : shareIn 0 w = max w 0 := by
  unfold shareIn
  split
  next hpos => rw [max_eq_left hpos.le]
  next hnot => rw [max_eq_right (not_lt.1 hnot)]

theorem reach_zero (weights : List ℚ) : reach weights 0 = 0 := rfl

theorem reach_cons (w : ℚ) (rest : List ℚ) (i : Nat) : reach (w :: rest) (i + 1) = max w 0 + reach rest i := by
  simp [reach, shareIn_eq_max]

theorem reach_nonneg (weights : List ℚ) (i : Nat) : 0 ≤ reach weights i := by
  refine List.sum_nonneg fun x hx => ?_
  obtain ⟨w, -, rfl⟩ := List.mem_map.1 hx
  rw [shareIn_eq_max]
  exact le_max_right w 0

/-- an entry adds its share, -/
theorem reach_succ {i : Nat} {w : ℚ} (h : weights[i]? = some w) : reach weights (i + 1) = reach weights i + max w 0 := by
  rw [reach, reach, List.take_add_one, h]
  simp [shareIn_eq_max]

/-- and beyond the entries nothing is added. -/
theorem reach_of_length_le {i : Nat} (h : weights.length ≤ i) : reach weights i = reach weights weights.length := by
  rw [reach, reach, List.take_of_length_le h, List.take_length]

theorem reach_le_succ (weights : List ℚ) (i : Nat) : reach weights i ≤ reach weights (i + 1) := by
  cases h : weights[i]? with
  | some w =>
    rw [reach_succ h]
    exact le_add_of_nonneg_right (le_max_right w 0)
  | none =>
    have hlength := List.getElem?_eq_none_iff.1 h
    rw [reach_of_length_le hlength, reach_of_length_le (hlength.trans (Nat.le_succ i))]

/-- running sums do not go down -/
theorem reach_mono {i j : Nat} (h : i ≤ j) : reach weights i ≤ reach weights j :=
  monotone_nat_of_le_succ (reach_le_succ weights) h

theorem reach_le_length (weights : List ℚ) (i : Nat) : reach weights i ≤ reach weights weights.length := by
  rcases le_total i weights.length with hle | hge
  · exact reach_mono hle
  · exact (reach_of_length_le hge).le

/-- whole weights add up to whole numbers -/
theorem exists_reach_eq (h : ∀ w ∈ weights, ∃ n : Nat, w = n) (i : Nat) : ∃ n : Nat, reach weights i = n := by
  induction i with
  | zero => exact ⟨0, Nat.cast_zero.symm⟩
  | succ i ih =>
    obtain ⟨n, hn⟩ := ih
    cases hi : weights[i]? with
    | some w =>
      obtain ⟨k, rfl⟩ := h w (List.mem_of_getElem? hi)
      refine ⟨n + k, ?_⟩
      rw [reach_succ hi, hn, max_eq_left (Nat.cast_nonneg k), Nat.cast_add]
    | none =>
      have hlength := List.getElem?_eq_none_iff.1 hi
      exact ⟨n, by rw [reach_of_length_le (hlength.trans (Nat.le_succ i)), ← reach_of_length_le hlength, hn]⟩

/-- sums that are added from the left are the same -/
theorem totalIn_eq_reach (weights : List ℚ) : totalIn 0 0 weights = reach weights weights.length := by
  rw [totalIn, reach, List.take_length, List.sum_eq_foldl]

/-- the running sum comes to every spin up to the total, at one entry -/
theorem exists_reach {spin : ℚ} (hpos : 0 < spin) {n : Nat} (hle : spin ≤ reach weights n) :
    ∃ i, reach weights i < spin ∧ spin ≤ reach weights (i + 1) := by
  induction n with
  | zero => exact absurd hpos (not_lt.2 hle)
  | succ n ih =>
    rcases le_or_gt spin (reach weights n) with hbefore | hafter
    · exact ih hbefore
    · exact ⟨n, hafter, hle⟩

/-! ## The walk -/

theorem stopIn?_pass {w : ℚ} (h : w ≤ 0) (spin : ℚ) (position : Nat) (rest : List ℚ) :
    stopIn? 0 spin position (w :: rest) = stopIn? 0 spin (position + 1) rest := by
  rw [stopIn?, shareIn_eq_max, max_eq_right h]
  exact if_pos (beq_self_eq_true 0)

theorem stopIn?_owner {w : ℚ} (h : 0 < w) (spin : ℚ) (position : Nat) (rest : List ℚ) :
    stopIn? 0 spin position (w :: rest) =
      if spin ≤ w then some position else stopIn? 0 (spin - w) (position + 1) rest := by
  have hsome : ¬(w == 0) = true := by simp [h.ne']
  rw [stopIn?, shareIn_eq_max, max_eq_left h.le]
  simp only [hsome, Bool.false_eq_true, if_false, sub_nonpos]

theorem le_stopIn? {spin : ℚ} {position k : Nat} (h : stopIn? 0 spin position weights = some k) : position ≤ k := by
  induction weights generalizing spin position with
  | nil => cases h
  | cons w rest ih =>
    rcases le_or_gt w 0 with hw | hw
    · rw [stopIn?_pass hw] at h
      have := ih h
      omega
    · rw [stopIn?_owner hw] at h
      split at h
      · cases h
        exact Nat.le_refl _
      · have := ih h
        omega

/-- **The walk ends where the running sum reaches the spin.** -/
theorem stopIn?_iff {spin : ℚ} (hpos : 0 < spin) (position i : Nat) :
    stopIn? 0 spin position weights = some (position + i) ↔ reach weights i < spin ∧ spin ≤ reach weights (i + 1) := by
  induction weights generalizing spin position i with
  | nil =>
    have hnothing : reach [] (i + 1) = 0 := rfl
    rw [hnothing]
    refine iff_of_false (by simp [stopIn?]) ?_
    rintro ⟨-, hle⟩
    exact absurd hpos (not_lt.2 hle)
  | cons w rest ih =>
    -- nothing is met before the position that the walk stands at
    have hnext : ∀ spin, stopIn? 0 spin (position + 1) rest ≠ some (position + 0) := by
      intro spin hmet
      have := le_stopIn? hmet
      omega
    have hshift : ∀ i, position + (i + 1) = position + 1 + i := by
      intro i
      omega
    rcases le_or_gt w 0 with hw | hw
    · rw [stopIn?_pass hw]
      cases i with
      | zero =>
        refine iff_of_false (hnext spin) ?_
        rw [reach_cons, max_eq_right hw, reach_zero rest, add_zero]
        rintro ⟨-, hle⟩
        exact absurd hpos (not_lt.2 hle)
      | succ i => rw [hshift i, ih hpos, reach_cons, reach_cons, max_eq_right hw, zero_add, zero_add]
    · rw [stopIn?_owner hw]
      split
      next hends =>
        cases i with
        | zero =>
          rw [reach_cons, max_eq_left hw.le, reach_zero rest, add_zero w]
          exact iff_of_true rfl ⟨hpos, hends⟩
        | succ i =>
          refine iff_of_false (by simp) ?_
          rw [reach_cons, max_eq_left hw.le]
          rintro ⟨hbefore, -⟩
          have := reach_nonneg rest i
          linarith
      next hgoes =>
        cases i with
        | zero =>
          refine iff_of_false (hnext _) ?_
          rw [reach_cons, max_eq_left hw.le, reach_zero rest, add_zero]
          exact fun hboth => hgoes hboth.2
        | succ i =>
          rw [hshift i, ih (sub_pos.2 (not_le.1 hgoes)), reach_cons, reach_cons, max_eq_left hw.le, lt_sub_iff_add_lt',
            sub_le_iff_le_add']

/-- a spin of zero meets the first entry that weighs -/
theorem stopIn?_zero (position : Nat) (weights : List ℚ) :
    stopIn? 0 0 position weights = (weights.findIdx? fun w => 0 < w).map (position + ·) := by
  induction weights generalizing position with
  | nil => rfl
  | cons w rest ih =>
    rw [List.findIdx?_cons]
    rcases le_or_gt w 0 with hw | hw
    · rw [stopIn?_pass hw, ih, if_neg (by simpa using hw), Option.map_map]
      congr 1
      funext i
      show position + 1 + i = position + (i + 1)
      omega
    · rw [stopIn?_owner hw, if_pos hw.le, if_pos (by simpa using hw)]
      rfl

/-! ## Turns -/

/-- a total above zero has an entry that weighs -/
theorem exists_pos (h : 0 < totalIn 0 0 weights) : ∃ w ∈ weights, 0 < w := by
  by_contra hnone
  push Not at hnone
  have hzero : totalIn 0 0 weights = 0 := by
    rw [totalIn_eq_reach, reach, List.take_length]
    refine List.sum_eq_zero fun x hx => ?_
    obtain ⟨w, hw, rfl⟩ := List.mem_map.1 hx
    rw [shareIn_eq_max, max_eq_right (hnone w hw)]
  rw [hzero] at h
  exact lt_irrefl 0 h

/-- the walk does not run out, -/
theorem exists_stopIn? {u : ℚ} (htotal : 0 < totalIn 0 0 weights) (hu : 0 ≤ u) (hle : u ≤ 1) :
    ∃ i, stopIn? 0 (u * totalIn 0 0 weights) 0 weights = some i := by
  rcases hu.eq_or_lt with rfl | hpos
  · rw [zero_mul, stopIn?_zero]
    obtain ⟨w, hw, hweighs⟩ := exists_pos htotal
    cases hfirst : weights.findIdx? fun w => 0 < w with
    | some i => exact ⟨0 + i, rfl⟩
    | none =>
      have hnot := List.findIdx?_eq_none_iff.1 hfirst w hw
      exact absurd hweighs (of_decide_eq_false hnot)
  · have hbound : u * totalIn 0 0 weights ≤ reach weights weights.length := by
      rw [← totalIn_eq_reach]
      exact mul_le_of_le_one_left htotal.le hle
    obtain ⟨i, hi⟩ := exists_reach (mul_pos hpos htotal) hbound
    exact ⟨0 + i, (stopIn?_iff (mul_pos hpos htotal) 0 i).2 hi⟩

/-- so the last entry that weighs is not asked for. -/
theorem turnedIn_eq_stopIn? {u : ℚ} (htotal : 0 < totalIn 0 0 weights) (hu : 0 ≤ u) (hle : u ≤ 1) :
    turnedIn 0 0 weights u = stopIn? 0 (u * totalIn 0 0 weights) 0 weights := by
  obtain ⟨i, hi⟩ := exists_stopIn? htotal hu hle
  rw [turnedIn, hi, Option.some_or]

/-- **An entry owns what lies between the running sum before it and the one with it.** -/
theorem turnedIn_iff {u : ℚ} (htotal : 0 < totalIn 0 0 weights) (hpos : 0 < u) (hle : u ≤ 1) (i : Nat) :
    turnedIn 0 0 weights u = some i ↔
      reach weights i < u * totalIn 0 0 weights ∧ u * totalIn 0 0 weights ≤ reach weights (i + 1) := by
  rw [turnedIn_eq_stopIn? htotal hpos.le hle, ← stopIn?_iff (mul_pos hpos htotal) 0 i, Nat.zero_add]

/-- the first entry that weighs owns the number zero -/
theorem turnedIn_zero (htotal : 0 < totalIn 0 0 weights) :
    turnedIn 0 0 weights 0 = weights.findIdx? fun w => 0 < w := by
  rw [turnedIn_eq_stopIn? htotal le_rfl zero_le_one, zero_mul, stopIn?_zero]
  simp

/-- what comes before the first entry that weighs reaches nowhere -/
theorem reach_findIdx? {i : Nat} (h : weights.findIdx? (fun w => 0 < w) = some i) : reach weights i = 0 := by
  obtain ⟨hi, -, hbefore⟩ := List.findIdx?_eq_some_iff_getElem.1 h
  refine List.sum_eq_zero fun x hx => ?_
  obtain ⟨w, hw, rfl⟩ := List.mem_map.1 hx
  obtain ⟨j, hj, rfl⟩ := List.mem_take_iff_getElem.1 hw
  have hnot := hbefore j (by omega)
  rw [decide_eq_true_eq, not_lt] at hnot
  rw [shareIn_eq_max, max_eq_right hnot]

/-- **A larger number never meets an earlier entry.** -/
theorem turnedIn_mono {u v : ℚ} (htotal : 0 < totalIn 0 0 weights) (hu : 0 ≤ u) (huv : u ≤ v) (hv : v ≤ 1) {i j : Nat}
    (hi : turnedIn 0 0 weights u = some i) (hj : turnedIn 0 0 weights v = some j) : i ≤ j := by
  rcases hu.eq_or_lt with rfl | hu
  · rcases huv.eq_or_lt with rfl | hpos
    · rw [hi] at hj
      exact (Option.some.inj hj).le
    · rw [turnedIn_zero htotal] at hi
      have hreached := ((turnedIn_iff htotal hpos hv j).1 hj).2
      by_contra hlater
      have hmono : reach weights (j + 1) ≤ reach weights i := reach_mono (by omega)
      have hspin := mul_pos hpos htotal
      rw [reach_findIdx? hi] at hmono
      linarith
  · have hbefore := ((turnedIn_iff htotal hu (huv.trans hv) i).1 hi).1
    have hreached := ((turnedIn_iff htotal (hu.trans_le huv) hv j).1 hj).2
    by_contra hlater
    have hmono : reach weights (j + 1) ≤ reach weights i := reach_mono (by omega)
    have hspins := mul_le_mul_of_nonneg_right huv htotal.le
    linarith

end TradingRobots.Wheel
