/-
Where the wheel stops.

An entry owns a part of the wheel if its weight is above zero. The walk around the wheel passes over all others, and so
does the search for the last one, so a wheel that has weight stops at an owner, for every number it is spun by. Such a
wheel takes one number from the stream. A wheel without weight, or with too much to sum, picks evenly among its entries.

`stop?_owns`, `last?_eq_some_iff`: the walk, and the last owner.
`select_of_weighted`: a wheel with weight is turned by one number.
`turned_owns`: and then stops at an owner.
`exists_select`, `select_eq_none_iff`, `select_lt`: every wheel with entries stops at one that it has.
-/
import TradingRobots.Proofs.Number.Stored
import TradingRobots.Proofs.Random.Unit
import TradingRobots.Wheel

namespace TradingRobots.Wheel

open TradingRobots.Random

variable {weights : List Float}

/-! ## Owners -/

/-- the entry owns a part of the wheel -/
def Owns (weights : List Float) (k : Nat) : Prop :=
  ∃ w, weights[k]? = some w ∧ 0.0 < w

theorem Owns.lt {k : Nat} (h : Owns weights k) : k < weights.length := by
  obtain ⟨w, hw, -⟩ := h
  exact (List.getElem?_eq_some_iff.1 hw).1

theorem owns_of_mem {w : Float} (hw : w ∈ weights) (hpos : 0.0 < w) : ∃ k, Owns weights k := by
  obtain ⟨k, hk⟩ := List.getElem?_of_mem hw
  exact ⟨k, w, hk, hpos⟩

/-- a share is the weight, or zero -/
theorem nonNegative_of_pos {w : Float} (h : 0.0 < w) : Binary64.nonNegative w = w :=
  if_pos h

theorem nonNegative_of_not_pos {w : Float} (h : ¬0.0 < w) : Binary64.nonNegative w = 0.0 :=
  if_neg h

/-! ## The walk -/

/-- the walk passes over what owns nothing -/
theorem stop?_pass {w : Float} (h : ¬0.0 < w) (spin : Float) (position : Nat) (rest : List Float) :
    stop? spin position (w :: rest) = stop? spin (position + 1) rest := by
  rw [stop?, nonNegative_of_not_pos h]
  exact if_pos (by decide)

/-- at an owner the walk ends or goes on with what is left of the spin -/
theorem stop?_owner {w : Float} (h : 0.0 < w) (spin : Float) (position : Nat) (rest : List Float) :
    stop? spin position (w :: rest) =
      if spin - w ≤ 0.0 then some position else stop? (spin - w) (position + 1) rest := by
  rw [stop?, nonNegative_of_pos h]
  exact if_neg (Binary64.not_beq_zero h)

/-- **The walk ends at owners only.** -/
theorem stop?_owns {spin : Float} {position k : Nat} (h : stop? spin position weights = some k) :
    ∃ i, k = position + i ∧ Owns weights i := by
  have hlater : ∀ {position w rest}, (∃ i, k = position + 1 + i ∧ Owns rest i) →
      ∃ i, k = position + i ∧ Owns (w :: rest) i := by
    rintro position w rest ⟨i, rfl, howner⟩
    exact ⟨i + 1, by omega, howner⟩
  induction weights generalizing spin position with
  | nil => cases h
  | cons w rest ih =>
    by_cases hpos : 0.0 < w
    · rw [stop?_owner hpos] at h
      split at h
      · obtain rfl := Option.some.inj h
        exact ⟨0, rfl, w, rfl, hpos⟩
      · exact hlater (ih h)
    · rw [stop?_pass hpos] at h
      exact hlater (ih h)

theorem le_stop? {spin : Float} {position k : Nat} (h : stop? spin position weights = some k) : position ≤ k := by
  obtain ⟨i, rfl, -⟩ := stop?_owns h
  exact Nat.le_add_right position i

/-! ## The last owner -/

/-- entries with their positions, of those that own a part -/
def owners (weights : List Float) : List (Nat × Float) :=
  ((List.range weights.length).zip weights).filter fun e => e.2 > 0.0

theorem mem_owners_iff {k : Nat} {w : Float} : (k, w) ∈ owners weights ↔ weights[k]? = some w ∧ 0.0 < w := by
  rw [owners, List.mem_filter, List.mem_iff_getElem?, decide_eq_true_eq]
  refine and_congr_left fun _ => ⟨?_, ?_⟩
  · rintro ⟨i, hi⟩
    obtain ⟨hrange, hw⟩ := List.getElem?_zip_eq_some.1 hi
    obtain ⟨hlt, hposition⟩ := List.getElem?_eq_some_iff.1 hrange
    rw [List.getElem_range] at hposition
    rwa [hposition] at hw
  · intro hw
    refine ⟨k, ?_⟩
    have hlt := (List.getElem?_eq_some_iff.1 hw).1
    exact List.getElem?_zip_eq_some.2 ⟨List.getElem?_range hlt, hw⟩

theorem pairwise_owners (weights : List Float) : (owners weights).Pairwise fun e f => e.1 < f.1 := by
  have hpositions : ((List.range weights.length).zip weights).map Prod.fst = List.range weights.length := by
    rw [List.map_fst_zip (by simp)]
  have hall : ((List.range weights.length).zip weights).Pairwise fun e f => e.1 < f.1 := by
    rw [← List.pairwise_map (f := Prod.fst), hpositions]
    exact List.pairwise_lt_range
  exact hall.filter _

/-- **The last owner** is an owner that no other comes after. -/
theorem last?_eq_some_iff {k : Nat} : last? weights = some k ↔ Owns weights k ∧ ∀ j, Owns weights j → j ≤ k := by
  have hlast : last? weights = (owners weights).getLast?.map Prod.fst := rfl
  have hgreatest : ∀ {k w}, (owners weights).getLast? = some (k, w) → Owns weights k ∧ ∀ j, Owns weights j → j ≤ k := by
    intro k w hend
    obtain ⟨before, hsplit⟩ := List.getLast?_eq_some_iff.1 hend
    refine ⟨⟨w, mem_owners_iff.1 (List.mem_of_getLast? hend)⟩, ?_⟩
    rintro j ⟨v, hv⟩
    have hmem := mem_owners_iff.2 hv
    have hsorted := pairwise_owners weights
    rw [hsplit] at hmem hsorted
    rcases List.mem_append.1 hmem with hbefore | hsame
    · exact ((List.pairwise_append.1 hsorted).2.2 _ hbefore _ (List.mem_singleton_self _)).le
    · obtain ⟨rfl, -⟩ := Prod.mk.inj (List.mem_singleton.1 hsame)
      exact Nat.le_refl _
  rw [hlast]
  constructor
  · intro h
    obtain ⟨⟨i, w⟩, hend, rfl⟩ := Option.map_eq_some_iff.1 h
    exact hgreatest hend
  · rintro ⟨⟨w, hw⟩, hmost⟩
    cases hend : (owners weights).getLast? with
    | none =>
      rw [List.getLast?_eq_none_iff] at hend
      have hmem := mem_owners_iff.2 hw
      rw [hend] at hmem
      cases hmem
    | some e =>
      obtain ⟨howner, hlatest⟩ := hgreatest hend
      have hsame : e.1 = k := Nat.le_antisymm (hmost e.1 howner) (hlatest k ⟨w, hw⟩)
      rw [Option.map_some, hsame]

theorem exists_last? {k : Nat} (h : Owns weights k) : ∃ l, last? weights = some l := by
  obtain ⟨w, hw⟩ := h
  cases hend : last? weights with
  | some l => exact ⟨l, rfl⟩
  | none =>
    have hnone : (owners weights).getLast? = none := Option.map_eq_none_iff.1 hend
    rw [List.getLast?_eq_none_iff] at hnone
    have hmem := mem_owners_iff.2 hw
    rw [hnone] at hmem
    cases hmem

/-! ## Wheels with weight -/

/-- the sum of all shares -/
def total (weights : List Float) : Float :=
  sumOf (weights.map Binary64.nonNegative)

/-- the wheel has weight, and not too much to sum -/
structure Weighted (weights : List Float) : Prop where
  pos : 0.0 < total weights
  isFinite : (total weights).isFinite = true

/-- where the wheel stops that is turned by a number of [0, 1) -/
def turned (weights : List Float) (u : Float) : Option Nat :=
  (stop? (u * total weights) 0 weights).or (last? weights)

/-- shares of nothing add up to nothing -/
theorem foldl_zeros {xs : List Float} (hxs : ∀ x ∈ xs, x = 0.0) (start : Float) (h : start = 0.0 ∨ start = -0.0) :
    xs.foldl (· + ·) start = 0.0 ∨ xs.foldl (· + ·) start = -0.0 := by
  induction xs generalizing start with
  | nil => exact h
  | cons x xs ih =>
    have hx : x = 0.0 := hxs x List.mem_cons_self
    subst hx
    apply ih (fun y hy => hxs y (List.mem_cons_of_mem _ hy))
    left
    rcases h with rfl | rfl
    · decide +kernel
    · decide +kernel

/-- a wheel with weight has an owner -/
theorem Weighted.exists_owner (h : Weighted weights) : ∃ k, Owns weights k := by
  by_contra hnone
  have hzeros : ∀ x ∈ weights.map Binary64.nonNegative, x = 0.0 := by
    intro x hx
    obtain ⟨w, hw, rfl⟩ := List.mem_map.1 hx
    exact nonNegative_of_not_pos fun hpos => hnone (owns_of_mem hw hpos)
  have hpos := h.pos
  rcases foldl_zeros hzeros (-0.0) (.inr rfl) with hsum | hsum
  · rw [total, sumOf, hsum] at hpos
    exact absurd hpos (by decide +kernel)
  · rw [total, sumOf, hsum] at hpos
    exact absurd hpos (by decide +kernel)

/-- **A wheel with weight stops at an owner**, whatever it is turned by. -/
theorem Weighted.turned_owns (h : Weighted weights) (u : Float) : ∃ k, turned weights u = some k ∧ Owns weights k := by
  obtain ⟨k, howner⟩ := h.exists_owner
  obtain ⟨l, hl⟩ := exists_last? howner
  cases hstop : stop? (u * total weights) 0 weights with
  | some i =>
    obtain ⟨j, rfl, hj⟩ := stop?_owns hstop
    exact ⟨0 + j, by rw [turned, hstop, Option.some_or], by rwa [Nat.zero_add]⟩
  | none => exact ⟨l, by rw [turned, hstop, Option.none_or, hl], (last?_eq_some_iff.1 hl).1⟩

/-! ## Picks -/

/-- **A wheel with weight is turned by one number.** -/
theorem select_of_weighted (h : Weighted weights) (s : Stream) :
    select weights s = (turned weights (s.number 0), s.skip 1) := by
  obtain ⟨k, howner⟩ := h.exists_owner
  have hsome : ¬weights.isEmpty = true := by
    rw [List.isEmpty_iff]
    rintro rfl
    exact absurd howner.lt (Nat.not_lt_zero k)
  have hweighs : ¬(total weights ≤ 0.0 ∨ ¬(total weights).isFinite = true) :=
    not_or.2 ⟨Binary64.not_le_zero_of_pos h.pos, not_not.2 h.isFinite⟩
  unfold select
  rw [if_neg hsome]
  dsimp only
  rw [show sumOf (weights.map Binary64.nonNegative) = total weights from rfl, if_neg hweighs, s.unit_eq]
  dsimp only
  rw [turned]
  cases stop? (s.number 0 * total weights) 0 weights with
  | some i => rfl
  | none => rfl

/-- a wheel without weight, or with too much to sum, picks evenly -/
theorem select_of_not_weighted (hsome : weights ≠ []) (h : ¬Weighted weights) (s : Stream) :
    select weights s = (some (s.below weights.length).1, (s.below weights.length).2) := by
  have hblank : total weights ≤ 0.0 ∨ ¬(total weights).isFinite = true := by
    by_contra hweighs
    obtain ⟨hpos, hfinite⟩ := not_or.1 hweighs
    exact h ⟨Binary64.pos_of_not_le_zero (not_not.1 hfinite) hpos, not_not.1 hfinite⟩
  unfold select
  rw [if_neg (by rwa [List.isEmpty_iff])]
  exact if_pos hblank

/-- **A wheel with entries stops at one**, whatever they weigh. -/
theorem exists_select {weights : List Float} (h : weights ≠ []) (s : Stream) :
    ∃ k s', select weights s = (some k, s') := by
  by_cases hweighted : Weighted weights
  · obtain ⟨k, hk, -⟩ := hweighted.turned_owns (s.number 0)
    exact ⟨k, s.skip 1, by rw [select_of_weighted hweighted, hk]⟩
  · exact ⟨_, _, select_of_not_weighted h hweighted s⟩

/-- nothing is picked from an empty wheel only -/
theorem select_eq_none_iff {s : Stream} : (select weights s).1 = none ↔ weights = [] := by
  constructor
  · intro hnone
    by_contra hsome
    obtain ⟨k, s', hk⟩ := exists_select hsome s
    rw [hk] at hnone
    cases hnone
  · rintro rfl
    rfl

/-- **The wheel stops at an entry that it has.** -/
theorem select_lt {weights : List Float} {s s' : Stream} {k : Nat} (h : select weights s = (some k, s')) :
    k < weights.length := by
  rcases List.eq_nil_or_concat' weights with rfl | ⟨_, _, hconcat⟩
  · cases h
  have hsome : weights ≠ [] := by simp [hconcat]
  by_cases hweighted : Weighted weights
  · obtain ⟨j, hj, howner⟩ := hweighted.turned_owns (s.number 0)
    rw [select_of_weighted hweighted, hj] at h
    cases h
    exact howner.lt
  · rw [select_of_not_weighted hsome hweighted] at h
    cases h
    exact Stream.below_lt (List.length_pos_iff.2 hsome) s

end TradingRobots.Wheel
