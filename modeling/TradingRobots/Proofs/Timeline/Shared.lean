/-
Lists of time points that share their beginning.

In a strictly ascending list the points up to a time come first, so two such lists with the same points up to a time
have the same points at the same positions up to it, whatever follows in either.

`getElem?_eq_of_shared`: a point up to the time stands at the same position in both lists.
`get?_eq_of_shared`: the same for the bars of two timelines.
-/
import TradingRobots.Timeline
import Mathlib.Tactic

namespace TradingRobots.Timeline

/-- two lists have the same points up to a time -/
def Shared (T : Int) (a b : List Int) : Prop :=
  ∀ x, x ≤ T → (x ∈ a ↔ x ∈ b)

theorem Shared.symm {T : Int} {a b : List Int} (h : Shared T a b) : Shared T b a :=
  fun x hx => (h x hx).symm

/-- points up to a time keep their positions when the later ones are left out -/
theorem getElem?_filter_of_le {T x : Int} {a : List Int} (ha : a.Pairwise (· < ·)) {i : Nat} (h : a[i]? = some x)
    (hx : x ≤ T) : (a.filter (· ≤ T))[i]? = some x := by
  induction a generalizing i with
  | nil => cases h
  | cons y rest ih =>
    obtain ⟨hbelow, hrest⟩ := List.pairwise_cons.1 ha
    cases i with
    | zero =>
      cases h
      rw [List.filter_cons_of_pos (by simpa using hx)]
      rfl
    | succ i =>
      have hy : y < x := hbelow x (List.mem_of_getElem? h)
      rw [List.filter_cons_of_pos (by simp only [decide_eq_true_eq]; omega)]
      exact ih hrest h

theorem getElem?_of_filter {T x : Int} {a : List Int} (ha : a.Pairwise (· < ·)) {i : Nat}
    (h : (a.filter (· ≤ T))[i]? = some x) : a[i]? = some x := by
  induction a generalizing i with
  | nil => cases h
  | cons y rest ih =>
    obtain ⟨hbelow, hrest⟩ := List.pairwise_cons.1 ha
    by_cases hy : y ≤ T
    · rw [List.filter_cons_of_pos (by simpa using hy)] at h
      cases i with
      | zero => exact h
      | succ i => exact ih hrest h
    · -- nothing after a point beyond the time lies up to it
      have hnone : (y :: rest).filter (· ≤ T) = [] := by
        rw [List.filter_eq_nil_iff]
        intro z hz
        rcases List.mem_cons.1 hz with rfl | hz
        · simpa using hy
        · have := hbelow z hz
          simp only [decide_eq_true_eq]
          omega
      rw [hnone] at h
      cases h

/-- **A point up to the shared time stands at the same position in both lists.** -/
theorem getElem?_eq_of_shared {T x : Int} {a b : List Int} (ha : a.Pairwise (· < ·)) (hb : b.Pairwise (· < ·))
    (h : Shared T a b) {i : Nat} (hi : a[i]? = some x) (hx : x ≤ T) : b[i]? = some x := by
  have hsame : a.filter (· ≤ T) = b.filter (· ≤ T) := by
    refine (ha.filter _).eq_of_mem_iff (hb.filter _) fun y => ?_
    simp only [List.mem_filter, decide_eq_true_eq]
    constructor
    · rintro ⟨hy, hle⟩
      exact ⟨(h y hle).1 hy, hle⟩
    · rintro ⟨hy, hle⟩
      exact ⟨(h y hle).2 hy, hle⟩
  have hfiltered := getElem?_filter_of_le ha hi hx
  rw [hsame] at hfiltered
  exact getElem?_of_filter hb hfiltered

/-- timelines with the same points up to a time have them at the same bars -/
theorem get?_eq_of_shared {T x : Int} {t u : Timeline} (h : Shared T t.points.toList u.points.toList) {bar : Nat}
    (hbar : t.get? bar = some x) (hx : x ≤ T) : u.get? bar = some x := by
  rw [get?, ← Array.getElem?_toList] at hbar ⊢
  exact getElem?_eq_of_shared t.ascending u.ascending h hbar hx

end TradingRobots.Timeline
