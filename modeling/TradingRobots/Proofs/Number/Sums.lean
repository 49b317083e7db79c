/-
Sums of doubles that are not negative. Such a sum is finite only if every part is, and then it is not negative. If no
running sum has to be rounded, neither has the sum.

`plain_parts`: the parts of a finite sum.
`sumOf_cons`: a sum starts from its first part.
`plain_sumOf`: finite lists.
`size_sumOf`: sums without rounding.
-/
import TradingRobots.Ledger
import TradingRobots.Proofs.Number.Stored

namespace TradingRobots.Binary64

open Float.Model
open Random.Stream (value value_add)

variable {x y : Float} {xs : List Float}

/-- an infinite part makes a sum infinite -/
theorem isFinite_left (hx : NonNegative (value x)) (hy : NonNegative (value y)) (h : (x + y).isFinite = true) :
    x.isFinite = true := by
  by_contra hinfinite
  have hlarge : UnpackedFloat.add format (value x) (value y) = .infinity .positive := by
    rw [eq_infinity hx (Bool.eq_false_of_not_eq_true hinfinite), value_infinity]
    generalize value y = v at hy
    cases v with
    | notANumber => cases hy
    | infinity s =>
      cases hy
      rfl
    | _ => rfl
  rw [isFinite_eq, value_add, hlarge, stored_infinity] at h
  cases h

/-- **The parts of a finite sum are finite.** -/
theorem plain_parts (hx : NonNegative (value x)) (hy : NonNegative (value y)) (h : (x + y).isFinite = true) :
    Plain x ∧ Plain y := by
  refine ⟨⟨isFinite_left hx hy h, hx⟩, ⟨?_, hy⟩⟩
  rw [Binary64.add_comm] at h
  exact isFinite_left hy hx h

theorem nonNegative_sum (hx : NonNegative (value x)) (hy : NonNegative (value y)) : NonNegative (value (x + y)) := by
  rw [value_add]
  exact (nonNegative_add (.inl hx) hy).stored

/-- nothing is added to what a sum starts from -/
theorem negative_zero_add (hx : NonNegative (value x)) : -0.0 + x = x := by
  have hadd : UnpackedFloat.add format (value (-0.0)) (value x) = value x := by
    rw [show value (-0.0) = .zero .negative from rfl]
    generalize value x = u at hx
    cases u with
    | notANumber => cases hx
    | infinity s => rfl
    | zero s =>
      cases hx
      rfl
    | finite s m e hm => rfl
  apply eq_of_value
  rw [value_add, hadd, stored_value]

/-- a sum starts from its first part -/
theorem sumOf_cons (hx : NonNegative (value x)) (xs : List Float) : sumOf (x :: xs) = xs.foldl (· + ·) x := by
  rw [sumOf, List.foldl_cons, negative_zero_add hx]

/-! ## Finite sums -/

theorem plain_foldl (hxs : ∀ y ∈ xs, NonNegative (value y)) (hx : NonNegative (value x))
    (h : (xs.foldl (· + ·) x).isFinite = true) : Plain x ∧ ∀ y ∈ xs, Plain y := by
  induction xs generalizing x with
  | nil => exact ⟨⟨h, hx⟩, fun y hy => absurd hy List.not_mem_nil⟩
  | cons z rest ih =>
    obtain ⟨hz, hrest⟩ := List.forall_mem_cons.1 hxs
    obtain ⟨hsum, hlater⟩ := ih hrest (nonNegative_sum hx hz) h
    obtain ⟨hfirst, hsecond⟩ := plain_parts hx hz hsum.isFinite
    exact ⟨hfirst, List.forall_mem_cons.2 ⟨hsecond, hlater⟩⟩

/-- **Every part of a finite sum is finite.** -/
theorem plain_sumOf (hxs : ∀ y ∈ xs, NonNegative (value y)) (h : (sumOf xs).isFinite = true) : ∀ y ∈ xs, Plain y := by
  cases xs with
  | nil => exact fun y hy => absurd hy List.not_mem_nil
  | cons x rest =>
    obtain ⟨hx, hrest⟩ := List.forall_mem_cons.1 hxs
    rw [sumOf_cons hx] at h
    obtain ⟨hfirst, hlater⟩ := plain_foldl hrest hx h
    exact List.forall_mem_cons.2 ⟨hfirst, hlater⟩

/-- the exact sum of the first parts -/
def exactSum (xs : List Float) (i : Nat) : ℚ :=
  ((xs.take i).map fun x => size (value x)).sum

theorem exactSum_cons (x : Float) (xs : List Float) (i : Nat) :
    exactSum (x :: xs) (i + 1) = size (value x) + exactSum xs i := by
  rw [exactSum, List.take_succ_cons, List.map_cons, List.sum_cons, exactSum]

theorem size_foldl (hxs : ∀ y ∈ xs, NonNegative (value y)) (hx : NonNegative (value x))
    (h : (xs.foldl (· + ·) x).isFinite = true) (hsums : ∀ i, Representable (size (value x) + exactSum xs i)) :
    size (value (xs.foldl (· + ·) x)) = size (value x) + exactSum xs xs.length := by
  induction xs generalizing x with
  | nil => exact (add_zero _).symm
  | cons z rest ih =>
    obtain ⟨hz, hrest⟩ := List.forall_mem_cons.1 hxs
    have hsum := (plain_foldl hrest (nonNegative_sum hx hz) h).1
    obtain ⟨hfirst, hsecond⟩ := plain_parts hx hz hsum.isFinite
    -- the first sum has nothing to round
    have hexact : size (value (x + z)) = size (value x) + size (value z) := by
      have hone := hsums 1
      rw [exactSum_cons, show exactSum rest 0 = 0 from rfl, add_zero] at hone
      exact (roundedTo_add hfirst hsecond hsum.isFinite).nearest.exact hone
    have hlater : ∀ i, Representable (size (value (x + z)) + exactSum rest i) := by
      intro i
      rw [hexact, add_assoc, ← exactSum_cons]
      exact hsums (i + 1)
    rw [List.foldl_cons, ih hrest (nonNegative_sum hx hz) h hlater, hexact, add_assoc, List.length_cons, exactSum_cons]

/-- **A finite sum is exact if every running sum is a double.** -/
theorem size_sumOf (hxs : ∀ y ∈ xs, NonNegative (value y)) (h : (sumOf xs).isFinite = true)
    (hsums : ∀ i, Representable (exactSum xs i)) : size (value (sumOf xs)) = exactSum xs xs.length := by
  cases xs with
  | nil => rfl
  | cons x rest =>
    obtain ⟨hx, hrest⟩ := List.forall_mem_cons.1 hxs
    rw [sumOf_cons hx] at h ⊢
    have hlater : ∀ i, Representable (size (value x) + exactSum rest i) := by
      intro i
      rw [← exactSum_cons]
      exact hsums (i + 1)
    rw [size_foldl hrest hx h hlater, List.length_cons, exactSum_cons]

end TradingRobots.Binary64
