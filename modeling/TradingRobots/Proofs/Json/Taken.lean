/-
What a value of JSON is taken for: counts, whole numbers and records come out as they were put in.

`record?_object`: the named fields of an object, when no name repeats.
-/
import TradingRobots.Json.Reading
import TradingRobots.Proofs.Number.Digits

namespace TradingRobots

/-- of a list whose elements are taken or refused one by one, all are taken or nothing is -/
theorem mapM_guard {α : Type} {f : α → Option α} {p : α → Bool} {xs : List α}
    (h : ∀ x ∈ xs, f x = if p x then some x else none) : xs.mapM f = if xs.all p then some xs else none := by
  induction xs with
  | nil => rfl
  | cons x xs ih =>
    rw [List.mapM_cons, h x List.mem_cons_self, ih fun y hy => h y (List.mem_cons_of_mem _ hy), List.all_cons]
    cases p x with
    | false => rfl
    | true =>
      cases xs.all p with
      | false => rfl
      | true => rfl

theorem mapM_congr {α β : Type} {f g : α → Option β} {xs : List α} (h : ∀ x ∈ xs, f x = g x) :
    xs.mapM f = xs.mapM g := by
  induction xs with
  | nil => rfl
  | cons x xs ih =>
    rw [List.mapM_cons, List.mapM_cons, h x List.mem_cons_self, ih fun y hy => h y (List.mem_cons_of_mem _ hy)]

theorem mapM_some {α β : Type} {f : α → Option β} {g : α → β} {xs : List α} (h : ∀ x ∈ xs, f x = some (g x)) :
    xs.mapM f = some (xs.map g) := by
  induction xs with
  | nil => rfl
  | cons x xs ih =>
    rw [List.mapM_cons, h x List.mem_cons_self, ih fun y hy => h y (List.mem_cons_of_mem _ hy)]
    rfl

theorem mapM_none {α β : Type} {f : α → Option β} {xs : List α} {x : α} (hx : x ∈ xs) (h : f x = none) :
    xs.mapM f = none := by
  induction xs with
  | nil => exact absurd hx List.not_mem_nil
  | cons y xs ih =>
    rw [List.mapM_cons]
    rcases List.mem_cons.1 hx with rfl | hx
    · rw [h]
      rfl
    · rw [ih hx]
      cases f y <;> rfl

namespace Json

theorem toCount?_count {n : Nat} (h : n < Binary64.wordLimit) : (count n).toCount? = some n := by
  show (do
    let n ← Reading.digits? (toString n).toList
    if n < Binary64.wordLimit then some n else none) = some n
  rw [Reading.toList_toString_nat, Reading.digits?_toDigits, Option.bind_eq_bind, Option.bind_some, if_pos h]

theorem toWhole?_whole {i : Int} (h : -(2 ^ 63) ≤ i ∧ i < 2 ^ 63) : (whole i).toWhole? = some i := by
  have hread := Reading.whole?_toString h
  have hzero : toString i ≠ "-0" := by
    intro htext
    have hvalue : Reading.whole? "-0" = some 0 := by decide
    rw [htext, hvalue] at hread
    obtain rfl := Option.some.inj hread
    exact absurd htext (by decide)
  rw [whole, toWhole?, if_neg hzero, hread]

/-- among fields of different names, those of one name are that field alone -/
theorem filter_name {fields : List (String × Json)} (h : (fields.map Prod.fst).Nodup) {f : String × Json}
    (hf : f ∈ fields) : fields.filter (fun g => g.1 = f.1) = [f] := by
  induction fields with
  | nil => exact absurd hf List.not_mem_nil
  | cons g fields ih =>
    rw [List.map_cons, List.nodup_cons] at h
    rcases List.mem_cons.1 hf with rfl | hf
    · have hnone : fields.filter (fun g => decide (g.1 = f.1)) = [] := by
        refine List.filter_eq_nil_iff.2 fun g hg hsame => h.1 ?_
        rw [← of_decide_eq_true hsame]
        exact List.mem_map_of_mem hg
      rw [List.filter_cons_of_pos (by simp), hnone]
    · have hne : g.1 ≠ f.1 := by
        intro hsame
        refine h.1 ?_
        rw [hsame]
        exact List.mem_map_of_mem hf
      rw [List.filter_cons_of_neg (by simpa using hne), ih h.2 hf]

/-- **The named fields of an object, when no name repeats.** -/
theorem record?_object (fields : List (String × Json)) (h : (fields.map Prod.fst).Nodup) :
    (object fields).record? (fields.map Prod.fst) = some (fields.map Prod.snd) := by
  rw [record?, List.mapM_map]
  refine mapM_some fun f hf => ?_
  rw [Function.comp_apply, filter_name h hf]

end Json

end TradingRobots
