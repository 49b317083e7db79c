/-
Robots in order: by weight, heaviest or lightest first, and by age.

Each order is a comparison by a key. Weights are finite, so they have places in a linear order; names tell equals apart.
A list with distinct keys has only one sorted form, whatever order it came in, and the first entries of that form are
those with few others before them.

`mergeSort_eq_of_perm`: lists that hold the same are sorted alike.
`mem_best_iff`: the heaviest share of a population, told by how many robots outrank each.
-/
import TradingRobots.Proofs.Number.Order
import TradingRobots.Proofs.Population.Deaths
import TradingRobots.Proofs.Weight.Sound

namespace TradingRobots

open Binary64

/-! ## Sorting by a key -/

section Sorting

variable {α κ : Type} [LinearOrder κ] {le : α → α → Bool} {key : α → κ} {xs ys : List α}

/-- among the members of a list, the comparison goes by the key -/
def Compares (le : α → α → Bool) (key : α → κ) (xs : List α) : Prop :=
  ∀ a ∈ xs, ∀ b ∈ xs, (le a b = true ↔ key a ≤ key b)

theorem Compares.subset (h : Compares le key xs) (hsub : ys ⊆ xs) : Compares le key ys :=
  fun a ha b hb => h a (hsub ha) b (hsub hb)

/-- the same comparison, on all values -/
def keyLE (key : α → κ) (a b : α) : Bool :=
  decide (key a ≤ key b)

/-- sorting only compares members, so it sorts by the key -/
theorem Compares.mergeSort_eq (h : Compares le key xs) : xs.mergeSort le = xs.mergeSort (keyLE key) := by
  have hsame : ∀ a ∈ xs, ∀ b ∈ xs, le a b = keyLE key (id a) (id b) := fun a ha b hb => by
    rw [Bool.eq_iff_iff, h a ha b hb, keyLE, decide_eq_true_eq]
    rfl
  have hmapped := List.map_mergeSort (f := id) (s := keyLE key) hsame
  rwa [List.map_id, List.map_id] at hmapped

theorem Compares.pairwise_mergeSort (h : Compares le key xs) :
    (xs.mergeSort le).Pairwise fun a b => key a ≤ key b := by
  have htrans : ∀ a b c, keyLE key a b = true → keyLE key b c = true → keyLE key a c = true :=
    fun a b c hab hbc => decide_eq_true ((of_decide_eq_true hab).trans (of_decide_eq_true hbc))
  have htotal : ∀ a b, (keyLE key a b || keyLE key b a) = true :=
    fun a b => by simpa [keyLE] using le_total (key a) (key b)
  rw [h.mergeSort_eq]
  exact (List.pairwise_mergeSort htrans htotal xs).imp of_decide_eq_true

/-- with distinct keys, each key in a sorted list lies strictly below those after it -/
theorem Compares.strictly_mergeSort (h : Compares le key xs) (hkeys : (xs.map key).Nodup) :
    (xs.mergeSort le).Pairwise fun a b => key a < key b := by
  have hdistinct : ((xs.mergeSort le).map key).Nodup := ((List.mergeSort_perm xs le).map key).nodup_iff.2 hkeys
  rw [List.Nodup, List.pairwise_map] at hdistinct
  exact h.pairwise_mergeSort.imp₂ (fun a b hle hne => lt_of_le_of_ne hle hne) hdistinct

/-- **Lists that hold the same are sorted alike**, if their keys are distinct. -/
theorem Compares.mergeSort_eq_of_perm (h : Compares le key xs) (hkeys : (xs.map key).Nodup) (hperm : xs.Perm ys) :
    xs.mergeSort le = ys.mergeSort le := by
  have hys : Compares le key ys := h.subset hperm.symm.subset
  have hsame : (xs.mergeSort le).Perm (ys.mergeSort le) :=
    (List.mergeSort_perm xs le).trans (hperm.trans (List.mergeSort_perm ys le).symm)
  exact List.Perm.eq_of_pairwise (fun a b _ _ hab hba => absurd (hab.trans hba) (lt_irrefl _))
    (h.strictly_mergeSort hkeys) (hys.strictly_mergeSort ((hperm.map key).nodup_iff.1 hkeys)) hsame

/-- the first entries of a list in strict order are those with few members before them -/
theorem mem_take_iff_countP (h : xs.Pairwise fun a b => key a < key b) {a : α} (ha : a ∈ xs) (k : Nat) :
    a ∈ xs.take k ↔ xs.countP (fun b => key b < key a) < k := by
  induction xs generalizing k with
  | nil => cases ha
  | cons b rest ih =>
    obtain ⟨hfirst, hrest⟩ := List.pairwise_cons.1 h
    cases k with
    | zero => simp
    | succ k =>
      rcases List.mem_cons.1 ha with rfl | ha
      · have hnone : rest.countP (fun c => decide (key c < key a)) = 0 := by
          rw [List.countP_eq_zero]
          exact fun c hc => by simpa using (hfirst c hc).le
        simp [hnone]
      · have hbelow : key b < key a := hfirst a ha
        have hne : a ≠ b := fun heq => lt_irrefl _ (heq ▸ hbelow)
        rw [List.take_succ_cons, List.mem_cons, or_iff_right hne, ih hrest ha,
          List.countP_cons_of_pos (by simpa using hbelow), Nat.add_lt_add_iff_right]

end Sorting

/-! ## By weight and by age -/

namespace Weighed

/-- heaviest first, the lower name first among equals -/
def heavierKey (w : Weighed) : (ℤ ×ₗ ℤ ×ₗ ℤ)ᵒᵈ ×ₗ ℕ :=
  toLex (OrderDual.toDual (place w.2), w.1.number)

/-- lightest first, the lower name first among equals -/
def lighterKey (w : Weighed) : (ℤ ×ₗ ℤ ×ₗ ℤ) ×ₗ ℕ :=
  toLex (place w.2, w.1.number)

variable {rule : WeightRule} {robots : List Robot} {a b : Weighed}

theorem heavierFirst_iff (ha : a.2.isFinite = true) (hb : b.2.isFinite = true) :
    heavierFirst a b = true ↔ heavierKey a ≤ heavierKey b := by
  have hab := lt_iff_place ha hb
  have hba := lt_iff_place hb ha
  simp only [heavierFirst, heavierKey, Prod.Lex.toLex_le_toLex, OrderDual.toDual_lt_toDual, OrderDual.toDual_inj,
    Bool.or_eq_true, Bool.and_eq_true, Bool.not_eq_true', decide_eq_true_eq, decide_eq_false_iff_not, gt_iff_lt, hab, hba]
  grind

theorem lighterFirst_iff (ha : a.2.isFinite = true) (hb : b.2.isFinite = true) :
    lighterFirst a b = true ↔ lighterKey a ≤ lighterKey b := by
  have hab := lt_iff_place ha hb
  have hba := lt_iff_place hb ha
  simp only [lighterFirst, lighterKey, Prod.Lex.toLex_le_toLex, Bool.or_eq_true, Bool.and_eq_true, Bool.not_eq_true',
    decide_eq_true_eq, decide_eq_false_iff_not, gt_iff_lt, hab, hba]
  grind

/-- what robots weigh can be compared -/
theorem compares_heavierFirst (rule : WeightRule) (robots : List Robot) :
    Compares heavierFirst heavierKey (ofRobots rule robots) := by
  intro a ha b hb
  obtain ⟨r, -, rfl⟩ := List.mem_map.1 ha
  obtain ⟨o, -, rfl⟩ := List.mem_map.1 hb
  exact heavierFirst_iff (r.isFinite_weight rule) (o.isFinite_weight rule)

theorem compares_lighterFirst (rule : WeightRule) (robots : List Robot) :
    Compares lighterFirst lighterKey (ofRobots rule robots) := by
  intro a ha b hb
  obtain ⟨r, -, rfl⟩ := List.mem_map.1 ha
  obtain ⟨o, -, rfl⟩ := List.mem_map.1 hb
  exact lighterFirst_iff (r.isFinite_weight rule) (o.isFinite_weight rule)

end Weighed

namespace DeathRules

/-- oldest first, the lower name first among equals -/
def olderKey (r : Robot) : ℕᵒᵈ ×ₗ ℕ :=
  toLex (OrderDual.toDual r.outcomes, r.name.number)

theorem compares_olderFirst (robots : List Robot) : Compares olderFirst olderKey robots := by
  intro a _ b _
  simp only [olderFirst, olderKey, Prod.Lex.toLex_le_toLex, OrderDual.toDual_lt_toDual, OrderDual.toDual_inj,
    Bool.or_eq_true, Bool.and_eq_true, decide_eq_true_eq, @eq_comm _ b.outcomes]

end DeathRules

/-- a key that ends in the name tells robots with unique names apart -/
theorem nodup_map_key {α κ : Type} {name : α → RobotName} {key : α → κ ×ₗ ℕ} {xs : List α}
    (hkey : ∀ a, (ofLex (key a)).2 = (name a).number) (hu : (xs.map name).Nodup) : (xs.map key).Nodup := by
  refine List.Nodup.of_map (fun k => RobotName.mk (ofLex k).2) ?_
  have hnames : (xs.map key).map (fun k => RobotName.mk (ofLex k).2) = xs.map name := by
    rw [List.map_map]
    exact List.map_congr_left fun a _ => by rw [Function.comp_apply, hkey]
  rwa [hnames]

/-! ## The heaviest share -/

/-- stands before another in the order of weight: heavier, or as heavy with a lower name -/
def Robot.Outranks (rule : WeightRule) (r other : Robot) : Prop :=
  other.weight rule < r.weight rule ∨ ¬r.weight rule < other.weight rule ∧ r.name.number < other.name.number

instance (rule : WeightRule) (r other : Robot) : Decidable (r.Outranks rule other) :=
  inferInstanceAs (Decidable (_ ∨ _))

/-- how many robots stand before one in the order of weight -/
def Robot.rank (rule : WeightRule) (robots : List Robot) (r : Robot) : Nat :=
  robots.countP fun other => other.Outranks rule r

namespace DeathRules

variable {rules : DeathRules} {rule : WeightRule} {robots : List Robot}

theorem heavierKey_lt_iff (r other : Robot) :
    Weighed.heavierKey (r.name, r.weight rule) < Weighed.heavierKey (other.name, other.weight rule) ↔
      r.Outranks rule other := by
  have hlt := lt_iff_place (r.isFinite_weight rule) (other.isFinite_weight rule)
  have hgt := lt_iff_place (other.isFinite_weight rule) (r.isFinite_weight rule)
  simp only [Weighed.heavierKey, Robot.Outranks, Prod.Lex.toLex_lt_toLex, OrderDual.toDual_lt_toDual,
    OrderDual.toDual_inj, hlt, hgt]
  grind

/-- a robot's name and weight stand in a list of those of robots when the name does -/
theorem mem_of_name_mem (hu : (robots.map Robot.name).Nodup) {r : Robot} (hr : r ∈ robots) {ws : List Weighed}
    (hsub : ws ⊆ Weighed.ofRobots rule robots) : r.name ∈ ws.map Prod.fst ↔ (r.name, r.weight rule) ∈ ws := by
  constructor
  · intro hname
    obtain ⟨w, hw, hsame⟩ := List.mem_map.1 hname
    obtain ⟨other, hother, rfl⟩ := List.mem_map.1 (hsub hw)
    obtain rfl : other = r := List.inj_on_of_nodup_map hu hother hr hsame
    exact hw
  · exact fun hw => List.mem_map_of_mem hw

/-- how many of the weighed stand before a robot -/
theorem countP_heavierKey (r : Robot) :
    (Weighed.ofRobots rule robots).countP (fun w => w.heavierKey < Weighed.heavierKey (r.name, r.weight rule)) =
      r.rank rule robots := by
  rw [Weighed.ofRobots, List.countP_map, Robot.rank]
  refine List.countP_congr fun other _ => ?_
  simp only [Function.comp_apply, decide_eq_true_eq]
  exact heavierKey_lt_iff other r

/-- **The heaviest share of a population** are the robots outranked by few enough others. -/
theorem mem_best_iff (hu : (robots.map Robot.name).Nodup) {r : Robot} (hr : r ∈ robots) :
    r.name ∈ rules.best (Weighed.ofRobots rule robots) ↔ r.rank rule robots < rules.protectedCount robots.length := by
  have hkeys : ((Weighed.ofRobots rule robots).map Weighed.heavierKey).Nodup :=
    nodup_map_key (fun _ => rfl) (by rwa [map_fst_ofRobots])
  have hsorted := (Weighed.compares_heavierFirst rule robots).strictly_mergeSort hkeys
  have hperm := List.mergeSort_perm (Weighed.ofRobots rule robots) Weighed.heavierFirst
  have hmem : (r.name, r.weight rule) ∈ (Weighed.ofRobots rule robots).mergeSort Weighed.heavierFirst :=
    hperm.mem_iff.2 (List.mem_map_of_mem hr)
  have hlength : (Weighed.ofRobots rule robots).length = robots.length := List.length_map _
  rw [best, hlength, mem_of_name_mem hu hr fun w hw => hperm.subset (List.mem_of_mem_take hw),
    mem_take_iff_countP hsorted hmem, hperm.countP_eq, countP_heavierKey]

end DeathRules

end TradingRobots
