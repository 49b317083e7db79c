/-
Names of robots: who is found under one, and which ones the counter hands out.

Under unique names a lookup finds the very robot that the name was taken from. Newborns get consecutive names from the
counter, as long as it has any; the counter is a word, and past its last one it would hand out old names again.

`find?_name`: lookups under unique names.
`Grown.add`: a newborn, while the counter has names.
`WellNamed.grown`: growing keeps names unique and the counter ahead.
-/
import TradingRobots.Proofs.Population.Size

namespace TradingRobots

namespace Population

variable {p q : Population} {name : RobotName} {r : Robot} {count : Nat}

/-! ## Lookups -/

theorem mem_of_find? (h : p.find? name = some r) : r ∈ p.robots :=
  List.mem_of_find?_eq_some h

theorem name_of_find? (h : p.find? name = some r) : r.name = name := by
  simpa using List.find?_some h

theorem find?_eq_none_iff : p.find? name = none ↔ name ∉ p.names := by
  simp [find?, names, List.find?_eq_none]

/-- somebody is found under the name of a member -/
theorem exists_find? (h : r ∈ p.robots) : ∃ found, p.find? r.name = some found := by
  cases hfind : p.find? r.name with
  | none => exact absurd (List.mem_map_of_mem h) (find?_eq_none_iff.1 hfind)
  | some found => exact ⟨found, rfl⟩

/-- **Under unique names a member is found under its name.** -/
theorem find?_name (hu : p.names.Nodup) (h : r ∈ p.robots) : p.find? r.name = some r := by
  obtain ⟨found, hfound⟩ := exists_find? h
  have hsame : found = r := List.inj_on_of_nodup_map hu (mem_of_find? hfound) h (name_of_find? hfound)
  rw [hfound, hsame]

/-! ## The counter -/

theorem HasNames.mono {fewer : Nat} (h : p.HasNames count) (hle : fewer ≤ count) : p.HasNames fewer :=
  (Nat.add_le_add_left hle _).trans_lt h

theorem HasNames.counterAfter (h : p.HasNames count) : p.counterAfter count = p.nextName + count :=
  Nat.mod_eq_of_lt h

/-- so many names that the counter hands out next -/
def freshNames (p : Population) (count : Nat) : List RobotName :=
  (List.range' p.nextName count).map RobotName.mk

theorem mem_freshNames_iff :
    name ∈ p.freshNames count ↔ p.nextName ≤ name.number ∧ name.number < p.nextName + count := by
  unfold freshNames
  rw [List.mem_map]
  constructor
  · rintro ⟨n, hn, rfl⟩
    exact List.mem_range'_1.1 hn
  · intro h
    exact ⟨name.number, List.mem_range'_1.2 h, rfl⟩

theorem ascending_freshNames (p : Population) (count : Nat) :
    (p.freshNames count).Pairwise fun a b => a.number < b.number :=
  List.pairwise_map.2 List.pairwise_lt_range'

theorem nodup_freshNames (p : Population) (count : Nat) : (p.freshNames count).Nodup :=
  (ascending_freshNames p count).imp fun h he => Nat.ne_of_lt h (congrArg RobotName.number he)

/-! ## Growing populations -/

/-- a population to which so many newborns were added, each under a name from the counter -/
structure Grown (p : Population) (count : Nat) (q : Population) : Prop where
  names : q.names = p.names ++ p.freshNames count
  nextName : q.nextName = p.nextName + count

theorem Grown.refl (p : Population) : p.Grown 0 p :=
  ⟨(List.append_nil _).symm, rfl⟩

theorem Grown.trans {more : Nat} {s : Population} (h : p.Grown count q) (hrest : q.Grown more s) :
    p.Grown (count + more) s where
  names := by
    rw [hrest.names, h.names, List.append_assoc, freshNames, freshNames, freshNames, h.nextName, ← List.map_append,
      List.range'_append_1]
  nextName := by rw [hrest.nextName, h.nextName, Nat.add_assoc]

/-- what a population took from the counter is missing afterwards -/
theorem Grown.hasNames {more : Nat} (h : p.Grown count q) (hnames : p.HasNames (count + more)) : q.HasNames more := by
  unfold HasNames at hnames ⊢
  rwa [h.nextName, Nat.add_assoc]

/-- **A newborn comes last, under the name that the counter shows**, while the counter has one for it. -/
theorem Grown.add (h : p.Grown count q) (hnames : p.HasNames (count + 1)) (program : Program) (inherited : Float) :
    p.Grown (count + 1) (q.add program inherited).2 := by
  refine h.trans ⟨?_, (h.hasNames hnames).counterAfter⟩
  simp [Population.names, Population.add, Robot.new, freshNames]

theorem names_update (p : Population) (name : RobotName) {f : Robot → Robot} (hf : ∀ r, (f r).name = r.name) :
    (p.update name f).names = p.names :=
  map_name_updateFirst hf p.robots

theorem Grown.bear (h : p.Grown count q) (name : RobotName) : p.Grown count (q.update name Robot.bear) :=
  ⟨(names_update q name (f := Robot.bear) fun _ => rfl).trans h.names, h.nextName⟩

/-- newcomers grow a population by their number, while the counter has names for them -/
theorem grown_addManyRandom? {bounds : ProgramBounds} {s s' : Random.Stream} {newNames : List RobotName}
    (h : addManyRandom? bounds count p s = some (newNames, q, s')) (hnames : p.HasNames count) : p.Grown count q := by
  have hkept := (addManyRandom?_induction (motive := fun n q => p.HasNames n → p.Grown n q) (n := 0) ?_
    (fun _ => Grown.refl p) h).1
  · rw [Nat.zero_add] at hkept
    exact hkept hnames
  · intro n q program s s' hgrown _ hmore
    exact (hgrown (hmore.mono (Nat.le_succ n))).add hmore program 0.0

/-- a random population has grown from none -/
theorem grown_random? {bounds : ProgramBounds} {desiredSize : Nat} {s s' : Random.Stream}
    (h : random? desiredSize bounds s = some (p, s')) (hsize : desiredSize < Binary64.wordLimit) :
    (empty desiredSize).Grown desiredSize p := by
  obtain ⟨⟨newNames, q, s₁⟩, hmany, h⟩ := Option.bind_eq_some_iff.1 h
  simp only [Option.some.injEq, Prod.mk.injEq] at h
  obtain ⟨rfl, -⟩ := h
  refine grown_addManyRandom? hmany ?_
  show 0 + desiredSize < Binary64.wordLimit
  rwa [Nat.zero_add]

/-! ## Unique names below the counter -/

/-- names are unique and the counter is ahead of them -/
structure WellNamed (p : Population) : Prop where
  unique : p.names.Nodup
  ahead : ∀ name ∈ p.names, name.number < p.nextName

/-- names from a counter that is ahead are new -/
theorem WellNamed.nodup_fresh (h : p.WellNamed) (count : Nat) : (p.names ++ p.freshNames count).Nodup := by
  rw [List.nodup_append]
  refine ⟨h.unique, nodup_freshNames p count, ?_⟩
  rintro name hname other hother rfl
  have hlow := h.ahead name hname
  have hhigh := (mem_freshNames_iff.1 hother).1
  omega

/-- **Growing keeps names unique and the counter ahead.** -/
theorem WellNamed.grown (h : p.WellNamed) (hgrown : p.Grown count q) : q.WellNamed where
  unique := by
    rw [hgrown.names]
    exact h.nodup_fresh count
  ahead := by
    intro name hname
    rw [hgrown.names] at hname
    rw [hgrown.nextName]
    rcases List.mem_append.1 hname with hname | hname
    · exact (h.ahead name hname).trans_le (Nat.le_add_right _ _)
    · exact (mem_freshNames_iff.1 hname).2

theorem WellNamed.removeAll (h : p.WellNamed) (dead : List RobotName) : (p.removeAll dead).WellNamed where
  unique := (List.filter_sublist.map _).nodup h.unique
  ahead := fun name hname => h.ahead name ((List.filter_sublist.map _).subset hname)

theorem WellNamed.update (h : p.WellNamed) (name : RobotName) {f : Robot → Robot} (hf : ∀ r, (f r).name = r.name) :
    (p.update name f).WellNamed where
  unique := (names_update p name hf).symm ▸ h.unique
  ahead := by
    rw [names_update p name hf]
    exact h.ahead

theorem wellNamed_empty (desiredSize : Nat) : (empty desiredSize).WellNamed :=
  ⟨List.nodup_nil, fun _ h => absurd h List.not_mem_nil⟩

end Population

end TradingRobots
