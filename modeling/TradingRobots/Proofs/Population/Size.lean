/-
How the operations of a population change its size, its names and what it wants.

The wanted size never changes. An addition adds one robot, an update none, and a removal of distinct names that are all
there takes exactly so many robots away.
-/
import TradingRobots.Population
import TradingRobots.Proofs.Program.Admitted

namespace TradingRobots.Population

variable {p : Population}

/-! ## Additions and updates -/

@[simp]
theorem desiredSize_add (program : Program) (inherited : Float) :
    (p.add program inherited).2.desiredSize = p.desiredSize := rfl

@[simp]
theorem size_add (program : Program) (inherited : Float) : (p.add program inherited).2.size = p.size + 1 := by
  simp [add, size]

theorem length_updateFirst (name : RobotName) (f : Robot → Robot) (robots : List Robot) :
    (updateFirst name f robots).length = robots.length := by
  induction robots with
  | nil => rfl
  | cons r rest ih =>
    rw [updateFirst]
    split
    · rfl
    · simp [ih]

/-- every robot of an updated list is one that was there, or one that was there changed -/
theorem mem_updateFirst {name : RobotName} {f : Robot → Robot} {robots : List Robot} {r : Robot}
    (h : r ∈ updateFirst name f robots) : r ∈ robots ∨ ∃ r' ∈ robots, r = f r' := by
  induction robots with
  | nil => cases h
  | cons x rest ih =>
    rw [updateFirst] at h
    split at h
    · rcases List.mem_cons.1 h with rfl | h
      · exact Or.inr ⟨x, List.mem_cons_self, rfl⟩
      · exact Or.inl (List.mem_cons_of_mem x h)
    · rcases List.mem_cons.1 h with rfl | h
      · exact Or.inl List.mem_cons_self
      · rcases ih h with h | ⟨r', hr', he⟩
        · exact Or.inl (List.mem_cons_of_mem x h)
        · exact Or.inr ⟨r', List.mem_cons_of_mem x hr', he⟩

theorem map_name_updateFirst {name : RobotName} {f : Robot → Robot} (hf : ∀ r, (f r).name = r.name)
    (robots : List Robot) : (updateFirst name f robots).map Robot.name = robots.map Robot.name := by
  induction robots with
  | nil => rfl
  | cons r rest ih =>
    rw [updateFirst]
    split
    · simp [hf]
    · simp [ih]

@[simp]
theorem desiredSize_update (name : RobotName) (f : Robot → Robot) : (p.update name f).desiredSize = p.desiredSize := rfl

@[simp]
theorem size_update (name : RobotName) (f : Robot → Robot) : (p.update name f).size = p.size :=
  length_updateFirst name f p.robots

/-! ## Removals -/

@[simp]
theorem desiredSize_removeAll (dead : List RobotName) : (p.removeAll dead).desiredSize = p.desiredSize := rfl

theorem size_removeAll_le (dead : List RobotName) : (p.removeAll dead).size ≤ p.size :=
  List.length_filter_le _ _

/-- distinct names that are all there are as many as the robots they take away -/
theorem length_filter_names {robots : List Robot} {dead : List RobotName} (hu : (robots.map Robot.name).Nodup)
    (hd : dead.Nodup) (hsub : ∀ n ∈ dead, n ∈ robots.map Robot.name) :
    (robots.filter fun r => !dead.contains r.name).length + dead.length = robots.length := by
  have hperm : ((robots.filter fun r => dead.contains r.name).map Robot.name).Perm dead := by
    rw [List.perm_ext_iff_of_nodup ((List.filter_sublist.map _).nodup hu) hd]
    intro n
    simp only [List.mem_map, List.mem_filter, List.contains_iff_mem]
    constructor
    · rintro ⟨r, ⟨-, hr⟩, rfl⟩
      exact hr
    · intro hn
      obtain ⟨r, hr, rfl⟩ := List.mem_map.1 (hsub n hn)
      exact ⟨r, ⟨hr, hn⟩, rfl⟩
  have hlen : (robots.filter fun r => dead.contains r.name).length = dead.length := by
    rw [← hperm.length_eq, List.length_map]
  have hsplit := List.length_eq_length_filter_add (l := robots) fun r => dead.contains r.name
  omega

theorem size_removeAll {dead : List RobotName} (hu : p.names.Nodup) (hd : dead.Nodup) (hsub : ∀ n ∈ dead, n ∈ p.names) :
    (p.removeAll dead).size + dead.length = p.size :=
  length_filter_names hu hd hsub

/-! ## Random newcomers -/

open TradingRobots.Random

theorem addRandom?_eq_some {bounds : ProgramBounds} {s : Stream} {name : RobotName} {q : Population} {s' : Stream}
    (h : p.addRandom? bounds s = some (name, q, s')) :
    ∃ program, bounds.randomProgram? s = some (program, s') ∧ (name, q) = p.add program 0.0 := by
  obtain ⟨⟨program, s₁⟩, hp, h⟩ := Option.bind_eq_some_iff.1 h
  simp only [Option.some.injEq, Prod.mk.injEq] at h
  obtain ⟨rfl, rfl, rfl⟩ := h
  exact ⟨program, hp, rfl⟩

/-- a property that additions of drawn programs keep holds after any number of random newcomers -/
theorem addManyRandom?_induction {bounds : ProgramBounds} {motive : Nat → Population → Prop}
    (step : ∀ n q program s s', motive n q → bounds.randomProgram? s = some (program, s') →
      motive (n + 1) (q.add program 0.0).2)
    {count n : Nat} {s s' : Stream} {names : List RobotName} {q : Population} (start : motive n p)
    (h : addManyRandom? bounds count p s = some (names, q, s')) :
    motive (n + count) q ∧ names.length = count := by
  induction count generalizing n p s names with
  | zero =>
    simp only [addManyRandom?, Option.some.injEq, Prod.mk.injEq] at h
    obtain ⟨rfl, rfl, -⟩ := h
    exact ⟨start, rfl⟩
  | succ count ih =>
    obtain ⟨⟨name, p₁, s₁⟩, hone, h⟩ := Option.bind_eq_some_iff.1 h
    obtain ⟨⟨rest, p₂, s₂⟩, hrest, h⟩ := Option.bind_eq_some_iff.1 h
    simp only [Option.some.injEq, Prod.mk.injEq] at h
    obtain ⟨rfl, rfl, rfl⟩ := h
    obtain ⟨program, hp, hadd⟩ := addRandom?_eq_some hone
    have hmid : motive (n + 1) p₁ := by
      rw [show p₁ = (p.add program 0.0).2 from congrArg Prod.snd hadd]
      exact step n p program s s₁ start hp
    obtain ⟨hm, hlen⟩ := ih hmid hrest
    refine ⟨?_, by simp [hlen]⟩
    rwa [show n + (count + 1) = n + 1 + count by omega]

theorem exists_addRandom? {bounds : ProgramBounds} (h : bounds.Drawable) (p : Population) (s : Stream) :
    ∃ name q s', p.addRandom? bounds s = some (name, q, s') := by
  obtain ⟨program, s', hp⟩ := ProgramBounds.exists_randomProgram? h s
  exact ⟨(p.add program 0.0).1, (p.add program 0.0).2, s', by simp [addRandom?, hp]⟩

/-- newcomers come whenever programs can be drawn, or none are asked for -/
theorem exists_addManyRandom? {bounds : ProgramBounds} {count : Nat} (h : 0 < count → bounds.Drawable) (p : Population)
    (s : Stream) : ∃ names q s', addManyRandom? bounds count p s = some (names, q, s') := by
  induction count generalizing p s with
  | zero => exact ⟨[], p, s, rfl⟩
  | succ count ih =>
    have hdraw := h (Nat.succ_pos count)
    obtain ⟨name, p₁, s₁, hone⟩ := exists_addRandom? hdraw p s
    obtain ⟨names, p₂, s₂, hrest⟩ := ih (fun _ => hdraw) p₁ s₁
    exact ⟨name :: names, p₂, s₂, by simp [addManyRandom?, hone, hrest]⟩

end TradingRobots.Population
