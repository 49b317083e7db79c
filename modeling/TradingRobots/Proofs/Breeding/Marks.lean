/-
Marks of parenthood. A birth marks its parents, by name: one more child, and the outcomes at that time. Everything else
of every robot stays as it was, and where it was.

With unique names a mark reaches the parent and nobody else, so many marks are told by how often each name was among the
parents.

`markAll_eq_map`: marks by name, told robot by robot.
`robots_after`: the robots after a birth.
-/
import TradingRobots.Proofs.Breeding.Lineage

namespace TradingRobots

/-! ## Marks by name -/

namespace Robot

/-- the same robot, but for the marks of parenthood -/
def SameButMarks (a b : Robot) : Prop :=
  b = { a with children := b.children, outcomesAtLastChild := b.outcomesAtLastChild }

theorem SameButMarks.refl (r : Robot) : SameButMarks r r := rfl

theorem SameButMarks.trans {a b c : Robot} (hab : SameButMarks a b) (hbc : SameButMarks b c) : SameButMarks a c := by
  unfold SameButMarks at hab hbc ⊢
  rw [hab] at hbc
  exact hbc

theorem sameButMarks_bear (r : Robot) : SameButMarks r r.bear := rfl

theorem SameButMarks.name_eq {a b : Robot} (h : SameButMarks a b) : b.name = a.name := by
  rw [h]

/-- a robot marked once for each time that its name is among the parents -/
def marked (parents : List RobotName) (r : Robot) : Robot :=
  Robot.bear^[parents.count r.name] r

theorem sameButMarks_iterate (r : Robot) (k : Nat) : SameButMarks r (Robot.bear^[k] r) := by
  induction k with
  | zero => exact .refl r
  | succ k ih =>
    rw [Function.iterate_succ_apply']
    exact ih.trans (sameButMarks_bear _)

theorem name_marked (parents : List RobotName) (r : Robot) : (r.marked parents).name = r.name :=
  (sameButMarks_iterate r _).name_eq

theorem marked_of_not_mem {parents : List RobotName} {r : Robot} (h : r.name ∉ parents) : r.marked parents = r := by
  rw [marked, List.count_eq_zero_of_not_mem h]
  rfl

/-- the marks of some parents, and then of others -/
theorem marked_append (first second : List RobotName) (r : Robot) :
    r.marked (first ++ second) = (r.marked first).marked second := by
  rw [marked, marked, name_marked, marked, List.count_append, Nat.add_comm, Function.iterate_add_apply]

end Robot

namespace Population

variable {robots rest : List Robot} {name : RobotName}

/-- with unique names, a mark reaches the robot of the name and nobody else -/
theorem updateFirst_bear (hu : (robots.map Robot.name).Nodup) :
    updateFirst name Robot.bear robots = robots.map (Robot.marked [name]) := by
  induction robots with
  | nil => rfl
  | cons r robots ih =>
    rw [List.map_cons, List.nodup_cons] at hu
    rw [updateFirst, List.map_cons]
    by_cases hname : r.name = name
    · have hothers : robots.map (Robot.marked [name]) = robots := by
        have hsame : ∀ o ∈ robots, o.marked [name] = id o := by
          intro o ho
          apply Robot.marked_of_not_mem
          rw [List.mem_singleton, ← hname]
          intro he
          exact hu.1 (he ▸ List.mem_map_of_mem ho)
        rw [List.map_congr_left hsame, List.map_id]
      rw [if_pos hname, hothers, Robot.marked, hname, List.count_singleton_self]
      rfl
    · have hunmarked : r.marked [name] = r := Robot.marked_of_not_mem (by rwa [List.mem_singleton])
      rw [if_neg hname, ih hu.2, hunmarked]

theorem map_name_marked (parents : List RobotName) (robots : List Robot) :
    (robots.map (Robot.marked parents)).map Robot.name = robots.map Robot.name := by
  rw [List.map_map]
  exact List.map_congr_left fun r _ => Robot.name_marked parents r

/-- marks by name, one after the other -/
def markAll (parents : List RobotName) (robots : List Robot) : List Robot :=
  parents.foldl (fun robots name => updateFirst name Robot.bear robots) robots

theorem markAll_cons (name : RobotName) (parents : List RobotName) (robots : List Robot) :
    markAll (name :: parents) robots = markAll parents (updateFirst name Robot.bear robots) := rfl

/-- **With unique names, marks are told robot by robot**: by how often its name is among the parents. -/
theorem markAll_eq_map (hu : (robots.map Robot.name).Nodup) (parents : List RobotName) :
    markAll parents robots = robots.map (Robot.marked parents) := by
  induction parents generalizing robots with
  | nil =>
    symm
    exact List.map_id _
  | cons name parents ih =>
    have hkept : ((robots.map (Robot.marked [name])).map Robot.name).Nodup := by rwa [map_name_marked]
    rw [markAll_cons, updateFirst_bear hu, ih hkept, List.map_map]
    exact List.map_congr_left fun r _ => (Robot.marked_append [name] parents r).symm

end Population

/-! ## The robots after a birth -/

namespace BreedingRules.Birth

variable {p : Population}

/-- the names of the parents -/
def parentNames (b : Birth) : List RobotName :=
  b.parents.map Robot.name

/-- **After a birth** the children stand last, and the robots with the parents' names are marked. -/
theorem robots_after (p : Population) (b : Birth) :
    (b.after p).robots = Population.markAll b.parentNames (p.robots ++ b.children) := by
  unfold after parentNames Population.markAll
  rw [List.foldl_map]
  -- an update only changes the list of robots
  generalize hq : (⟨p.desiredSize, p.counterAfter b.children.length, p.robots ++ b.children⟩ : Population) = q
  rw [show p.robots ++ b.children = q.robots by rw [← hq]]
  clear hq
  induction b.parents generalizing q with
  | nil => rfl
  | cons r parents ih =>
    rw [List.foldl_cons, List.foldl_cons, ih]
    rfl

theorem nextName_after (p : Population) (b : Birth) : (b.after p).nextName = p.counterAfter b.children.length := by
  cases b <;> rfl

end BreedingRules.Birth

end TradingRobots
