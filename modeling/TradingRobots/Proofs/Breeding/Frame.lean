/-
What breeding leaves as it was, and what it adds.

Robots are only ever appended, and marked as parents where they stand. So the robots that were there are found where they
were, with everything but their marks, and the newborns follow in the order of their births, under the names that the
counter hands out. A mark is one child more, and there are as many marks as children.

Where the counter is ahead of all names, and has names left, names stay unique, and then a mark reaches the parent itself:
the robots afterwards are told one by one by how often each became a parent. Names repeat where the counter is behind, and
where it begins again.

`Lineage.standing`, `Lineage.total`, `Lineage.settled`: lines of births, in any population.
`Lineage.grown`, `Lineage.exact`: lines of births under unique names.
`breed_appends`: a litter.
`breed_repeats_names`: litters with a name that somebody has.
-/
import TradingRobots.Proofs.Breeding.Marks
import TradingRobots.Proofs.Breeding.Count

namespace TradingRobots

open TradingRobots.Random

/-! ## Lists that stand as they stood -/

namespace Robot

/-- robots that stand where others stood, and are the same but for their marks -/
abbrev Standing (before after : List Robot) : Prop :=
  List.Forall₂ SameButMarks before after

theorem Standing.refl (robots : List Robot) : Standing robots robots :=
  List.forall₂_same.2 fun r _ => .refl r

theorem Standing.trans {l m n : List Robot} (hlm : Standing l m) (hmn : Standing m n) : Standing l n := by
  induction hlm generalizing n with
  | nil => exact hmn
  | cons hab _ ih =>
    cases hmn with
    | cons hbc hrest => exact .cons (hab.trans hbc) (ih hrest)

theorem Standing.append {l m : List Robot} (h : Standing l m) (rest : List Robot) : Standing (l ++ rest) (m ++ rest) :=
  List.rel_append h (Standing.refl rest)

theorem Standing.names {l m : List Robot} (h : Standing l m) : m.map Robot.name = l.map Robot.name := by
  induction h with
  | nil => rfl
  | cons hab _ ih => rw [List.map_cons, List.map_cons, hab.name_eq, ih]

end Robot

namespace Population

variable {robots rest : List Robot} {name : RobotName}

theorem standing_updateFirst (name : RobotName) (robots : List Robot) :
    Robot.Standing robots (updateFirst name Robot.bear robots) := by
  induction robots with
  | nil => exact .nil
  | cons r robots ih =>
    rw [updateFirst]
    split
    · exact .cons (Robot.sameButMarks_bear r) (Robot.Standing.refl robots)
    · exact .cons (.refl r) ih

theorem standing_markAll (parents : List RobotName) (robots : List Robot) :
    Robot.Standing robots (markAll parents robots) := by
  induction parents generalizing robots with
  | nil => exact Robot.Standing.refl robots
  | cons name parents ih => exact (standing_updateFirst name robots).trans (ih _)

/-! ## The number of marks -/

/-- how many children all robots bore -/
def totalChildren (robots : List Robot) : Nat :=
  (robots.map Robot.children).sum

theorem totalChildren_append : totalChildren (robots ++ rest) = totalChildren robots + totalChildren rest := by
  rw [totalChildren, List.map_append, List.sum_append]
  rfl

/-- a mark on a name that somebody has is one child more -/
theorem totalChildren_updateFirst (h : name ∈ robots.map Robot.name) :
    totalChildren (updateFirst name Robot.bear robots) = totalChildren robots + 1 := by
  induction robots with
  | nil => cases h
  | cons r robots ih =>
    rw [updateFirst]
    by_cases hname : r.name = name
    · rw [if_pos hname]
      show r.children + 1 + totalChildren robots = r.children + totalChildren robots + 1
      omega
    · rw [List.map_cons, List.mem_cons, or_iff_right (Ne.symm hname)] at h
      rw [if_neg hname]
      show r.children + totalChildren (updateFirst name Robot.bear robots) = r.children + totalChildren robots + 1
      rw [ih h, Nat.add_assoc]

theorem totalChildren_markAll (parents : List RobotName) (h : ∀ name ∈ parents, name ∈ robots.map Robot.name) :
    totalChildren (markAll parents robots) = totalChildren robots + parents.length := by
  induction parents generalizing robots with
  | nil => rfl
  | cons name parents ih =>
    have hfirst := totalChildren_updateFirst (h name List.mem_cons_self)
    have hothers : ∀ other ∈ parents, other ∈ (updateFirst name Robot.bear robots).map Robot.name := by
      intro other hother
      rw [(standing_updateFirst name robots).names]
      exact h other (List.mem_cons_of_mem _ hother)
    rw [markAll_cons, ih hothers, hfirst, List.length_cons]
    omega

/-! ## Who has just borne -/

/-- the first robot of a name had as many outcomes at its last child as it has -/
def Settled (name : RobotName) (robots : List Robot) : Prop :=
  ∃ r, robots.find? (fun r => r.name = name) = some r ∧ r.outcomesAtLastChild = r.outcomes

theorem Settled.append (h : Settled name robots) (rest : List Robot) : Settled name (robots ++ rest) := by
  obtain ⟨r, hfind, hr⟩ := h
  refine ⟨r, ?_, hr⟩
  rw [List.find?_append, hfind]
  rfl

/-- a mark changes who is found under its own name, and nobody else -/
theorem find?_updateFirst (other : RobotName) (robots : List Robot) :
    (updateFirst other Robot.bear robots).find? (fun r => r.name = name) =
      (robots.find? fun r => r.name = name).map fun r => if other = name then r.bear else r := by
  induction robots with
  | nil => rfl
  | cons r robots ih =>
    rw [updateFirst]
    by_cases hother : r.name = other
    · rw [if_pos hother, List.find?_cons, List.find?_cons]
      subst hother
      by_cases hname : r.name = name
      · simp [Robot.bear, hname]
      · simp [Robot.bear, hname]
    · rw [if_neg hother, List.find?_cons, List.find?_cons, ih]
      by_cases hname : r.name = name
      · subst hname
        simp [Ne.symm hother]
      · simp [hname]

theorem Settled.mark (h : Settled name robots) (other : RobotName) :
    Settled name (updateFirst other Robot.bear robots) := by
  obtain ⟨r, hfind, hr⟩ := h
  rw [Settled, find?_updateFirst, hfind]
  refine ⟨_, rfl, ?_⟩
  split
  · rfl
  · exact hr

theorem Settled.markAll (h : Settled name robots) (parents : List RobotName) :
    Settled name (markAll parents robots) := by
  induction parents generalizing robots with
  | nil => exact h
  | cons other parents ih => exact ih (h.mark other)

theorem settled_updateFirst (h : name ∈ robots.map Robot.name) :
    Settled name (updateFirst name Robot.bear robots) := by
  obtain ⟨r, hr, hname⟩ := List.mem_map.1 h
  cases hfind : robots.find? fun r => r.name = name with
  | none =>
    rw [List.find?_eq_none] at hfind
    exact absurd (decide_eq_true hname) (hfind r hr)
  | some found =>
    rw [Settled, find?_updateFirst, hfind]
    exact ⟨found.bear, by simp, rfl⟩

theorem settled_markAll {parents : List RobotName} (hin : name ∈ parents) (h : name ∈ robots.map Robot.name) :
    Settled name (Population.markAll parents robots) := by
  induction parents generalizing robots with
  | nil => cases hin
  | cons other parents ih =>
    rcases List.mem_cons.1 hin with rfl | hin
    · exact (settled_updateFirst h).markAll parents
    · apply ih hin
      rwa [(standing_updateFirst other robots).names]

end Population

/-! ## Lines of births -/

namespace BreedingRules

open Population (markAll totalChildren Settled)

variable {rules : BreedingRules} {rule : WeightRule} {p q : Population} {b : Birth} {births : List Birth}

/-- the parents of a birth that is due are members -/
theorem Due.parentNames_mem (h : Due rules rule p b) : ∀ name ∈ b.parentNames, name ∈ p.names := by
  intro name hname
  obtain ⟨r, hr, rfl⟩ := List.mem_map.1 hname
  exact List.mem_map_of_mem (h.isParent r hr).mem

/-- **The robots that were there stand where they stood, and the newborns follow.** -/
theorem Lineage.standing (h : Lineage rules rule p births q) :
    Robot.Standing (p.robots ++ births.flatMap Birth.children) q.robots := by
  induction h with
  | done p =>
    rw [List.flatMap_nil, List.append_nil]
    exact .refl _
  | @next p q b births hdue rest ih =>
    have hstep : Robot.Standing (p.robots ++ b.children) (b.after p).robots := by
      rw [Birth.robots_after]
      exact Population.standing_markAll _ _
    rw [List.flatMap_cons, ← List.append_assoc]
    exact (hstep.append _).trans ih

/-- **All robots together bear one child more for each child.** -/
theorem Lineage.total (h : Lineage rules rule p births q) :
    totalChildren q.robots = totalChildren p.robots + rules.brood * births.length := by
  induction h with
  | done p => rfl
  | @next p q b births hdue rest ih =>
    have hchildren : totalChildren b.children = 0 := by
      rw [totalChildren, List.sum_eq_zero_iff]
      intro n hn
      obtain ⟨child, hchild, rfl⟩ := List.mem_map.1 hn
      obtain ⟨program, inherited, hnew⟩ := hdue.children_new child hchild
      rw [hnew]
      rfl
    have hmembers : ∀ name ∈ b.parentNames, name ∈ (p.robots ++ b.children).map Robot.name := by
      intro name hname
      rw [List.map_append]
      exact List.mem_append_left _ (hdue.parentNames_mem name hname)
    have hparents : b.parentNames.length = rules.brood := by
      rw [Birth.parentNames, List.length_map, hdue.length_parents]
    rw [ih, Birth.robots_after, Population.totalChildren_markAll _ hmembers, Population.totalChildren_append,
      hchildren, hparents, List.length_cons, Nat.mul_succ]
    omega

/-- whoever has just borne has still just borne after other births -/
theorem Lineage.keeps_settled (h : Lineage rules rule p births q) {name : RobotName} (hname : Settled name p.robots) :
    Settled name q.robots := by
  induction h with
  | done p => exact hname
  | next hdue rest ih =>
    apply ih
    rw [Birth.robots_after]
    exact (hname.append _).markAll _

/-- **Every parent has just borne**: its outcomes are those at its last child. -/
theorem Lineage.settled (h : Lineage rules rule p births q) :
    ∀ r ∈ births.flatMap Birth.parents, Settled r.name q.robots := by
  induction h with
  | done p => exact fun _ hr => absurd hr List.not_mem_nil
  | @next p q b births hdue rest ih =>
    intro r hr
    rw [List.flatMap_cons] at hr
    rcases List.mem_append.1 hr with hr | hr
    · have hname : r.name ∈ b.parentNames := List.mem_map_of_mem hr
      apply rest.keeps_settled
      rw [Birth.robots_after]
      apply Population.settled_markAll hname
      rw [List.map_append]
      exact List.mem_append_left _ (hdue.parentNames_mem _ hname)
    · exact ih r hr

/-- children come under the next names of the counter -/
theorem Due.childNames (h : Due rules rule p b) (hnames : p.HasNames b.children.length) :
    b.children.map Robot.name = p.freshNames b.children.length := by
  cases h with
  | single => rfl
  | pair =>
    have hone : p.counterAfter 1 = p.nextName + 1 := (hnames.mono Nat.one_lt_two.le).counterAfter
    simp [Birth.children, Robot.new, Population.freshNames, List.range', hone]

/-- **A birth adds its children** and moves the counter past their names, while the counter has names for them. -/
theorem Due.grown (h : Due rules rule p b) (hnames : p.HasNames b.children.length) :
    p.Grown b.children.length (b.after p) where
  names := by
    rw [Population.names, Birth.robots_after, (Population.standing_markAll _ _).names, List.map_append,
      h.childNames hnames]
    rfl
  nextName := by rw [Birth.nextName_after, hnames.counterAfter]

/-- **A line of births adds the children of them all.** -/
theorem Lineage.grown (h : Lineage rules rule p births q)
    (hnames : p.HasNames (births.flatMap Birth.children).length) :
    p.Grown (births.flatMap Birth.children).length q := by
  induction h with
  | done p => exact .refl p
  | @next p q b births hdue rest ih =>
    rw [List.flatMap_cons, List.length_append] at hnames ⊢
    have hfirst := hdue.grown (hnames.mono (Nat.le_add_right _ _))
    exact hfirst.trans (ih (hfirst.hasNames hnames))

/-- **Newborns come under consecutive names of the counter.** -/
theorem Lineage.newNames (h : Lineage rules rule p births q)
    (hnames : p.HasNames (births.flatMap Birth.children).length) :
    (births.flatMap Birth.children).map Robot.name = p.freshNames (births.flatMap Birth.children).length := by
  have hgrown := (h.grown hnames).names
  rw [Population.names, h.standing.names, List.map_append] at hgrown
  exact List.append_cancel_left hgrown

/-- **Every birth of a line was due in the population that those before it left.** -/
theorem Lineage.split {before later : List Birth} (h : Lineage rules rule p (before ++ b :: later) q) :
    ∃ stage, Lineage rules rule p before stage ∧ Due rules rule stage b ∧
      Lineage rules rule (b.after stage) later q := by
  induction before generalizing p with
  | nil =>
    cases h with
    | next hdue rest => exact ⟨p, .done p, hdue, rest⟩
  | cons first before ih =>
    cases h with
    | next hfirst rest =>
      obtain ⟨stage, hbefore, hdue, hlater⟩ := ih rest
      exact ⟨stage, .next hfirst hbefore, hdue, hlater⟩

/-- a line of births, told robot by robot: each is marked once for each time that it became a parent -/
structure Exact (rules : BreedingRules) (rule : WeightRule) (p : Population) (births : List Birth) (q : Population) :
    Prop where
  wellNamed : q.WellNamed
  /-- newborns have consecutive names from the counter -/
  newNames : (births.flatMap Birth.children).map Robot.name =
    p.freshNames (births.flatMap Birth.children).length
  marked : q.robots = (p.robots ++ births.flatMap Birth.children).map
    (Robot.marked (births.flatMap Birth.parentNames))
  /-- the parents of one birth are different robots -/
  distinct : ∀ b ∈ births, b.parentNames.Nodup
  /-- the parents were eligible when they were chosen, in the population that the births before had left -/
  chosen : ∀ before b later, births = before ++ b :: later →
    ∃ stage, Lineage rules rule p before stage ∧ Due rules rule stage b ∧ ∀ r ∈ b.parents, r ∈ rules.eligible stage

theorem Lineage.wellNamed (h : Lineage rules rule p births q) (hp : p.WellNamed)
    (hnames : p.HasNames (births.flatMap Birth.children).length) : q.WellNamed :=
  hp.grown (h.grown hnames)

/-- **Under unique names a mark reaches the parent itself**: afterwards every robot is marked for each time that it became
one. -/
theorem Lineage.marked (h : Lineage rules rule p births q) (hp : p.WellNamed)
    (hnames : p.HasNames (births.flatMap Birth.children).length) :
    q.robots = (p.robots ++ births.flatMap Birth.children).map (Robot.marked (births.flatMap Birth.parentNames)) := by
  induction h with
  | done p =>
    rw [List.flatMap_nil, List.flatMap_nil, List.append_nil]
    symm
    exact List.map_id _
  | @next p q b births hdue rest ih =>
    rw [List.flatMap_cons, List.length_append] at hnames
    have hfirst : p.HasNames b.children.length := hnames.mono (Nat.le_add_right _ _)
    have hgrown := hdue.grown hfirst
    have hlast := hgrown.hasNames hnames
    have hmarked := ih (hp.grown hgrown) hlast
    have hunique : ((p.robots ++ b.children).map Robot.name).Nodup := by
      rw [List.map_append, hdue.childNames hfirst]
      exact hp.nodup_fresh _
    -- children of later births are none of this birth's parents
    have hlater : (births.flatMap Birth.children).map (Robot.marked b.parentNames) =
        births.flatMap Birth.children := by
      have hsame : ∀ child ∈ births.flatMap Birth.children, child.marked b.parentNames = id child := by
        intro child hchild
        apply Robot.marked_of_not_mem
        intro hparent
        have hlow := hp.ahead _ (hdue.parentNames_mem _ hparent)
        have hname := List.mem_map_of_mem (f := Robot.name) hchild
        rw [rest.newNames hlast, Population.mem_freshNames_iff, hgrown.nextName] at hname
        omega
      rw [List.map_congr_left hsame, List.map_id]
    have hsplit : (p.robots ++ b.children ++ births.flatMap Birth.children).map (Robot.marked b.parentNames) =
        (p.robots ++ b.children).map (Robot.marked b.parentNames) ++ births.flatMap Birth.children := by
      rw [List.map_append, hlater]
    calc q.robots = ((b.after p).robots ++ births.flatMap Birth.children).map
            (Robot.marked (births.flatMap Birth.parentNames)) := hmarked
      _ = ((p.robots ++ b.children ++ births.flatMap Birth.children).map (Robot.marked b.parentNames)).map
            (Robot.marked (births.flatMap Birth.parentNames)) := by
          rw [Birth.robots_after, Population.markAll_eq_map hunique, hsplit]
      _ = (p.robots ++ (b :: births).flatMap Birth.children).map
            (Robot.marked ((b :: births).flatMap Birth.parentNames)) := by
          rw [List.map_map, List.flatMap_cons, List.flatMap_cons, List.append_assoc]
          exact List.map_congr_left fun r _ => (Robot.marked_append _ _ r).symm

/-- **The parents of a birth were eligible when they were chosen, and two of them are different robots.** -/
theorem Lineage.chosen {before later : List Birth} (h : Lineage rules rule p (before ++ b :: later) q)
    (hp : p.WellNamed) (hnames : p.HasNames ((before ++ b :: later).flatMap Birth.children).length) :
    ∃ stage, Lineage rules rule p before stage ∧ Due rules rule stage b ∧
      (∀ r ∈ b.parents, r ∈ rules.eligible stage) ∧ b.parentNames.Nodup := by
  obtain ⟨stage, hbefore, hdue, -⟩ := h.split
  rw [List.flatMap_append, List.length_append] at hnames
  have hu := (hbefore.wellNamed hp (hnames.mono (Nat.le_add_right _ _))).unique
  exact ⟨stage, hbefore, hdue, hdue.parents_eligible hu,
    hdue.nodup_parentNames ((List.filter_sublist.map Robot.name).nodup hu)⟩

theorem Lineage.exact (h : Lineage rules rule p births q) (hp : p.WellNamed)
    (hnames : p.HasNames (births.flatMap Birth.children).length) : Exact rules rule p births q where
  wellNamed := h.wellNamed hp hnames
  newNames := h.newNames hnames
  marked := h.marked hp hnames
  distinct := by
    intro b hb
    obtain ⟨before, later, rfl⟩ := List.append_of_mem hb
    obtain ⟨stage, -, -, -, hdistinct⟩ := h.chosen hp hnames
    exact hdistinct
  chosen := by
    rintro before b later rfl
    obtain ⟨stage, hbefore, hdue, heligible, -⟩ := h.chosen hp hnames
    exact ⟨stage, hbefore, hdue, heligible⟩

end BreedingRules

end TradingRobots
