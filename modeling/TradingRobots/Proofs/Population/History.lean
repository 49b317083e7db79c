/-
The names in the history of a population.

A newborn gets the counter as its name and moves the counter on; a robot that is put in under its own name moves the
counter past that name. So as long as it has names, the counter stays above every name that ever was in the population,
whoever died since, and what it hands out is new. Without robots put in by hand the names also ascend in population order,
since newborns come last and removals keep the order.

`happen?_cases`: what can happen to the names, said once for all happenings.
`History.Kept.next?`: one happening keeps the names unique and the counter ahead of all that ever lived.
`names_never_return`: after any history names are unique, the counter is ahead, and new names are new to the history.
-/
import TradingRobots.Cycle
import TradingRobots.Random.Sources
import TradingRobots.Proofs.Breeding.Births
import TradingRobots.Proofs.Population.Sound
import TradingRobots.Proofs.Weight.Sound

namespace TradingRobots

open TradingRobots.Random

theorem Robot.name_call (r : Robot) (c : Call) : (r.call c).name = r.name := by
  cases c with
  | predict dataset signal => exact name_predict dataset signal
  | resolve dataset change threshold => exact name_resolve dataset change threshold

namespace Population

variable {p q : Population} {s s' : Stream} {count : Nat}

/-! ## Births and newcomers -/

/-- a litter grows a population by its children, while the counter has names for them -/
theorem grown_breed (rules : BreedingRules) (rule : WeightRule) (slots : Nat) (g : Growth)
    (hnames : g.population.HasNames (rules.breed rule slots g).born) :
    g.population.Grown (rules.breed rule slots g).born (rules.breed rule slots g).growth.population := by
  refine (BreedingRules.breed_kept (motive := fun n q => g.population.HasNames n → g.population.Grown n q) ⟨?_, ?_⟩ slots
    (fun _ => Grown.refl _)).2 hnames
  · intro n g' hgrown hborn hmore
    obtain ⟨parent, -, s, hp⟩ := BreedingRules.breedOne_eq_true hborn
    rw [hp]
    exact ((hgrown (hmore.mono (Nat.le_succ n))).add hmore _ _).bear _
  · intro n g' hgrown hborn hmore
    obtain ⟨first, -, second, -, s, s₁, s₂, hp⟩ := BreedingRules.breedPair_eq_true hborn
    have hfewer : g.population.HasNames (n + 1) := hmore.mono (Nat.le_succ _)
    rw [hp, BreedingRules.afterPair]
    exact ((((hgrown (hfewer.mono (Nat.le_succ n))).add hfewer _ _).add hmore _ _).bear _).bear _

/-- newcomers grow a population by their number, while the counter has names for them -/
theorem grown_inject? {rules : BreedingRules} {g g' : Growth} (h : rules.inject? count g = some g')
    (hnames : g.population.HasNames count) : g.population.Grown count g'.population := by
  obtain ⟨⟨newNames, q, s⟩, hmany, h⟩ := Option.bind_eq_some_iff.1 h
  cases h
  exact grown_addManyRandom? hmany hnames

theorem grown_addRandom? {bounds : ProgramBounds} {name : RobotName} (h : p.addRandom? bounds s = some (name, q, s'))
    (hnames : p.HasNames 1) : p.Grown 1 q := by
  obtain ⟨program, -, hadd⟩ := addRandom?_eq_some h
  rw [show q = (p.add program 0.0).2 from congrArg Prod.snd hadd]
  exact (Grown.refl p).add hnames program 0.0

/-! ## Robots under their own names -/

/-- a robot whose name is taken is turned away -/
theorem insert_of_taken {r : Robot} (h : r.name ∈ p.names) : p.insert r = (.error (.taken r.name), p) := by
  unfold insert
  cases hfind : p.find? r.name with
  | some other => rfl
  | none => exact absurd h (find?_eq_none_iff.1 hfind)

/-- **A robot that is turned away leaves the population as it was.** -/
theorem insert_refused {r : Robot} {e : PopulationDefect} (h : (p.insert r).1 = .error e) : (p.insert r).2 = p := by
  unfold insert at h ⊢
  cases hfind : p.find? r.name with
  | some other => rfl
  | none =>
    rw [hfind] at h
    dsimp only at h ⊢
    split at h
    · cases h
    · rename_i hlast
      rw [if_neg hlast]

/-- a robot that is let in comes last, and the counter is ahead of it -/
theorem insert_eq_ok {r : Robot} (h : p.insert r = (.ok (), q)) :
    r.name ∉ p.names ∧ q.names = p.names ++ [r.name] ∧ q.nextName = max p.nextName (r.name.number + 1) := by
  unfold insert at h
  cases hfind : p.find? r.name with
  | some other =>
    rw [hfind] at h
    cases h
  | none =>
    rw [hfind] at h
    dsimp only at h
    split at h
    · cases h
      exact ⟨find?_eq_none_iff.1 hfind, by simp [names], rfl⟩
    · cases h

/-! ## Happenings -/

/-- what may happen to a population; what robots record may happen in between -/
inductive Happening where
  | add (program : Program) (inherited : Float)
  | addRandom (bounds : ProgramBounds)
  | insert (r : Robot)
  | removeAll (dead : List RobotName)
  | kill (rules : DeathRules) (rule : WeightRule)
  | breed (rules : BreedingRules) (rule : WeightRule) (slots : Nat)
  | inject (rules : BreedingRules) (count : Nat)
  | record (name : RobotName) (call : Robot.Call)

/-- the population after a happening, and the stream; there is no outcome when random programs are due that cannot be
drawn -/
def happen? (p : Population) (s : Stream) : Happening → Option (Population × Stream)
  | .add program inherited => some ((p.add program inherited).2, s)
  | .addRandom bounds => (p.addRandom? bounds s).map Prod.snd
  | .insert r => some ((p.insert r).2, s)
  | .removeAll dead => some (p.removeAll dead, s)
  | .kill rules rule => some (rules.kill rule p s).2
  | .breed rules rule slots =>
    let litter := rules.breed rule slots ⟨p, s, []⟩
    some (litter.growth.population, litter.growth.stream)
  | .inject rules count => (rules.inject? count ⟨p, s, []⟩).map fun g => (g.population, g.stream)
  | .record name call => some (p.update name fun r => r.call call, s)

/-- names after a happening: those kept, in their order, then names from the counter, which is moved past them -/
structure Renewed (p : Population) (count : Nat) (q : Population) : Prop where
  names : ∃ kept, kept.Sublist p.names ∧ q.names = kept ++ p.freshNames count
  nextName : q.nextName = p.nextName + count

theorem Grown.renewed (h : p.Grown count q) : p.Renewed count q :=
  ⟨⟨p.names, List.Sublist.refl _, h.names⟩, h.nextName⟩

theorem renewed_removeAll (p : Population) (dead : List RobotName) : p.Renewed 0 (p.removeAll dead) :=
  ⟨⟨_, List.filter_sublist.map _, (List.append_nil _).symm⟩, rfl⟩

/-- how many names the counter hands out in a happening -/
def handedOut (p : Population) (s : Stream) : Happening → Nat
  | .add _ _ => 1
  | .addRandom _ => 1
  | .breed rules rule slots => (rules.breed rule slots ⟨p, s, []⟩).born
  | .inject _ count => count
  | _ => 0

/-- **What can happen to the names**, while the counter has any: a robot comes in under its own name, which was free, or
the names are renewed from the counter. -/
theorem happen?_cases {x : Happening} (hnames : p.HasNames (p.handedOut s x)) (h : p.happen? s x = some (q, s')) :
    (∃ r, x = .insert r ∧ p.insert r = (.ok (), q)) ∨ p.Renewed (p.handedOut s x) q := by
  cases x with
  | add program inherited =>
    cases h
    exact Or.inr ((Grown.refl p).add hnames program inherited).renewed
  | addRandom bounds =>
    obtain ⟨⟨name, q', s₁⟩, hadd, h⟩ := Option.map_eq_some_iff.1 h
    cases h
    exact Or.inr (grown_addRandom? hadd hnames).renewed
  | insert r =>
    cases h
    cases hresult : (p.insert r).1 with
    | ok => exact Or.inl ⟨r, rfl, Prod.ext hresult rfl⟩
    | error e =>
      rw [insert_refused hresult]
      exact Or.inr (Grown.refl p).renewed
  | removeAll dead =>
    cases h
    exact Or.inr (renewed_removeAll p dead)
  | kill rules rule =>
    cases h
    exact Or.inr (renewed_removeAll p _)
  | breed rules rule slots =>
    cases h
    exact Or.inr (grown_breed rules rule slots ⟨p, s, []⟩ hnames).renewed
  | inject rules count =>
    obtain ⟨g, hg, h⟩ := Option.map_eq_some_iff.1 h
    cases h
    exact Or.inr (grown_inject? hg hnames).renewed
  | record name call =>
    cases h
    refine Or.inr (Grown.renewed ⟨?_, rfl⟩)
    rw [names_update p name fun r => r.name_call call]
    exact (List.append_nil _).symm

/-! ## Histories -/

/-- a population after what happened to it, with the names of all robots that were ever in it -/
structure History where
  population : Population
  stream : Stream
  lived : List RobotName

namespace History

/-- nothing has happened yet -/
def start (p : Population) (s : Stream) : History :=
  ⟨p, s, p.names⟩

def next? (h : History) (x : Happening) : Option History :=
  (h.population.happen? h.stream x).map fun after => ⟨after.1, after.2, h.lived ++ after.1.names⟩

/-- happenings one after the other -/
def run? : List Happening → History → Option History
  | [], h => some h
  | x :: rest, h => (h.next? x).bind (run? rest)

/-- the counter has names for all that are handed out in a history -/
def Lasts : List Happening → History → Prop
  | [], _ => True
  | x :: rest, h => h.population.HasNames (h.population.handedOut h.stream x) ∧ ∀ h' ∈ h.next? x, Lasts rest h'

instance decidableLasts : (happenings : List Happening) → DecidablePred (Lasts happenings)
  | [], _ => inferInstanceAs (Decidable True)
  | x :: rest, h =>
    have : DecidablePred (Lasts rest) := decidableLasts rest
    inferInstanceAs (Decidable (h.population.HasNames _ ∧ ∀ h' ∈ h.next? x, Lasts rest h'))

/-- names are unique, and the counter is ahead of all that ever lived -/
structure Kept (h : History) : Prop where
  unique : h.population.names.Nodup
  ahead : ∀ name ∈ h.lived, name.number < h.population.nextName
  live : ∀ name ∈ h.population.names, name ∈ h.lived

variable {h h' : History} {x : Happening}

theorem next?_eq_some (hx : h.next? x = some h') :
    ∃ q s', h.population.happen? h.stream x = some (q, s') ∧ h' = ⟨q, s', h.lived ++ q.names⟩ := by
  obtain ⟨⟨q, s'⟩, hq, rfl⟩ := Option.map_eq_some_iff.1 hx
  exact ⟨q, s', hq, rfl⟩

/-- names from the counter are new to the history -/
theorem Kept.fresh (hk : h.Kept) {name : RobotName} (hname : name ∈ h.population.freshNames count) :
    name ∉ h.lived := by
  intro hlived
  have hbelow := hk.ahead name hlived
  have hfrom := (mem_freshNames_iff.1 hname).1
  omega

/-- **One happening** keeps the names unique and the counter ahead of all that ever lived. -/
theorem Kept.next? (hk : h.Kept) (hnames : h.population.HasNames (h.population.handedOut h.stream x))
    (hx : h.next? x = some h') : h'.Kept := by
  obtain ⟨q, s', hq, rfl⟩ := next?_eq_some hx
  have hlive : ∀ name ∈ q.names, name ∈ h.lived ++ q.names := fun _ hn => List.mem_append_right _ hn
  rcases happen?_cases hnames hq with ⟨r, -, hinsert⟩ | ⟨⟨kept, hsub, hnames⟩, hcounter⟩
  · obtain ⟨hfree, hnames, hcounter⟩ := insert_eq_ok hinsert
    refine ⟨?_, ?_, hlive⟩
    · show q.names.Nodup
      rw [hnames, List.nodup_append]
      refine ⟨hk.unique, List.nodup_singleton _, ?_⟩
      rintro a ha b hb rfl
      exact hfree (List.mem_singleton.1 hb ▸ ha)
    · intro name hname
      show name.number < q.nextName
      rw [hcounter]
      simp only [hnames, List.mem_append, List.mem_singleton] at hname
      rcases hname with hname | hname | rfl
      · exact (hk.ahead name hname).trans_le (Nat.le_max_left _ _)
      · exact (hk.ahead name (hk.live name hname)).trans_le (Nat.le_max_left _ _)
      · exact (Nat.lt_succ_self _).trans_le (Nat.le_max_right _ _)
  · have hold : ∀ name ∈ kept, name ∈ h.lived := fun name hname => hk.live name (hsub.subset hname)
    refine ⟨?_, ?_, hlive⟩
    · show q.names.Nodup
      rw [hnames, List.nodup_append]
      refine ⟨hsub.nodup hk.unique, nodup_freshNames _ _, ?_⟩
      rintro a ha b hb rfl
      exact hk.fresh hb (hold a ha)
    · intro name hname
      show name.number < q.nextName
      rw [hcounter]
      simp only [hnames, List.mem_append] at hname
      rcases hname with hname | hname | hname
      · exact Nat.lt_add_right _ (hk.ahead name hname)
      · exact Nat.lt_add_right _ (hk.ahead name (hold name hname))
      · exact (mem_freshNames_iff.1 hname).2

theorem Kept.run? {happenings : List Happening} (hk : h.Kept) (hlasts : h.Lasts happenings)
    (hrun : h.run? happenings = some h') : h'.Kept := by
  induction happenings generalizing h with
  | nil =>
    cases hrun
    exact hk
  | cons x rest ih =>
    obtain ⟨middle, hone, hrest⟩ := Option.bind_eq_some_iff.1 hrun
    exact ih (hk.next? hlasts.1 hone) (hlasts.2 middle hone) hrest

/-- names ascend in population order -/
def Ascending (h : History) : Prop :=
  h.population.names.Pairwise fun a b => a.number < b.number

/-- without a robot under its own name the names go on ascending -/
theorem Ascending.next? (ha : h.Ascending) (hk : h.Kept)
    (hnames : h.population.HasNames (h.population.handedOut h.stream x)) (hx : h.next? x = some h')
    (hown : ∀ r, x ≠ .insert r) : h'.Ascending := by
  obtain ⟨q, s', hq, rfl⟩ := next?_eq_some hx
  rcases happen?_cases hnames hq with ⟨r, rfl, -⟩ | ⟨⟨kept, hsub, hnames⟩, -⟩
  · exact absurd rfl (hown r)
  · show q.names.Pairwise _
    rw [hnames, List.pairwise_append]
    refine ⟨ha.sublist hsub, ascending_freshNames _ _, fun a hold b hnew => ?_⟩
    have hbelow := hk.ahead a (hk.live a (hsub.subset hold))
    have hfrom := (mem_freshNames_iff.1 hnew).1
    omega

theorem Ascending.run? {happenings : List Happening} (ha : h.Ascending) (hk : h.Kept) (hlasts : h.Lasts happenings)
    (hrun : h.run? happenings = some h') (hown : ∀ r, .insert r ∉ happenings) : h'.Ascending := by
  induction happenings generalizing h with
  | nil =>
    cases hrun
    exact ha
  | cons x rest ih =>
    obtain ⟨middle, hone, hrest⟩ := Option.bind_eq_some_iff.1 hrun
    obtain ⟨hnames, hlater⟩ := hlasts
    have hx : ∀ r, x ≠ .insert r := fun r hr => hown r (hr ▸ List.mem_cons_self)
    exact ih (ha.next? hk hnames hone hx) (hk.next? hnames hone) (hlater middle hone) hrest
      fun r hr => hown r (List.mem_cons_of_mem x hr)

/-! ## Beginnings -/

/-- a population that grew from none begins a history well -/
theorem kept_start {desiredSize : Nat} (hgrown : (empty desiredSize).Grown count p) (s : Stream) :
    (start p s).Kept :=
  have hp : p.WellNamed := (wellNamed_empty desiredSize).grown hgrown
  ⟨hp.unique, hp.ahead, fun _ hname => hname⟩

theorem ascending_start {desiredSize : Nat} (hgrown : (empty desiredSize).Grown count p) (s : Stream) :
    (start p s).Ascending := by
  show p.names.Pairwise _
  rw [hgrown.names]
  exact ascending_freshNames _ _

end History

/-- **Names never return**, while the counter has any. Let a population begin without robots or with random ones, and let
anything happen to it, in any order and number, on any stream. Then its names are unique, and the counter is ahead of every
name that ever was in it. The name that the counter hands out next is that of no robot that ever was in it, the dead
included; and so with all names that births and newcomers get: after whatever happens next but a robot under its own name,
the names are some of those before and then those that were handed out, all new to the history. A robot whose name is taken
is turned away, and whenever one is turned away nothing changes. If no robot ever came under its own name, names ascend in
population order. -/
theorem names_never_return {desiredSize : Nat} {happenings : List Happening} {h : History}
    (hstart : p = .empty desiredSize ∨
      desiredSize < Binary64.wordLimit ∧ ∃ bounds s₀, random? desiredSize bounds s₀ = some (p, s))
    (hlasts : (History.start p s).Lasts happenings) (hrun : (History.start p s).run? happenings = some h) :
    h.population.names.Nodup ∧
    (∀ name ∈ h.lived, name.number < h.population.nextName) ∧
    (∀ program inherited, (h.population.add program inherited).1 ∉ h.lived) ∧
    (∀ x q s', (∀ r, x ≠ .insert r) → h.population.HasNames (h.population.handedOut h.stream x) →
      h.population.happen? h.stream x = some (q, s') →
      h.population.Renewed (h.population.handedOut h.stream x) q ∧
        ∀ name ∈ h.population.freshNames (h.population.handedOut h.stream x), name ∉ h.lived) ∧
    (∀ r : Robot, r.name ∈ h.population.names → h.population.insert r = (.error (.taken r.name), h.population)) ∧
    (∀ r e, (h.population.insert r).1 = .error e → (h.population.insert r).2 = h.population ∧
      h.population.happen? h.stream (.insert r) = some (h.population, h.stream)) ∧
    ((∀ r, .insert r ∉ happenings) → h.population.names.Pairwise fun a b => a.number < b.number) := by
  obtain ⟨count, hgrown⟩ : ∃ count, (empty desiredSize).Grown count p := by
    rcases hstart with rfl | ⟨hsize, bounds, s₀, hrandom⟩
    · exact ⟨0, Grown.refl _⟩
    · exact ⟨desiredSize, grown_random? hrandom hsize⟩
  have hkept : h.Kept := (History.kept_start hgrown s).run? hlasts hrun
  refine ⟨hkept.unique, hkept.ahead, ?_, ?_, fun r hr => insert_of_taken hr, ?_, ?_⟩
  · intro program inherited hlived
    exact Nat.lt_irrefl _ (hkept.ahead _ hlived)
  · intro x q s' hown hnames hx
    rcases happen?_cases hnames hx with ⟨r, rfl, -⟩ | hrenewed
    · exact absurd rfl (hown r)
    · exact ⟨hrenewed, fun name hname => hkept.fresh hname⟩
  · intro r e he
    have hsame := insert_refused he
    refine ⟨hsame, ?_⟩
    rw [happen?, hsame]
  · intro hown
    exact (History.ascending_start hgrown s).run? (History.kept_start hgrown s) hlasts hrun hown

/-- two newborns, a robot that comes under the name 9 and again, deaths, births from what is left and a newcomer: the
next name is that of nobody, dead or alive -/
theorem names_never_return_nine :
    let program : Program := ⟨[.emit .long], 1⟩
    let e : EvolutionSettings := { outcomesToBreed := 0, outcomesBetweenChildren := 0, requireSymmetry := false }
    let policy := e.policy ⟨1, 2, 1, 1, 1⟩
    let stranger := Robot.new ⟨9⟩ program 1.0
    let happenings : List Happening := [.add program 1.0, .add program 1.0, .insert stranger, .insert stranger,
      .removeAll [⟨0⟩, ⟨9⟩], .breed policy.breeding policy.weights 1, .kill policy.deaths policy.weights,
      .inject policy.breeding 1]
    (History.start (.empty 3) (listed [])).Lasts happenings ∧
      ∃ h, (History.start (.empty 3) (listed [])).run? happenings = some h ∧
      h.lived.eraseDups = [⟨0⟩, ⟨1⟩, ⟨9⟩, ⟨10⟩, ⟨11⟩] ∧
      (h.population.add program 0.0).1 ∉ h.lived ∧ h.population.names.Nodup := by
  intro program e policy stranger happenings
  have hlasts : (History.start (.empty 3) (listed [])).Lasts happenings := by decide +kernel
  have hcomes : ((History.start (.empty 3) (listed [])).run? happenings).map (fun h => h.lived.eraseDups) =
      some [⟨0⟩, ⟨1⟩, ⟨9⟩, ⟨10⟩, ⟨11⟩] := by decide +kernel
  obtain ⟨h, hrun, hlived⟩ := Option.map_eq_some_iff.1 hcomes
  obtain ⟨hunique, -, hnew, -⟩ := names_never_return (Or.inl rfl) hlasts hrun
  exact ⟨hlasts, h, hrun, hlived, hnew program 0.0, hunique⟩

end Population

end TradingRobots
