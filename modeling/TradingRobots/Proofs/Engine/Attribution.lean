/-
Where scored signals were said.

Neither a robot's pending signal nor a ledger's held vote carries its row. It stays until the next row that is processed
scores or replaces it, in whichever run that is: robots take their signals from engine to engine and through files, and
an engine keeps its ledgers from run to run. So all that is pending was said, or voted, at the last row processed.

`Leads`: the bars of a run, one after the other; `leads_of_run`: every run is made of them.
`Reached`: the states that runs one after the other come to, on any engines.
`saidLast_of_reached`, `holdsLast_of_reached`: what is pending in such a state was said at the last row.
-/
import TradingRobots.Proofs.Engine.Records
import TradingRobots.Proofs.Engine.Scoring

namespace TradingRobots

/-! ## Last rows -/

/-- a bar that an engine went through -/
structure Pass where
  rules : EngineRules
  bar : Nat

namespace Pass

/-- a dataset of some name had a row there -/
def hasRow (name : String) (x : Pass) : Bool :=
  decide (name ∈ x.rules.feed.names) && (x.rules.feed.window? name x.bar).isSome

/-- the last bar at which a dataset of some name had a row -/
def last? (passes : List Pass) (name : String) : Option Pass :=
  (passes.filter (hasRow name)).getLast?

/-- one more bar is the last one if it has a row -/
theorem last?_concat (passes : List Pass) (x : Pass) (name : String) :
    last? (passes ++ [x]) name = if x.hasRow name then some x else last? passes name := by
  unfold last?
  rw [List.filter_append]
  by_cases h : x.hasRow name = true
  · simp [h]
  · simp [h]

end Pass

/-- the bars that an engine went through -/
def EngineRules.passes (rules : EngineRules) (done : List BarSummary) : List Pass :=
  done.map fun s => ⟨rules, s.bar⟩

/-- the bar and the signal of a vote on a dataset -/
def BarSummary.vote? (name : String) (s : BarSummary) : Option (Nat × Signal) :=
  (s.signal? name).map fun signal => (s.bar, signal)

/-- the last vote on a dataset -/
def BarSummary.lastVote? (done : List BarSummary) (name : String) : Option (Nat × Signal) :=
  (done.filterMap (vote? name)).getLast?

theorem BarSummary.lastVote?_concat (done : List BarSummary) (s : BarSummary) (name : String) :
    lastVote? (done ++ [s]) name = (s.vote? name).or (lastVote? done name) := by
  unfold lastVote?
  rw [List.filterMap_append]
  cases h : s.vote? name with
  | none => simp [h]
  | some v => simp [h]

/-- every signal that is pending is what the program said at the last row -/
def Robot.SaidLast (passes : List Pass) (r : Robot) : Prop :=
  ∀ name signal, r.pending.find? name = some signal →
    ∃ x, Pass.last? passes name = some x ∧ x.rules.said? r name x.bar = some signal

/-- every ledger holds the last vote on its dataset -/
def EngineRules.HoldsLast (rules : EngineRules) (own : List BarSummary) (e : EngineState) : Prop :=
  ∀ name ∈ rules.feed.names, ∃ l, e.ledgers.find? name = some l ∧
    l.held = (BarSummary.lastVote? own name).map Prod.snd

theorem Robot.saidLast_of_empty (passes : List Pass) {r : Robot} (h : r.pending = .empty) : r.SaidLast passes := by
  intro name signal hpending
  rw [h] at hpending
  cases hpending

/-- what is pending is passed on by no birth, and stays with the parents -/
theorem BreedingRules.heritable_saidLast (rules : BreedingRules) (passes : List Pass) :
    Robot.Heritable rules (Robot.SaidLast passes) where
  bear := fun _ h => h
  mutated := fun _ _ _ _ _ => Robot.saidLast_of_empty passes rfl
  crossed := fun _ _ _ _ _ _ _ _ _ _ => Robot.saidLast_of_empty passes rfl
  drawn := fun _ _ _ _ _ => Robot.saidLast_of_empty passes rfl

namespace EngineRules

variable {rules : EngineRules} {passes : List Pass} {own : List BarSummary}

/-! ## One bar -/

/-- a robot's part in a bar leaves pending what its program says there -/
theorem saidLast_foldl_robotAt (bar : Nat) {r : Robot} (h : r.SaidLast passes) :
    (rules.feed.names.foldl (rules.robotAt bar) r).SaidLast (passes ++ [⟨rules, bar⟩]) := by
  intro name signal hpending
  have hsame : ∀ x : Pass, x.rules.said? (rules.feed.names.foldl (rules.robotAt bar) r) name x.bar =
      x.rules.said? r name x.bar := by
    intro x
    rw [said?, said?, program_foldl_robotAt]
  simp only [hsame, Pass.last?_concat]
  rw [pending_foldl_robotAt] at hpending
  by_cases hrow : (Pass.mk rules bar).hasRow name = true
  · obtain ⟨hname, hsome⟩ := (Bool.and_eq_true_iff.1 hrow).imp_left of_decide_eq_true
    obtain ⟨w, hw⟩ := Option.isSome_iff_exists.1 hsome
    have hsaid : rules.said? r name bar = some (r.program.execute rules.processorFactor w).signal := by
      rw [said?, hw, Option.map_some]
    rw [if_pos hname, hsaid, Option.some_or] at hpending
    refine ⟨⟨rules, bar⟩, if_pos hrow, ?_⟩
    rw [hsaid, hpending]
  · rw [if_neg hrow]
    refine h name signal ?_
    rw [← hpending]
    by_cases hname : name ∈ rules.feed.names
    · have hnone : rules.feed.window? name bar = none := by simpa [Pass.hasRow, hname] using hrow
      rw [if_pos hname, said?, hnone, Option.map_none, Option.none_or]
    · rw [if_neg hname]

/-- **After a bar what is pending was said at the last row.** -/
theorem BarDone.saidLast {bar : Nat} {e e' : EngineState} {summary : BarSummary}
    (h : BarDone rules bar e summary e') (he : ∀ r ∈ e.population.robots, r.SaidLast passes) :
    ∀ r ∈ e'.population.robots, r.SaidLast (passes ++ rules.passes [summary]) := by
  rw [EngineRules.passes, List.map_singleton, h.at_bar]
  exact h.all_robots (rules.policy.breeding.heritable_saidLast _) (fun r hr => saidLast_foldl_robotAt bar hr) he

theorem BarDone.holdsLast {bar : Nat} {e e' : EngineState} {summary : BarSummary} (hn : rules.feed.names.Nodup)
    (h : BarDone rules bar e summary e') (he : rules.HoldsLast own e) : rules.HoldsLast (own ++ [summary]) e' := by
  intro name hname
  obtain ⟨l, hl, hheld⟩ := he name hname
  rw [h.find?_ledgers hn, BarSummary.lastVote?_concat, BarSummary.vote?, entry?]
  cases summary.signal? name with
  | none => exact ⟨l, hl, hheld⟩
  | some signal => exact ⟨_, rfl, rfl⟩

/-! ## Bars one after the other -/

/-- the bars of a run from a first one on, and the state they lead to; the flag may change between bars -/
inductive Leads (rules : EngineRules) (first : Nat) (e : EngineState) : List BarSummary → EngineState → Prop where
  | start (flag : Bool) : Leads rules first e [] { e with cancelled := flag }
  | bar {done : List BarSummary} {before after : EngineState} {summary : BarSummary} {events : List Event}
      (flag : Bool) : Leads rules first e done before →
      rules.runBar? (first + done.length) before = some (summary, events, after) →
      Leads rules first e (done ++ [summary]) { after with cancelled := flag }

variable {first : Nat} {e e' : EngineState} {done : List BarSummary}

theorem Leads.consecutive (h : Leads rules first e done e') : Consecutive first (first + done.length) done := by
  induction h with
  | start => exact consecutive_nil first
  | bar flag hleads hbar ih =>
    rw [List.length_append, List.length_singleton, ← Nat.add_assoc]
    exact ih.append (runBar?_eq_some hbar).at_bar

theorem Leads.saidLast (h : Leads rules first e done e') (he : ∀ r ∈ e.population.robots, r.SaidLast passes) :
    ∀ r ∈ e'.population.robots, r.SaidLast (passes ++ rules.passes done) := by
  induction h with
  | start =>
    rw [EngineRules.passes, List.map_nil, List.append_nil]
    exact he
  | bar flag hleads hbar ih =>
    rw [EngineRules.passes, List.map_append, ← List.append_assoc]
    exact (runBar?_eq_some hbar).saidLast ih

theorem Leads.holdsLast (hn : rules.feed.names.Nodup) (h : Leads rules first e done e')
    (he : rules.HoldsLast own e) : rules.HoldsLast (own ++ done) e' := by
  induction h with
  | start =>
    rw [List.append_nil]
    exact he
  | bar flag hleads hbar ih =>
    rw [← List.append_assoc]
    have hafter := (runBar?_eq_some hbar).holdsLast hn ih
    exact hafter

/-- **A run goes bar by bar** from the first of its range. -/
theorem leads_of_run {watch : Watcher} {stopAfter : Option Nat} {report : RunReport} {p : Progress}
    (h : rules.run watch stopAfter e = .ok (report, p)) :
    ∃ first last, rules.range? = some (first, last) ∧ Leads rules first e p.summaries p.state := by
  have hk : Kept rules fun bar done e' => ∃ first last, rules.range? = some (first, last) ∧
      bar = first + done.length ∧ Leads rules first e done e' := by
    constructor
    rintro bar done e' summary events after flag ⟨first, last, hrange, rfl, hleads⟩ hbar
    refine ⟨first, last, hrange, ?_, hleads.bar flag hbar⟩
    rw [List.length_append, List.length_singleton, Nat.add_assoc]
  obtain ⟨-, -, -, -, ⟨first, last, hrange, -, hleads⟩, -⟩ :=
    run_kept hk (fun first last flag hrange => ⟨first, last, hrange, rfl, .start flag⟩) h
  exact ⟨first, last, hrange, hleads⟩

end EngineRules

/-! ## Runs one after the other -/

/-- the states that runs one after the other come to: the bars that the population went through, in whichever runs, and
those that the engine itself did -/
inductive Reached : List Pass → EngineRules → List BarSummary → EngineState → Prop where
  /-- a new engine, and robots that have said nothing -/
  | fresh (rules : EngineRules) (p : Population) (s : Random.Stream) (hp : ∀ r ∈ p.robots, r.pending = .empty) :
      Reached [] rules [] (rules.start p s)
  /-- after one more run of the same engine on the same population -/
  | run {passes : List Pass} {rules : EngineRules} {own : List BarSummary} {e : EngineState} {watch : Watcher}
      {stopAfter : Option Nat} {report : RunReport} {p : Progress} : Reached passes rules own e →
      rules.run watch stopAfter e = .ok (report, p) →
      Reached (passes ++ rules.passes p.summaries) rules (own ++ p.summaries) p.state
  /-- an engine, new or used, takes over robots as they are after other runs, itself or from a file -/
  | handed {passes others : List Pass} {rules other : EngineRules} {own own' : List BarSummary} {e e' : EngineState}
      (p : Population) (flag : Bool) : Reached passes other own' e' → Reached others rules own e →
      (∀ r ∈ p.robots, ∃ r' ∈ e'.population.robots, r.program = r'.program ∧ r.pending = r'.pending) →
      Reached passes rules own { e with population := p, cancelled := flag }

section

variable {passes : List Pass} {rules : EngineRules} {own : List BarSummary} {e : EngineState}

/-- **What is pending after any runs was said at the last row.** -/
theorem saidLast_of_reached (h : Reached passes rules own e) : ∀ r ∈ e.population.robots, r.SaidLast passes := by
  induction h with
  | fresh rules p s hp => exact fun r hr => Robot.saidLast_of_empty [] (hp r hr)
  | run hreached hrun ih =>
    obtain ⟨first, last, -, hleads⟩ := EngineRules.leads_of_run hrun
    exact hleads.saidLast ih
  | handed p flag hfrom hto hsame ihfrom ihto =>
    intro r hr name signal hpending
    obtain ⟨r', hr', hprogram, hsignals⟩ := hsame r hr
    rw [hsignals] at hpending
    obtain ⟨x, hx, hsaid⟩ := ihfrom r' hr' name signal hpending
    refine ⟨x, hx, ?_⟩
    rwa [EngineRules.said?, hprogram]

/-- **Ledgers hold the last vote of their engine**, in whichever run it was cast. -/
theorem holdsLast_of_reached (hn : rules.feed.names.Nodup) (h : Reached passes rules own e) :
    rules.HoldsLast own e := by
  induction h with
  | fresh rules p s hp => exact fun name hname => ⟨.empty, rules.find?_ledgers_start p s hname, rfl⟩
  | run hreached hrun ih =>
    obtain ⟨first, last, -, hleads⟩ := EngineRules.leads_of_run hrun
    exact hleads.holdsLast hn (ih hn)
  | handed p flag hfrom hto hsame ihfrom ihto => exact ihto hn

end

end TradingRobots
