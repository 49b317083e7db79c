/-
What a bar scores for a robot.

A robot that takes part in a dataset says a signal there. The signal it said on the dataset the time before, which is
the pending one, becomes current and is scored if the change is known; nothing else ever is, since the next part in the
dataset replaces it. So all that a bar counts for a robot can be read off the signals that were pending before the bar.

`pending_foldl_robotAt`: the signals that are pending after a bar.
`counts_foldl_robotAt`: a bar counts the outcomes of its scores, and no others.
-/
import TradingRobots.Proofs.Engine.Bars

namespace TradingRobots

/-- a signal and the change that scores it -/
structure Score where
  dataset : String
  signal : Signal
  change : Float
deriving DecidableEq, Repr

def Score.outcome (threshold : Float) (s : Score) : Outcome :=
  Outcome.resolve s.signal s.change threshold

namespace Robot

/-- what some outcomes add to a robot's counters -/
structure Counts (before : Robot) (scored : List Outcome) (after : Robot) : Prop where
  outcomes : after.outcomes = before.outcomes + scored.length
  predictions : after.predictions = before.predictions + scored.countP fun o => o ≠ .out
  correct : after.correct = before.correct + scored.countP fun o => o = .correct

theorem Counts.none (r : Robot) : r.Counts [] r :=
  ⟨rfl, rfl, rfl⟩

theorem Counts.trans {a b c : Robot} {xs ys : List Outcome} (h : a.Counts xs b) (h' : b.Counts ys c) :
    a.Counts (xs ++ ys) c where
  outcomes := by rw [h'.outcomes, h.outcomes, List.length_append, Nat.add_assoc]
  predictions := by rw [h'.predictions, h.predictions, List.countP_append, Nat.add_assoc]
  correct := by rw [h'.correct, h.correct, List.countP_append, Nat.add_assoc]

/-- a new signal makes the pending one current -/
theorem current_predict (r : Robot) (name : String) (signal : Signal) :
    (r.predict name signal).current.find? name = r.pending.find? name := by
  unfold predict
  cases h : r.pending.find? name with
  | none => simp only [NameTable.find?_erase, if_true]
  | some previous => simp only [NameTable.find?_insert, if_true]

theorem pending_resolve (r : Robot) (name : String) (change threshold : Float) :
    (r.resolve name change threshold).2.pending = r.pending := by
  unfold resolve
  cases r.current.find? name with
  | none => rfl
  | some signal => rfl

/-- a change scores the current signal, if there is one -/
theorem counts_resolve (r : Robot) (name : String) (change threshold : Float) :
    r.Counts ((r.current.find? name).toList.map fun signal => Outcome.resolve signal change threshold)
      (r.resolve name change threshold).2 := by
  unfold resolve
  cases r.current.find? name with
  | none => exact .none r
  | some signal =>
    dsimp only
    rw [Option.toList_some, List.map_singleton]
    cases Outcome.resolve signal change threshold with
    | correct => exact ⟨rfl, rfl, rfl⟩
    | wrong => exact ⟨rfl, rfl, rfl⟩
    | out => exact ⟨rfl, rfl, rfl⟩

end Robot

namespace EngineRules

/-- what a robot's program says on a dataset at a bar, if the dataset has a row there -/
def said? (rules : EngineRules) (r : Robot) (name : String) (bar : Nat) : Option Signal :=
  (rules.feed.window? name bar).map fun w => (r.program.execute rules.processorFactor w).signal

/-- what a bar scores on a dataset: the pending signal, where the change is known -/
def score? (rules : EngineRules) (bar : Nat) (r : Robot) (name : String) : Option Score := do
  let signal ← r.pending.find? name
  let change ← rules.feed.change? name bar
  some ⟨name, signal, change⟩

/-- all that a bar scores for a robot -/
def scores (rules : EngineRules) (bar : Nat) (r : Robot) (names : List String) : List Score :=
  names.filterMap (rules.score? bar r)

variable {rules : EngineRules} {bar : Nat}

/-- a score is a pending signal with the bar's change -/
theorem mem_scores_iff {names : List String} {r : Robot} {s : Score} : s ∈ rules.scores bar r names ↔
    s.dataset ∈ names ∧ r.pending.find? s.dataset = some s.signal ∧
      rules.feed.change? s.dataset bar = some s.change := by
  unfold scores score?
  rw [List.mem_filterMap]
  constructor
  · rintro ⟨name, hname, h⟩
    obtain ⟨signal, hsignal, h⟩ := Option.bind_eq_some_iff.1 h
    obtain ⟨change, hchange, h⟩ := Option.bind_eq_some_iff.1 h
    cases h
    exact ⟨hname, hsignal, hchange⟩
  · rintro ⟨hname, hsignal, hchange⟩
    exact ⟨s.dataset, hname, by simp only [hsignal, hchange, Option.bind_eq_bind, Option.bind_some]⟩

/-! ## One dataset -/

/-- a part in a dataset leaves pending what the program says there -/
theorem pending_robotAt (rules : EngineRules) (bar : Nat) (r : Robot) (name other : String) :
    (rules.robotAt bar r name).pending.find? other =
      if other = name then (rules.said? r name bar).or (r.pending.find? name) else r.pending.find? other := by
  unfold robotAt said?
  cases rules.feed.window? name bar with
  | none =>
    by_cases h : other = name
    · subst h
      simp
    · simp [h]
  | some w =>
    have hpending : (rules.robotBar name w r).2.2.pending =
        r.pending.insert name (r.program.execute rules.processorFactor w).signal := by
      unfold robotBar
      cases w.change with
      | none => rfl
      | some change => exact Robot.pending_resolve _ name change _
    simp only [hpending, NameTable.find?_insert, Option.map_some, Option.some_or]

theorem said?_robotAt (rules : EngineRules) (bar : Nat) (r : Robot) (name other : String) :
    rules.said? (rules.robotAt bar r name) other bar = rules.said? r other bar := by
  rw [said?, said?, program_robotAt]

/-- a part in a dataset leaves the scores on the others -/
theorem score?_robotAt {r : Robot} {name other : String} (h : other ≠ name) :
    rules.score? bar (rules.robotAt bar r name) other = rules.score? bar r other := by
  rw [score?, score?, pending_robotAt, if_neg h]

/-- **A part in a dataset counts its score**, if there is one. -/
theorem counts_robotAt (rules : EngineRules) (bar : Nat) (r : Robot) (name : String) :
    r.Counts ((rules.score? bar r name).toList.map (Score.outcome rules.settings.resultThreshold))
      (rules.robotAt bar r name) := by
  unfold robotAt score? Feed.change?
  cases rules.feed.window? name bar with
  | none =>
    cases r.pending.find? name with
    | none => exact .none r
    | some signal => exact .none r
  | some w =>
    -- the counters are those from before when the robot says its signal
    have hsaid : r.Counts [] (r.predict name (r.program.execute rules.processorFactor w).signal) := ⟨rfl, rfl, rfl⟩
    dsimp only [robotBar, Option.bind_some]
    cases w.change with
    | none =>
      cases r.pending.find? name with
      | none => exact hsaid
      | some signal => exact hsaid
    | some change =>
      have hscored := hsaid.trans
        (Robot.counts_resolve (r.predict name _) name change rules.settings.resultThreshold)
      rw [Robot.current_predict] at hscored
      cases hpending : r.pending.find? name with
      | none =>
        rw [hpending] at hscored
        exact hscored
      | some signal =>
        rw [hpending] at hscored
        exact hscored

/-! ## All datasets -/

/-- the signals that are pending after a bar: what the program says where there is a row, and the old ones elsewhere -/
theorem pending_foldl_robotAt (rules : EngineRules) (bar : Nat) (names : List String) (r : Robot) (name : String) :
    (names.foldl (rules.robotAt bar) r).pending.find? name =
      if name ∈ names then (rules.said? r name bar).or (r.pending.find? name) else r.pending.find? name := by
  induction names generalizing r with
  | nil => rfl
  | cons other rest ih =>
    rw [List.foldl_cons, ih, said?_robotAt, pending_robotAt]
    by_cases hname : name = other
    · subst hname
      cases rules.said? r name bar with
      | none => simp
      | some signal => simp
    · simp only [List.mem_cons, hname, false_or, if_false]

/-- **A bar counts the outcomes of its scores for a robot, and no others.** -/
theorem counts_foldl_robotAt {names : List String} (hn : names.Nodup) (r : Robot) :
    r.Counts ((rules.scores bar r names).map (Score.outcome rules.settings.resultThreshold))
      (names.foldl (rules.robotAt bar) r) := by
  induction names generalizing r with
  | nil => exact .none r
  | cons name rest ih =>
    obtain ⟨hname, hrest⟩ := List.nodup_cons.1 hn
    have hkept : rules.scores bar (rules.robotAt bar r name) rest = rules.scores bar r rest :=
      List.filterMap_congr fun other hother => score?_robotAt fun h => hname (h ▸ hother)
    have hsplit : rules.scores bar r (name :: rest) =
        (rules.score? bar r name).toList ++ rules.scores bar r rest := by
      unfold scores
      cases h : rules.score? bar r name with
      | none => simp [h]
      | some s => simp [h]
    have hafter := (counts_robotAt rules bar r name).trans (ih hrest (rules.robotAt bar r name))
    rw [hkept, ← List.map_append, ← hsplit] at hafter
    exact hafter

end EngineRules

end TradingRobots
