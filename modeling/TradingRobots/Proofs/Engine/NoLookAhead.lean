/-
No look-ahead: what a run does at a bar depends on nothing that comes after it.

The engine sees market data through its feed's windows alone. Two engines with the same settings whose feeds show
alike windows at a bar do the same there: every robot gets the same signal and the same score, every dataset the same
vote, and the cycle draws the same words. So a run over bars up to a time goes the same way on any two markets that
agree up to it.

`runBar?_eq_of_sameAt`: one bar; `trail_eq_of_sameAt`: a run over any bars.
`no_look_ahead`: two markets that agree up to a time give the same run up to it.
-/
import TradingRobots.Engine
import TradingRobots.Proofs.Market.Hindsight
import TradingRobots.Random.Sources

namespace TradingRobots

namespace EngineRules

open TradingRobots.Random

/-! ## One bar -/

/-- two engines are set up the same and see alike windows at a bar -/
structure SameAt (bar : Nat) (rules other : EngineRules) : Prop where
  names : rules.feed.names = other.feed.names
  settings : rules.settings = other.settings
  policy : rules.policy = other.policy
  processorFactor : rules.processorFactor = other.processorFactor
  windows : ∀ name, Option.Rel Window.Alike (rules.feed.window? name bar) (other.feed.window? name bar)

variable {rules other : EngineRules} {bar : Nat}

theorem robotBar_eq_of_sameAt (h : SameAt bar rules other) {v w : Window} (hw : v.Alike w) (dataset : String)
    (r : Robot) : rules.robotBar dataset v r = other.robotBar dataset w r := by
  simp only [robotBar, Program.execute_eq_of_alike hw, hw.change, h.settings, h.policy, h.processorFactor]

theorem datasetBar_eq_of_sameAt (h : SameAt bar rules other) {v w : Window} (hw : v.Alike w) (dataset : String)
    (e : EngineState) : rules.datasetBar bar dataset v e = other.datasetBar bar dataset w e := by
  have hrobots : rules.robotBar dataset v = other.robotBar dataset w :=
    funext fun r => robotBar_eq_of_sameAt h hw dataset r
  simp only [datasetBar, hrobots, hw.change, h.settings]

theorem datasetsBar_eq_of_sameAt (h : SameAt bar rules other) (names : List String) (e : EngineState) :
    rules.datasetsBar bar names e = other.datasetsBar bar names e := by
  induction names generalizing e with
  | nil => rfl
  | cons name rest ih =>
    have hwindow := h.windows name
    unfold datasetsBar
    cases hv : rules.feed.window? name bar with
    | none =>
      rw [hv] at hwindow
      cases hw : other.feed.window? name bar with
      | none => exact ih e
      | some w =>
        rw [hw] at hwindow
        cases hwindow
    | some v =>
      rw [hv] at hwindow
      cases hw : other.feed.window? name bar with
      | none =>
        rw [hw] at hwindow
        cases hwindow
      | some w =>
        rw [hw] at hwindow
        cases hwindow with
        | some halike => simp only [datasetBar_eq_of_sameAt h halike, ih]

theorem isSome_eq_of_rel {v w : Option Window} (h : Option.Rel Window.Alike v w) : v.isSome = w.isSome := by
  cases h with
  | some => rfl
  | none => rfl

theorem hasRows_eq_of_sameAt (h : SameAt bar rules other) : rules.hasRows bar = other.hasRows bar := by
  have hsome : ∀ name, (rules.feed.window? name bar).isSome = (other.feed.window? name bar).isSome :=
    fun name => isSome_eq_of_rel (h.windows name)
  simp only [hasRows, h.names, hsome]

theorem isStuck_eq_of_sameAt (h : SameAt bar rules other) (e : EngineState) :
    rules.isStuck bar e = other.isStuck bar e := by
  rw [isStuck, isStuck, hasRows_eq_of_sameAt h]

theorem isUpdateBar_eq_of_sameAt (h : SameAt bar rules other) : rules.isUpdateBar bar = other.isUpdateBar bar := by
  rw [isUpdateBar, isUpdateBar, h.settings]

/-- **One bar goes the same way** for engines that see alike windows at it. -/
theorem runBar?_eq_of_sameAt (h : SameAt bar rules other) (e : EngineState) :
    rules.runBar? bar e = other.runBar? bar e := by
  rw [runBar?, runBar?, isStuck_eq_of_sameAt h, isUpdateBar_eq_of_sameAt h, datasetsBar_eq_of_sameAt h, h.names,
    h.policy]

/-! ## Runs over bars -/

/-- what a run over some bars gives, bar by bar: the summary, the events and the state after it; the run ends at a bar
that cannot be run -/
def trail (rules : EngineRules) : List Nat → EngineState → List (Option (BarSummary × List Event × EngineState))
  | [], _ => []
  | bar :: rest, e =>
    match rules.runBar? bar e with
    | none => [none]
    | some (summary, events, after) => some (summary, events, after) :: rules.trail rest after

theorem trail_eq_of_sameAt {bars : List Nat} (h : ∀ bar ∈ bars, SameAt bar rules other) (e : EngineState) :
    rules.trail bars e = other.trail bars e := by
  induction bars generalizing e with
  | nil => rfl
  | cons bar rest ih =>
    obtain ⟨hbar, hrest⟩ := List.forall_mem_cons.1 h
    rw [trail, trail, runBar?_eq_of_sameAt hbar]
    cases other.runBar? bar e with
    | none => rfl
    | some given => exact congrArg _ (ih hrest given.2.2)

/-! ## Markets that agree up to a time -/

/-- the engine that settings make on a feed -/
def ofSettings (settings : Settings) (feed : Feed) : EngineRules where
  feed := feed
  settings := settings.engine
  policy := settings.evolution.policy (settings.population.programBounds feed.columnCount)
  processorFactor := settings.population.processorFactor

/-- settings that pass their check make an engine on any feed with columns -/
theorem new_eq_ok {feed : Feed} {settings : Settings} (hs : settings.check = .ok ()) (hc : 0 < feed.columnCount) :
    EngineRules.new feed settings = .ok (ofSettings settings feed) := by
  simp only [EngineRules.new, hs]
  rw [if_neg (Nat.ne_of_gt hc)]
  rfl

/-- engines on markets that agree up to a time are set up the same and see alike windows at the bars up to it -/
theorem sameAt_of_agree {T : Int} {left right : List Dataset} {settings : Settings} {m n : Market}
    (hm : Market.Built left settings.population m) (hn : Market.Built right settings.population n)
    (h : Dataset.Agree T left right) {bar : Nat} {time : Int} (ht : time ≤ T) (hat : m.timeline.get? bar = some time) :
    SameAt bar (ofSettings settings m.feed) (ofSettings settings n.feed) where
  names := Market.names_eq hm hn h
  settings := rfl
  policy := by
    have hcolumns : m.feed.columnCount = n.feed.columnCount := Market.columnCount_eq hm hn h
    simp only [ofSettings, hcolumns]
  processorFactor := rfl
  windows := Market.windows_alike hm hn h ht hat

/-- **No look-ahead.** Two lists of datasets agree up to a time, and both make a market. Under settings that pass
their check, both markets make an engine. From any population and any stream, the two engines give the same run over
any bars up to the time: after every bar the same votes, the same report of the cycle, the same robots, ledgers and
stream. Those bars stand for the same times on both markets. -/
theorem no_look_ahead (T : Int) (left right : List Dataset) (settings : Settings) (m n : Market)
    (hm : Market.new left settings.population = .ok m) (hn : Market.new right settings.population = .ok n)
    (hs : settings.check = .ok ()) (hagree : Dataset.Agree T left right) (bars : List Nat)
    (hbars : ∀ bar ∈ bars, ∃ time, time ≤ T ∧ m.timeline.get? bar = some time) :
    (∀ bar ∈ bars, n.timeline.get? bar = m.timeline.get? bar) ∧
    ∃ rules other, EngineRules.new m.feed settings = .ok rules ∧ EngineRules.new n.feed settings = .ok other ∧
      ∀ p s, rules.trail bars (rules.start p s) = other.trail bars (other.start p s) := by
  have hleft := Market.built_of_new hm
  have hright := Market.built_of_new hn
  refine ⟨fun bar hbar => ?_, ofSettings settings m.feed, ofSettings settings n.feed,
    new_eq_ok hs hleft.columnCount_pos, new_eq_ok hs hright.columnCount_pos, fun p s => ?_⟩
  · obtain ⟨time, ht, hat⟩ := hbars bar hbar
    rw [hat]
    exact Timeline.get?_eq_of_shared (Market.shared_points hleft hright hagree) hat ht
  · have hstart : (ofSettings settings m.feed).start p s = (ofSettings settings n.feed).start p s := by
      have hnames : m.sets.names = n.sets.names := Market.names_eq hleft hright hagree
      simp only [start, ofSettings, Market.feed, hnames]
    rw [hstart]
    refine trail_eq_of_sameAt (fun bar hbar => ?_) _
    obtain ⟨time, ht, hat⟩ := hbars bar hbar
    exact sameAt_of_agree hleft hright hagree ht hat

/-- three days of gold -/
def threeDays : Dataset :=
  ⟨"gold", [1, 2, 3], [#[1.0, 2.0, 4.0]], by simp, by simp, by decide⟩

/-- the first two of the three days -/
def twoDays : Dataset :=
  ⟨"gold", [1, 2], [#[1.0, 2.0]], by simp, by simp, by decide⟩

theorem twoDays_agrees : Dataset.AgreesUpTo 2 threeDays twoDays := by
  refine ⟨rfl, rfl, fun time ht => ?_⟩
  by_cases hfirst : time = 1
  · subst hfirst
    rfl
  · by_cases hsecond : time = 2
    · subst hsecond
      rfl
    · rw [Dataset.cellsAt?_eq_none_iff.2 (by simp [threeDays]; omega),
        Dataset.cellsAt?_eq_none_iff.2 (by simp [twoDays]; omega)]

/-- under the default settings the third day changes nothing about the first two -/
theorem no_look_ahead_gold :
    let settings : Settings := {}
    ∃ m n, Market.new [threeDays] settings.population = .ok m ∧ Market.new [twoDays] settings.population = .ok n ∧
      m.timeline.get? 2 = some 3 ∧ n.timeline.get? 2 = none ∧
      ∃ rules other, EngineRules.new m.feed settings = .ok rules ∧ EngineRules.new n.feed settings = .ok other ∧
        ∀ p s, rules.trail [0, 1] (rules.start p s) = other.trail [0, 1] (other.start p s) := by
  intro settings
  obtain ⟨m, hm⟩ : ∃ m, Market.new [threeDays] settings.population = .ok m := ⟨_, rfl⟩
  obtain ⟨n, hn⟩ : ∃ n, Market.new [twoDays] settings.population = .ok n := ⟨_, rfl⟩
  have hthree : m.timeline.points.toList = [1, 2, 3] := by
    rw [(Market.built_of_new hm).timeline]
    exact Timeline.points_ofTimes (by decide)
  have htwo : n.timeline.points.toList = [1, 2] := by
    rw [(Market.built_of_new hn).timeline]
    exact Timeline.points_ofTimes (by decide)
  have hget : ∀ bar, m.timeline.get? bar = [1, 2, 3][bar]? := fun bar => by
    rw [Timeline.get?, ← Array.getElem?_toList, hthree]
  have hagree : Dataset.Agree 2 [threeDays] [twoDays] := by
    constructor <;> simpa using twoDays_agrees
  have hbars : ∀ bar ∈ [0, 1], ∃ time, time ≤ 2 ∧ m.timeline.get? bar = some time := by
    intro bar hbar
    rw [hget]
    rcases List.mem_pair.1 hbar with rfl | rfl
    · exact ⟨1, by decide, rfl⟩
    · exact ⟨2, by decide, rfl⟩
  have hlast : n.timeline.get? 2 = none := by
    rw [Timeline.get?, ← Array.getElem?_toList, htwo]
    rfl
  exact ⟨m, n, hm, hn, hget 2, hlast,
    (no_look_ahead 2 [threeDays] [twoDays] settings m n hm hn (by decide) hagree [0, 1] hbars).2⟩

end EngineRules

end TradingRobots
