/-
The order in which datasets are loaded does not matter.

Datasets in another order make the same market, or fail as well, so an engine on it has the same feed: the same names in
the same order, the same bars and the same windows. From the same seed it draws the same first population, and runs to
the same end.

`loading_order_irrelevant`: loading, and what an engine does afterwards.
-/
import TradingRobots.Proofs.Engine.NoLookAhead
import TradingRobots.Proofs.Market.Loading
import TradingRobots.Proofs.Market.Views

namespace TradingRobots.Market

open TradingRobots.Random

/-- **The order in which datasets are loaded does not matter.** Take the same datasets in two orders. They make no
market exactly when there are none, when all columns of one are ignored, or when two share a name; so in both orders
they make one or in neither, and it is the same market. Its timeline, its names in their order, the numbers of bars and
columns, every range, and under every name and at every bar the window and the change are the same. Engines on them are
made alike, draw the same first population from the same stream, and from any population and stream come to the same
report and the same population. -/
theorem loading_order_irrelevant {left right : List Dataset} (h : left.Perm right) (settings : Settings) :
    ((∃ defect, Market.new left settings.population = .error defect) ↔
      left = [] ∨ (∃ d ∈ left, d.columns.length ≤ settings.population.ignoredColumns) ∨
        ¬(left.map Dataset.name).Nodup) ∧
    (∀ m, Market.new left settings.population = .ok m ↔ Market.new right settings.population = .ok m) ∧
    ∀ m n, Market.new left settings.population = .ok m → Market.new right settings.population = .ok n →
      m.timeline = n.timeline ∧ m.feed = n.feed ∧ (∀ name bar, m.change? name bar = n.change? name bar) ∧
      ∀ rules other, EngineRules.new m.feed settings = .ok rules → EngineRules.new n.feed settings = .ok other →
        ∀ s, Population.random? settings.population.desiredSize rules.bounds s =
            Population.random? settings.population.desiredSize other.bounds s ∧
          ∀ p watch stopAfter,
            rules.run watch stopAfter (rules.start p s) = other.run watch stopAfter (other.start p s) := by
  refine ⟨new_eq_error_iff, fun m => ⟨new_eq_ok_of_perm h, new_eq_ok_of_perm h.symm⟩, fun m n hm hn => ?_⟩
  obtain rfl : m = n := eq_of_perm h (built_of_new hm) (built_of_new hn)
  refine ⟨rfl, rfl, fun _ _ => rfl, fun rules other hrules hother s => ?_⟩
  rw [hrules] at hother
  cases hother
  exact ⟨rfl, fun _ _ _ => rfl⟩

/-- two datasets of different widths on interleaved days, loaded one way and the other -/
theorem loading_order_irrelevant_mixed :
    let settings : Settings := { population := { ignoredColumns := 1, maximumOffset := 4 } }
    [oddDays, mixedDays].Perm [mixedDays, oddDays] ∧
    ∃ m n rules other, Market.new [oddDays, mixedDays] settings.population = .ok m ∧
      Market.new [mixedDays, oddDays] settings.population = .ok n ∧ m.feed = n.feed ∧
      m.feed.names = ["mixed", "odd"] ∧
      EngineRules.new m.feed settings = .ok rules ∧ EngineRules.new n.feed settings = .ok other ∧
      ∀ p, rules.run .silent none (rules.start p (seeded 7)) = other.run .silent none (other.start p (seeded 7)) := by
  intro settings
  have hperm : [oddDays, mixedDays].Perm [mixedDays, oddDays] := .swap _ _ _
  obtain ⟨m, hm, hnames⟩ : ∃ m, Market.new [oddDays, mixedDays] settings.population = .ok m ∧
      m.feed.names = ["mixed", "odd"] := ⟨_, rfl, rfl⟩
  obtain ⟨n, hn⟩ : ∃ n, Market.new [mixedDays, oddDays] settings.population = .ok n := ⟨_, rfl⟩
  have hrules : EngineRules.new m.feed settings = .ok _ :=
    EngineRules.new_eq_ok (by decide) (built_of_new hm).columnCount_pos
  have hother : EngineRules.new n.feed settings = .ok _ :=
    EngineRules.new_eq_ok (by decide) (built_of_new hn).columnCount_pos
  obtain ⟨-, hfeed, -, hruns⟩ := (loading_order_irrelevant hperm settings).2.2 m n hm hn
  exact ⟨hperm, m, n, _, _, hm, hn, hfeed, hnames, hrules, hother,
    fun p => (hruns _ _ hrules hother (seeded 7)).2 p .silent none⟩

end TradingRobots.Market
