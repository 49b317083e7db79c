/-
The bars between two times.

Both ends of a range are searched for: the points before the opening time are counted, and those up to the closing one.
A bar lies in the range exactly when its time lies between the two, so a range is missing only where no point does.

`mem_range_iff`: the bars of a range are those whose times lie within.
`range?_eq_none_iff`: there is no range exactly when no point lies within.
-/
import TradingRobots.Proofs.Timeline.Search

namespace TradingRobots.Timeline

/-- a time lies between two others, of which each limits only if it is given -/
def Within (start stop : Option Int) (time : Int) : Prop :=
  (∀ opening, start = some opening → opening ≤ time) ∧ ∀ closing, stop = some closing → time ≤ closing

/-- every time lies between limits that are not given -/
theorem within_none (time : Int) : Within none none time := by
  constructor
  · rintro opening ⟨⟩
  · rintro closing ⟨⟩

variable {t : Timeline} {start stop : Option Int}

theorem brackets_countUpTo (t : Timeline) (time : Int) :
    Brackets t.points (fun p => p ≤ time) (t.countUpTo time) (t.countUpTo time) :=
  brackets_boundary t.ascending (fun x y hxy hy => by simp only [decide_eq_true_eq] at hy ⊢; omega)
    ⟨Nat.zero_le _, Nat.le_refl _, fun _ _ _ hi => absurd hi (Nat.not_lt_zero _), fun i x hx hi => by
      rw [Array.getElem?_eq_none hi] at hx
      cases hx⟩

/-- the points before a time come before the bars at or after it -/
theorem countBefore_le_iff {bar : Nat} {time x : Int} (h : t.get? bar = some x) :
    t.countBefore time ≤ bar ↔ time ≤ x := by
  have hb := brackets_countBefore t time
  constructor
  · intro hle
    have := hb.after bar x h hle
    simp only [decide_eq_false_iff_not] at this
    omega
  · intro hle
    by_contra hlt
    have := hb.before bar x h (by omega)
    simp only [decide_eq_true_eq] at this
    omega

theorem lt_countUpTo_iff {bar : Nat} {time x : Int} (h : t.get? bar = some x) :
    bar < t.countUpTo time ↔ x ≤ time := by
  have hb := brackets_countUpTo t time
  constructor
  · intro hlt
    have := hb.before bar x h hlt
    simpa only [decide_eq_true_eq] using this
  · intro hle
    by_contra hge
    have := hb.after bar x h (by omega)
    simp only [decide_eq_false_iff_not] at this
    omega

/-- the first and the last point of a timeline enclose all others -/
theorem enclosed {bar : Nat} {x : Int} (h : t.get? bar = some x) :
    ∃ first last, t.first? = some first ∧ t.last? = some last ∧ first ≤ x ∧ x ≤ last := by
  have hbar : bar < t.points.size := (Array.getElem?_eq_some_iff.1 h).1
  have hfirst : t.points[0]? = some t.points[0] := Array.getElem?_eq_getElem (by omega)
  have hlast : t.points[t.points.size - 1]? = some t.points[t.points.size - 1] := Array.getElem?_eq_getElem (by omega)
  refine ⟨_, _, hfirst, ?_, le_of_getElem?_le t.ascending hfirst h (Nat.zero_le _),
    le_of_getElem?_le t.ascending h hlast (by omega)⟩
  rw [last?, Array.back?_eq_getElem?]
  exact hlast

/-- the limits that a timeline and two optional times set together -/
theorem within_iff {first last x : Int} (hfirst : first ≤ x) (hlast : x ≤ last) :
    Within start stop x ↔ max (start.getD first) first ≤ x ∧ x ≤ min (stop.getD last) last := by
  unfold Within
  cases start with
  | none =>
    cases stop with
    | none => simp [hfirst, hlast]
    | some closing => simp [hfirst, hlast]
  | some opening =>
    cases stop with
    | none => simp [hfirst, hlast]
    | some closing => simp [hfirst, hlast]

/-- the first and the last bar of a range, given the ends of the timeline -/
theorem range?_eq {first last : Int} (hfirst : t.first? = some first) (hlast : t.last? = some last) :
    t.range? start stop =
      if min (stop.getD last) last < max (start.getD first) first then none
      else if t.countUpTo (min (stop.getD last) last) = 0 then none
      else if t.countBefore (max (start.getD first) first) ≤ t.countUpTo (min (stop.getD last) last) - 1 then
        some (t.countBefore (max (start.getD first) first), t.countUpTo (min (stop.getD last) last) - 1)
      else none := by
  simp only [range?, hfirst, hlast, Option.bind_eq_bind, Option.bind_some]

/-- what a range is: it opens at the first point not before the limits, and closes at the last one not after them -/
theorem range?_eq_some {first last : Nat} (h : t.range? start stop = some (first, last)) :
    ∃ a b, t.first? = some a ∧ t.last? = some b ∧ first = t.countBefore (max (start.getD a) a) ∧
      last + 1 = t.countUpTo (min (stop.getD b) b) ∧ first ≤ last := by
  obtain ⟨a, ha, h'⟩ := Option.bind_eq_some_iff.1 h
  obtain ⟨b, hb, -⟩ := Option.bind_eq_some_iff.1 h'
  rw [range?_eq ha hb] at h
  refine ⟨a, b, ha, hb, ?_⟩
  split at h
  · cases h
  · split at h
    · cases h
    · split at h
      · rename_i hsome hle
        cases h
        exact ⟨rfl, Nat.succ_pred_eq_of_ne_zero hsome, hle⟩
      · cases h

/-- **The bars of a range are those whose times lie within.** -/
theorem mem_range_iff {first last : Nat} (h : t.range? start stop = some (first, last)) {bar : Nat} :
    first ≤ bar ∧ bar ≤ last ↔ ∃ time, t.get? bar = some time ∧ Within start stop time := by
  obtain ⟨a, b, ha, hb, hopening, hclosing, -⟩ := range?_eq_some h
  have hwithin : ∀ time, t.get? bar = some time →
      (Within start stop time ↔ first ≤ bar ∧ bar < last + 1) := by
    intro time hat
    obtain ⟨a', b', ha', hb', hfirst, hlast⟩ := enclosed hat
    rw [ha] at ha'
    rw [hb] at hb'
    cases ha'
    cases hb'
    rw [within_iff hfirst hlast, hopening, hclosing, countBefore_le_iff hat, lt_countUpTo_iff hat]
  constructor
  · rintro ⟨hge, hle⟩
    have hupTo := (brackets_countUpTo t (min (stop.getD b) b)).within
    have hat : t.get? bar = some t.points[bar] := Array.getElem?_eq_getElem (by omega)
    exact ⟨_, hat, (hwithin _ hat).2 ⟨hge, Nat.lt_succ_of_le hle⟩⟩
  · rintro ⟨time, hat, hin⟩
    obtain ⟨hge, hlt⟩ := (hwithin time hat).1 hin
    exact ⟨hge, Nat.le_of_lt_succ hlt⟩

/-- **There is no range exactly when no point lies within.** -/
theorem range?_eq_none_iff :
    t.range? start stop = none ↔ ∀ bar time, t.get? bar = some time → ¬Within start stop time := by
  constructor
  · intro hnone bar time hat hwithin
    obtain ⟨a, b, ha, hb, hfirst, hlast⟩ := enclosed hat
    obtain ⟨hlow, hhigh⟩ := (within_iff hfirst hlast).1 hwithin
    have hopening := (countBefore_le_iff hat).2 hlow
    have hclosing := (lt_countUpTo_iff hat).2 hhigh
    rw [range?_eq ha hb, if_neg (by omega), if_neg (by omega), if_pos (by omega)] at hnone
    cases hnone
  · intro hnot
    cases h : t.range? start stop with
    | none => rfl
    | some bounds =>
      obtain ⟨first, last⟩ := bounds
      obtain ⟨a, b, -, -, -, -, hle⟩ := range?_eq_some h
      obtain ⟨time, hat, hwithin⟩ := (mem_range_iff h).1 ⟨Nat.le_refl first, hle⟩
      exact absurd hwithin (hnot first time hat)

/-- the range between a point and itself -/
theorem range?_self {bar : Nat} {time : Int} (h : t.get? bar = some time) :
    t.range? (some time) (some time) = some (bar, bar) := by
  have hself : Within (some time) (some time) time :=
    ⟨fun _ h => by cases h; exact Int.le_refl _, fun _ h => by cases h; exact Int.le_refl _⟩
  cases hrange : t.range? (some time) (some time) with
  | none => exact absurd hself (range?_eq_none_iff.1 hrange bar time h)
  | some bounds =>
    obtain ⟨first, last⟩ := bounds
    have hbar := (mem_range_iff hrange).2 ⟨time, h, hself⟩
    have hsame : ∀ other, first ≤ other ∧ other ≤ last → other = bar := by
      intro other hother
      obtain ⟨time', hat, hopening, hclosing⟩ := (mem_range_iff hrange).1 hother
      have hequal : time' = time := Int.le_antisymm (hclosing time rfl) (hopening time rfl)
      exact get?_injective (hequal ▸ hat) h
    rw [hsame first ⟨Nat.le_refl _, hbar.1.trans hbar.2⟩, hsame last ⟨hbar.1.trans hbar.2, Nat.le_refl _⟩]

end TradingRobots.Timeline
