/-
Votes are monotone and fair.

Both sides carry weights that are not negative, infinity among them, and a side wins over the other when it `Outweighs` it.
More weight on the winning side, or less on the other, leaves it the winner, and so does a lower threshold; and no side
outweighs one that outweighs it. Whatever is said of one side holds of the other with the sides exchanged.

`Outweighs.mono`, `Outweighs.lower`: weights and thresholds.
`polarity_decide_mono`: a tally that leans more to the long side does not decide lower.
`decision_fair`: further votes, exchanged sides, higher thresholds.
-/
import TradingRobots.Proofs.Number.Extent
import TradingRobots.Vote

namespace TradingRobots

/-- the signal for the other side -/
def Signal.opposite : Signal → Signal
  | long => short
  | short => long
  | out => out

namespace Tally

open Binary64
open Random.Stream (value)

/-! ## Winning -/

/-- one side wins over the other under a threshold -/
def Outweighs (threshold winner loser : Float) : Prop :=
  loser < winner ∧ loser * threshold ≤ winner

/-- the thresholds that a vote can have -/
structure Threshold (threshold : Float) : Prop where
  isFinite : threshold.isFinite = true
  one_le : 1.0 ≤ threshold

variable {threshold higher a b a' b' : Float}

theorem Threshold.plain (h : Threshold threshold) : Plain threshold :=
  plain_of_pos h.isFinite (pos_of_le (by decide) h.one_le)

theorem Threshold.one_le_size (h : Threshold threshold) : 1 ≤ size (value threshold) :=
  size_one.symm.trans_le (size_le_of_le plain_one h.plain h.one_le)

theorem Threshold.pos (h : Threshold threshold) : 0 < size (value threshold) :=
  one_pos.trans_le h.one_le_size

/-- a higher threshold is one, too -/
theorem Threshold.raised (h : Threshold threshold) (hfinite : higher.isFinite = true) (hle : threshold ≤ higher) :
    Threshold higher := by
  have hpositive : 0.0 < threshold := pos_of_le (by decide) h.one_le
  have hplain : Plain higher := plain_of_pos hfinite (pos_of_le hpositive hle)
  refine ⟨hfinite, le_of_extent_le plain_one.nonNegative hplain.nonNegative ?_⟩
  rw [plain_one.extent_eq, hplain.extent_eq, WithTop.coe_le_coe, size_one]
  exact h.one_le_size.trans (size_le_of_le h.plain hplain hle)

/-- **More weight for the winner, or less against it, leaves it the winner.** -/
theorem Outweighs.mono (h : Outweighs threshold a b) (ht : Threshold threshold) (ha : NonNegative (value a))
    (hb : NonNegative (value b)) (ha' : NonNegative (value a')) (hb' : NonNegative (value b'))
    (hmore : extent a ≤ extent a') (hless : extent b' ≤ extent b) : Outweighs threshold a' b' := by
  obtain ⟨hheavier, hmargin⟩ := h
  rw [lt_iff_extent hb ha] at hheavier
  rw [le_iff_extent (nonNegative_product hb ht.plain ht.pos) ha] at hmargin
  refine ⟨(lt_iff_extent hb' ha').2 (hless.trans_lt (hheavier.trans_le hmore)), ?_⟩
  rw [le_iff_extent (nonNegative_product hb' ht.plain ht.pos) ha']
  exact (extent_mul_mono hb' hb ht.plain ht.plain ht.pos hless le_rfl).trans (hmargin.trans hmore)

/-- **A lower threshold leaves the winner.** -/
theorem Outweighs.lower (h : Outweighs higher a b) (ht : Threshold threshold) (hh : Threshold higher)
    (ha : NonNegative (value a)) (hb : NonNegative (value b)) (hle : threshold ≤ higher) :
    Outweighs threshold a b := by
  obtain ⟨hheavier, hmargin⟩ := h
  refine ⟨hheavier, ?_⟩
  rw [le_iff_extent (nonNegative_product hb hh.plain hh.pos) ha] at hmargin
  rw [le_iff_extent (nonNegative_product hb ht.plain ht.pos) ha]
  exact (extent_mul_mono hb hb ht.plain hh.plain hh.pos le_rfl (size_le_of_le ht.plain hh.plain hle)).trans hmargin

theorem Outweighs.asymm (h : Outweighs threshold a b) (ha : NonNegative (value a)) (hb : NonNegative (value b)) :
    ¬Outweighs threshold b a :=
  fun h' => lt_asymm ((lt_iff_extent hb ha).1 h.1) ((lt_iff_extent ha hb).1 h'.1)

/-! ## Tallies -/

/-- neither side's weight is negative -/
structure Weighed (t : Tally) : Prop where
  long : NonNegative (value t.longWeight)
  short : NonNegative (value t.shortWeight)

theorem weighed_empty : empty.Weighed :=
  ⟨rfl, rfl⟩

theorem nonNegative_usable (weight : Float) : NonNegative (value (usable weight)) := by
  unfold usable
  split
  · exact nonNegative_clamped weight
  · rfl

variable {t t' : Tally}

theorem Weighed.add (h : t.Weighed) (signal : Signal) (weight : Float) : (t.add signal weight).Weighed := by
  cases signal with
  | long => exact ⟨nonNegative_sum h.long (nonNegative_usable weight), h.short⟩
  | short => exact ⟨h.long, nonNegative_sum h.short (nonNegative_usable weight)⟩
  | out => exact ⟨h.long, h.short⟩

theorem Weighed.foldl (h : t.Weighed) (votes : List (Signal × Float)) :
    (votes.foldl (fun t v => t.add v.1 v.2) t).Weighed := by
  induction votes generalizing t with
  | nil => exact h
  | cons v rest ih => exact ih (h.add v.1 v.2)

theorem weighed_ofVotes (votes : List (Signal × Float)) : (ofVotes votes).Weighed :=
  weighed_empty.foldl votes

theorem ofVotes_concat (votes : List (Signal × Float)) (signal : Signal) (weight : Float) :
    ofVotes (votes ++ [(signal, weight)]) = (ofVotes votes).add signal weight := by
  rw [ofVotes, List.foldl_append]
  rfl

/-! ## Decisions -/

theorem decide_eq_long_iff : t.decide threshold = .long ↔ Outweighs threshold t.longWeight t.shortWeight := by
  unfold decide
  split
  next h => exact iff_of_true rfl h
  next h =>
    refine iff_of_false ?_ h
    split <;> simp

theorem Weighed.decide_eq_short_iff (h : t.Weighed) :
    t.decide threshold = .short ↔ Outweighs threshold t.shortWeight t.longWeight := by
  unfold decide
  split
  next hlong => exact iff_of_false (by simp) (Outweighs.asymm hlong h.long h.short)
  next =>
    split
    next hshort => exact iff_of_true rfl hshort
    next hshort => exact iff_of_false (by simp) hshort

/-- **A tally that leans more to the long side does not decide lower.** -/
theorem polarity_decide_mono (ht : Threshold threshold) (h : t.Weighed) (h' : t'.Weighed)
    (hlong : extent t.longWeight ≤ extent t'.longWeight) (hshort : extent t'.shortWeight ≤ extent t.shortWeight) :
    (t.decide threshold).polarity ≤ (t'.decide threshold).polarity := by
  cases hd : t.decide threshold with
  | long =>
    have hwins := (decide_eq_long_iff.1 hd).mono ht h.long h.short h'.long h'.short hlong hshort
    rw [decide_eq_long_iff.2 hwins]
  | short => cases t'.decide threshold <;> decide
  | out =>
    cases hd' : t'.decide threshold with
    | short =>
      -- then the short side would have won before, too
      have hwins := (h'.decide_eq_short_iff.1 hd').mono ht h'.short h'.long h.short h.long hshort hlong
      rw [h.decide_eq_short_iff.2 hwins] at hd
      cases hd
    | _ => decide

/-- the tally with the sides exchanged -/
def swapped (t : Tally) : Tally :=
  ⟨t.shortWeight, t.longWeight, t.shortCount, t.longCount, t.outCount⟩

theorem swapped_add (t : Tally) (signal : Signal) (weight : Float) :
    (t.add signal weight).swapped = t.swapped.add signal.opposite weight := by
  cases signal <;> rfl

theorem swapped_foldl (t : Tally) (votes : List (Signal × Float)) :
    (votes.foldl (fun t v => t.add v.1 v.2) t).swapped =
      (votes.map fun v => (v.1.opposite, v.2)).foldl (fun t v => t.add v.1 v.2) t.swapped := by
  induction votes generalizing t with
  | nil => rfl
  | cons v rest ih => rw [List.foldl_cons, ih, swapped_add, List.map_cons, List.foldl_cons]

theorem Weighed.decide_swapped (h : t.Weighed) : t.swapped.decide threshold = (t.decide threshold).opposite := by
  have hswapped : t.swapped.Weighed := ⟨h.short, h.long⟩
  have hlong : t.swapped.decide threshold = .long ↔ t.decide threshold = .short := by
    rw [decide_eq_long_iff, h.decide_eq_short_iff]
    rfl
  have hshort : t.swapped.decide threshold = .short ↔ t.decide threshold = .long := by
    rw [hswapped.decide_eq_short_iff, decide_eq_long_iff]
    rfl
  cases hd : t.decide threshold with
  | long => exact hshort.2 hd
  | short => exact hlong.2 hd
  | out =>
    rw [hd] at hlong hshort
    cases hd' : t.swapped.decide threshold with
    | long => cases hlong.1 hd'
    | short => cases hshort.1 hd'
    | out => rfl

/-- **A higher threshold decides the same, or nothing.** -/
theorem decide_higher (h : t.Weighed) (ht : Threshold threshold) (hh : Threshold higher) (hle : threshold ≤ higher) :
    t.decide higher = t.decide threshold ∨ t.decide higher = .out := by
  cases hd : t.decide higher with
  | long => exact .inl (decide_eq_long_iff.2 ((decide_eq_long_iff.1 hd).lower ht hh h.long h.short hle)).symm
  | short =>
    have hwins := (h.decide_eq_short_iff.1 hd).lower ht hh h.short h.long hle
    exact .inl (h.decide_eq_short_iff.2 hwins).symm
  | out => exact .inr rfl

/-- the decision of votes under a threshold -/
def decision (votes : List (Signal × Float)) (threshold : Float) : Signal :=
  (ofVotes votes).decide threshold

/-- **Votes are monotone and fair.** Of any votes, whatever they weigh, and any finite threshold of at least one: one more
long vote does not lower the decision, one more short vote does not raise it, and one that is out changes nothing. With
the sides of all votes exchanged the decision is exchanged. A higher threshold decides the same, or nothing. A side is
decided for exactly when it weighs more than the other, and the threshold times as much at least. -/
theorem decision_fair (votes : List (Signal × Float)) (threshold : Float) (hfinite : threshold.isFinite = true)
    (hone : 1.0 ≤ threshold) :
    (∀ weight, (decision votes threshold).polarity ≤ (decision (votes ++ [(.long, weight)]) threshold).polarity) ∧
    (∀ weight, (decision (votes ++ [(.short, weight)]) threshold).polarity ≤ (decision votes threshold).polarity) ∧
    (∀ weight, decision (votes ++ [(.out, weight)]) threshold = decision votes threshold) ∧
    decision (votes.map fun v => (v.1.opposite, v.2)) threshold = (decision votes threshold).opposite ∧
    (∀ higher : Float, higher.isFinite = true → threshold ≤ higher →
      decision votes higher = decision votes threshold ∨ decision votes higher = .out) ∧
    (decision votes threshold = .long ↔ (ofVotes votes).shortWeight < (ofVotes votes).longWeight ∧
      (ofVotes votes).shortWeight * threshold ≤ (ofVotes votes).longWeight) ∧
    (decision votes threshold = .short ↔ (ofVotes votes).longWeight < (ofVotes votes).shortWeight ∧
      (ofVotes votes).longWeight * threshold ≤ (ofVotes votes).shortWeight) := by
  have ht : Threshold threshold := ⟨hfinite, hone⟩
  have hweighed := weighed_ofVotes votes
  refine ⟨fun weight => ?_, fun weight => ?_, fun weight => ?_, ?_, fun higher hfinite' hle => ?_, decide_eq_long_iff,
    hweighed.decide_eq_short_iff⟩
  · rw [decision, decision, ofVotes_concat]
    exact polarity_decide_mono ht hweighed (hweighed.add .long weight)
      (extent_le_add hweighed.long (nonNegative_usable weight)) le_rfl
  · rw [decision, decision, ofVotes_concat]
    exact polarity_decide_mono ht (hweighed.add .short weight) hweighed le_rfl
      (extent_le_add hweighed.short (nonNegative_usable weight))
  · rw [decision, decision, ofVotes_concat]
    rfl
  · have hswapped : ofVotes (votes.map fun v => (v.1.opposite, v.2)) = (ofVotes votes).swapped :=
      (swapped_foldl empty votes).symm
    rw [decision, hswapped]
    exact hweighed.decide_swapped
  · exact decide_higher hweighed ht (ht.raised hfinite' hle) hle

/-- votes whose weights are not finite or below zero, and two that weigh exactly three to one -/
def threeToOne : List (Signal × Float) :=
  [(.long, 3.0), (.short, Float.ofBits 0x7FF8000000000000), (.out, 9.0), (.short, Float.ofBits 0x7FF0000000000000),
    (.short, -1.0), (.short, 1.0)]

/-- three to one is enough for a threshold of three, whatever a further long vote weighs; with the sides exchanged the
short side wins -/
theorem decision_fair_threeToOne :
    (3.0 : Float).isFinite = true ∧ 1.0 ≤ (3.0 : Float) ∧ decision threeToOne 3.0 = .long ∧
      (∀ weight, 1 ≤ (decision (threeToOne ++ [(.long, weight)]) 3.0).polarity) ∧
      decision (threeToOne.map fun v => (v.1.opposite, v.2)) 3.0 = .short := by
  have hlong : decision threeToOne 3.0 = .long := by decide +kernel
  obtain ⟨hmore, -, -, hexchanged, -⟩ := decision_fair threeToOne 3.0 (by decide) (by decide)
  refine ⟨by decide, by decide, hlong, fun weight => ?_, ?_⟩
  · have hpolarity := hmore weight
    rwa [hlong] at hpolarity
  · rw [hexchanged, hlong]
    rfl

end Tally

end TradingRobots
