/-
Saving a population and loading it again.

The text that is saved spells the population, so loading reads every field of it as it was; only its doubles go through
a numeral. A double that is not finite is stored as null and refused. The check of a population asks for finite
constants, and it does not look at inherited weights: so what can be loaded is what passes the check and has finite
weights.

`loadPopulation_of_write?`: what is loaded after saving, whatever the doubles.
`saved_loads`: when the doubles come back as they were, exactly the loadable populations come back, and unchanged.
-/
import TradingRobots.CommandLine.Session
import TradingRobots.Proofs.Disk.Writing
import TradingRobots.Proofs.Population.Codec
import TradingRobots.Proofs.Population.Sound

namespace TradingRobots

/-! ## Doubles of checked populations -/

theorem Instruction.isFinite_of_isWithin {i : Instruction} {registers columns offset : Nat}
    (h : i.isWithin registers columns offset = true) : i.amounts.all Float.isFinite = true := by
  cases i with
  | constant use value register =>
    simp only [isWithin, Bool.and_eq_true] at h
    rw [amounts, List.all_cons, List.all_nil, Bool.and_true]
    exact h.1
  | _ => rfl

theorem ProgramBounds.Admits.isFinite {bounds : ProgramBounds} {p : Program} (h : bounds.Admits p) :
    p.amounts.all Float.isFinite = true := by
  rw [Program.amounts, List.all_flatMap, List.all_eq_true]
  exact fun i hi => Instruction.isFinite_of_isWithin (h.operands i hi)

namespace Population

variable {p : Population} {bounds : ProgramBounds}

/-- a population that can be loaded: it passes the check, and the stored weights are finite -/
structure Loadable (bounds : ProgramBounds) (p : Population) : Prop where
  checked : p.check bounds = .ok ()
  weighed : ∀ r ∈ p.robots, r.inheritedWeight.isFinite = true

/-- the check sees to the constants; the inherited weights are left -/
theorem loadable_iff : p.Loadable bounds ↔ p.check bounds = .ok () ∧ p.amounts.all Float.isFinite = true := by
  constructor
  · rintro ⟨hchecked, hweighed⟩
    refine ⟨hchecked, ?_⟩
    rw [amounts, List.all_flatMap, List.all_eq_true]
    intro r hr
    have hprogram := ((check_eq_ok_iff.1 hchecked).robots r hr).admitted.isFinite
    rw [Robot.amounts, List.all_append, hprogram, List.all_cons, List.all_nil, Bool.and_true, Bool.true_and]
    exact hweighed r hr
  · rintro ⟨hchecked, hfinite⟩
    refine ⟨hchecked, fun r hr => List.all_eq_true.1 hfinite _ ?_⟩
    exact List.mem_flatMap.2 ⟨r, hr, List.mem_append_right _ (List.mem_singleton_self _)⟩

/-! ## Loading what was saved -/

variable {disk saved : Disk} {path : String}

/-- a file that was saved is loaded as its text says -/
theorem loadPopulation_eq (hsave : disk.write? path p.fileText = some saved) :
    CommandLine.loadPopulation saved bounds path =
      match ofJson? p.toJson with
      | none => .error (.populationFile .malformed)
      | some q =>
        match q.check bounds with
        | .error defect => .error (.populationFile (.population defect))
        | .ok () => .ok q := by
  unfold CommandLine.loadPopulation
  rw [Disk.read?_of_write? hsave]
  dsimp only
  unfold ofFileText
  rw [parse?_fileText, Option.bind_some]
  cases ofJson? p.toJson with
  | none => rfl
  | some q =>
    dsimp only
    cases q.check bounds with
    | error defect => rfl
    | ok => rfl

/-- **What is loaded after saving**, whatever the doubles: the population as the file gives it back, if there is one and
it passes the check. -/
theorem loadPopulation_of_write? (hwords : p.InWords) (hsave : disk.write? path p.fileText = some saved)
    (q : Population) :
    CommandLine.loadPopulation saved bounds path = .ok q ↔ p.restored? = some q ∧ q.check bounds = .ok () := by
  rw [loadPopulation_eq hsave, ofJson?_toJson hwords]
  cases hrestored : p.restored? with
  | none => simp
  | some r =>
    dsimp only
    cases hcheck : r.check bounds with
    | error defect =>
      refine iff_of_false (by simp) ?_
      rintro ⟨hsame, hok⟩
      obtain rfl := Option.some.inj hsame
      rw [hcheck] at hok
      exact absurd hok (by simp)
    | ok =>
      constructor
      · intro hsame
        obtain rfl := Except.ok.inj hsame
        exact ⟨rfl, hcheck⟩
      · rintro ⟨hsame, -⟩
        rw [Option.some.inj hsame]

/-- **Exactly the loadable populations come back, and unchanged.** For a population whose counts fit machine words and
whose finite doubles come back as they were, loading after saving gives the population itself when it is loadable, gives
nothing else, and is a fault when it is not. -/
theorem saved_loads (hwords : p.InWords) (hback : ∀ x ∈ p.amounts, ComesBack x)
    (hsave : disk.write? path p.fileText = some saved) :
    (∀ q, CommandLine.loadPopulation saved bounds path = .ok q ↔ p.Loadable bounds ∧ q = p) ∧
    (¬p.Loadable bounds → ∃ fault, CommandLine.loadPopulation saved bounds path = .error fault) := by
  have hloaded : ∀ q, CommandLine.loadPopulation saved bounds path = .ok q ↔ p.Loadable bounds ∧ q = p := by
    intro q
    rw [loadPopulation_of_write? hwords hsave, restored?_eq hback, loadable_iff]
    constructor
    · rintro ⟨hrestored, hcheck⟩
      split at hrestored
      next hfinite =>
        obtain rfl := Option.some.inj hrestored
        exact ⟨⟨hcheck, hfinite⟩, rfl⟩
      next => exact absurd hrestored (by simp)
    · rintro ⟨⟨hcheck, hfinite⟩, rfl⟩
      exact ⟨if_pos hfinite, hcheck⟩
  -- loading gives a population or a fault, and the only population it can give is a loadable one
  refine ⟨hloaded, fun hnot => ?_⟩
  cases hload : CommandLine.loadPopulation saved bounds path with
  | error fault => exact ⟨fault, rfl⟩
  | ok q => exact absurd ((hloaded q).1 hload).1 hnot

/-- two robots with records, the second of the given weight -/
def pairWeighing (weight : Float) : Population where
  desiredSize := 5
  nextName := 3
  robots := [
    { Robot.new ⟨0⟩ ⟨[.constant .move 1.5 0, .data .add ⟨0, 0⟩ 0, .emitSignOf 0], 1⟩ 0.0 with
      pending := NameTable.empty.insert "gold" .long
      outcomes := 3
      predictions := 2
      correct := 1
      bias := -1
      isPredicting := true
      calls := 4 },
    { Robot.new ⟨2⟩ ⟨[.emit .short], 1⟩ 0.0 with inheritedWeight := weight }]

/-- a pair comes back from a new file; one of infinite weight passes the check and does not -/
theorem saved_loads_pair :
    let bounds : ProgramBounds := ⟨1, 4, 1, 1, 1⟩
    let empty := Disk.ofFiles []
    let saved := fun weight => empty.withFile ["pair.json"] (pairWeighing weight).fileText
    (∀ weight, empty.write? "pair.json" (pairWeighing weight).fileText = some (saved weight)) ∧
      (∀ x ∈ (pairWeighing 0.25).amounts, ComesBack x) ∧
      CommandLine.loadPopulation (saved 0.25) bounds "pair.json" = .ok (pairWeighing 0.25) ∧
      (pairWeighing Binary64.infinity).check bounds = .ok () ∧
      ∃ fault, CommandLine.loadPopulation (saved Binary64.infinity) bounds "pair.json" = .error fault := by
  intro bounds empty saved
  have hsave : ∀ weight, empty.write? "pair.json" (pairWeighing weight).fileText = some (saved weight) := fun _ => rfl
  have hback : ∀ x ∈ (pairWeighing 0.25).amounts, ComesBack x := by decide +kernel
  have hinfinite : ∀ x ∈ (pairWeighing Binary64.infinity).amounts, ComesBack x := by decide +kernel
  have hloadable : (pairWeighing 0.25).Loadable bounds := ⟨rfl, by decide +kernel⟩
  have hnot : ¬(pairWeighing Binary64.infinity).Loadable bounds := fun h => absurd h.weighed (by decide +kernel)
  exact ⟨hsave, hback, ((saved_loads (by decide) hback (hsave 0.25)).1 _).2 ⟨hloadable, rfl⟩, rfl,
    (saved_loads (by decide) hinfinite (hsave Binary64.infinity)).2 hnot⟩

end Population

end TradingRobots
