/-
A file that was written is read as it was written.

Writing leaves every folder in its place: where a path led through folders before, it still does. The new file stands
where its path leads, because a file is never written over a folder.

`read?_of_write?`: what is read at a path right after writing there.
-/
import TradingRobots.Disk
import Mathlib.Tactic

namespace TradingRobots.Disk

variable {d : Disk}

/-- a disk after a file was put under the names of its path -/
def withFile (d : Disk) (target : List String) (text : String) : Disk :=
  { d with files := (target, text) :: d.files.filter fun f => f.1 ≠ target }

/-- everything that writing a file checks -/
theorem write?_eq_some {path text : String} {saved : Disk} (h : d.write? path text = some saved) :
    ∃ names name, d.walk? (Path.start path) (Path.pieces path).dropLast = some (.folder names) ∧
      (Path.pieces path).getLastD "" = name ∧ Path.isSilent name = false ∧ name ≠ ".." ∧
      d.isFolder (names ++ [name]) = false ∧ saved = d.withFile (names ++ [name]) text := by
  unfold write? at h
  dsimp only at h
  split at h
  next names hwalk =>
    split at h
    next => exact absurd h (by simp)
    next hchecks =>
      simp only [Bool.or_eq_true, decide_eq_true_eq, not_or, Bool.not_eq_true] at hchecks
      obtain ⟨⟨⟨hsilent, hback⟩, -⟩, hfolder⟩ := hchecks
      exact ⟨names, _, hwalk, rfl, hsilent, hback, hfolder, (Option.some.inj h).symm⟩
  next => exact absurd h (by simp)

/-- folders stay -/
theorem isFolder_withFile {names : List String} (target : List String) (text : String) (h : d.isFolder names = true) :
    (d.withFile target text).isFolder names = true := by
  simp only [isFolder, Bool.or_eq_true] at h ⊢
  rcases h with h | h
  · exact .inl h
  right
  obtain ⟨f, hf, hin⟩ := List.any_eq_true.1 h
  -- a file that is written over still makes its folders be there
  by_cases hsame : f.1 = target
  · refine List.any_eq_true.2 ⟨(target, text), List.mem_cons_self, ?_⟩
    rwa [← hsame]
  · exact List.any_eq_true.2 ⟨f, List.mem_cons_of_mem _ (List.mem_filter.2 ⟨hf, by simpa using hsame⟩), hin⟩

/-- no file comes to lie where none was, but the one written -/
theorem lookup_withFile {names target : List String} {text : String} (hne : names ≠ target)
    (h : d.files.lookup names = none) : (d.withFile target text).files.lookup names = none := by
  rw [List.lookup_eq_none_iff] at h ⊢
  intro f hf
  rcases List.mem_cons.1 hf with rfl | hf
  · simpa using hne
  · exact h f (List.mem_of_mem_filter hf)

/-- the way through folders is the same after a file was written over none of them -/
theorem walk?_withFile {target : List String} {text : String} (htarget : d.isFolder target = false)
    {names pieces found : List String} (h : d.walk? names pieces = some (.folder found)) (rest : List String) :
    (d.withFile target text).walk? names (pieces ++ rest) = (d.withFile target text).walk? found.reverse rest := by
  induction pieces generalizing names with
  | nil =>
    rw [walk?] at h
    obtain rfl : names.reverse = found := by simpa using h
    rw [List.nil_append, List.reverse_reverse]
  | cons piece pieces ih =>
    rw [walk?] at h
    split at h
    next => split at h <;> exact absurd h (by simp)
    next hnone =>
      split at h
      next hfolder =>
        -- the way leads through a folder here, and the target is none
        have hne : (Path.enter names piece).reverse ≠ target := by
          rintro rfl
          rw [hfolder] at htarget
          exact absurd htarget (by decide)
        rw [List.cons_append, walk?, lookup_withFile hne hnone]
        dsimp only
        rw [if_pos (isFolder_withFile target text hfolder), ih h]
      next => exact absurd h (by simp)

/-- **What is written at a path is read there.** -/
theorem read?_of_write? {path text : String} {saved : Disk} (h : d.write? path text = some saved) :
    saved.read? path = some text := by
  obtain ⟨names, name, hwalk, hname, hsilent, hback, hfolder, rfl⟩ := write?_eq_some h
  have hnamed : Path.pieces path ≠ [] := by
    intro hnil
    rw [hnil] at hname
    rw [← hname] at hsilent
    exact absurd hsilent (by decide)
  have hpieces : Path.pieces path = (Path.pieces path).dropLast ++ [name] := by
    rw [← hname, List.getLastD_eq_getLast?, List.getLast?_eq_getLast_of_ne_nil hnamed, Option.getD_some,
      List.dropLast_append_getLast hnamed]
  have hpath : path.isEmpty = false := by
    refine Bool.eq_false_iff.2 fun hempty => ?_
    obtain rfl := String.isEmpty_iff.1 hempty
    rw [← hname] at hsilent
    exact absurd hsilent (by decide)
  have hfile : (d.withFile (names ++ [name]) text).walk? names.reverse [name] = some (.file text) := by
    have hnext : Path.enter names.reverse name = name :: names.reverse := by
      rw [Path.enter, if_neg (by rw [hsilent]; exact Bool.false_ne_true), if_neg hback]
    rw [walk?, hnext, List.reverse_cons, List.reverse_reverse]
    simp [withFile]
  have hfind : (d.withFile (names ++ [name]) text).find? path = some (.file text) := by
    rw [find?, hpath, if_neg Bool.false_ne_true, hpieces, walk?_withFile hfolder hwalk, hfile]
  rw [read?, hfind]

end TradingRobots.Disk
