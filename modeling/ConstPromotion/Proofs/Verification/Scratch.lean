import ConstPromotion.Proofs.Attempt
import ConstPromotion.Proofs.FileSystem.Operations
import ConstPromotion.Proofs.Text.Decimal
import ConstPromotion.Verification.Scratch

/-!
# Making scratch directories

Different numbers give different names, so one more name than there are entries is enough to find
one that is not taken (`exists_free_scratchName`). In a directory with room for these names, a
scratch directory is therefore always made (`run_createScratch`).
-/

namespace ConstPromotion

open FileSystem

/-! ### Names -/

lemma scratchName_injective : Function.Injective scratchName := fun _ _ h =>
  Decimal.renderPadded_injective 6 (List.append_cancel_left h)

lemma ne_of_mem_scratchName {n : Nat} {c : Char} (h : c ∈ scratchName n) :
    c ≠ '/' ∧ c ≠ '\x00' := by
  rcases List.mem_append.mp h with hstem | hdigit
  · have hall : scratchStem.toList.all fun c => c ≠ '/' && c ≠ '\x00' := by decide
    exact (by simpa using hall : ∀ c ∈ scratchStem.toList, c ≠ '/' ∧ c ≠ '\x00') c hstem
  · have hdigit := Decimal.isDigit_of_mem_renderPadded hdigit
    constructor <;>
    · rintro rfl
      simp at hdigit

lemma isEntryName_scratchName (n : Nat) : Path.IsEntryName (scratchName n) := by
  have hlong : 2 < (scratchName n).length := by
    rw [scratchName, List.length_append, show scratchStem.toList.length = 11 by decide]
    omega
  refine ⟨List.ne_nil_of_length_pos (by omega), fun h => (ne_of_mem_scratchName h).1 rfl, ?_, ?_⟩
  · intro heq
    simp [heq] at hlong
  · intro heq
    simp [heq] at hlong

lemma isValidName_scratchName {n : Nat} (h : Utf8.size (scratchName n) ≤ maxNameBytes) :
    IsValidName (scratchName n) :=
  ⟨isEntryName_scratchName n, fun hmem => (ne_of_mem_scratchName hmem).2 rfl, h⟩

/-- Among the names up to the number of entries there is one that no entry of a directory has. -/
lemma exists_free_scratchName (fs : FileSystem) (l : Location) :
    ∃ n ≤ fs.nodes.entries.length, fs.nodeAt (l ++ [scratchName n]) = none := by
  -- more names are tried than there are entries that could have them
  by_contra h
  push Not at h
  let taken := (List.range (fs.nodes.entries.length + 1)).map fun n => l ++ [scratchName n]
  have hnodup : taken.Nodup := by
    refine List.Nodup.map (fun m n hmn => scratchName_injective ?_) List.nodup_range
    simpa using hmn
  have hsubset : taken ⊆ fs.nodes.keys := by
    intro k hk
    obtain ⟨n, hn, rfl⟩ := List.mem_map.mp hk
    have hn : n ≤ fs.nodes.entries.length := by simpa [Nat.lt_succ_iff] using hn
    obtain ⟨node, hnode⟩ := Option.ne_none_iff_exists'.mp (h n hn)
    exact mem_keys_of_nodeAt (by simp) hnode
  have hlength := (hnodup.subperm hsubset).length_le
  simp [taken, SortedMap.keys] at hlength

/-! ### Places -/

/-- Whether the limits of the file system allow an entry with a name in a directory. -/
def Path.Admits (p : Path) (n : Name) : Prop :=
  Utf8.size n ≤ maxNameBytes ∧ (p.child n).IsShort

instance (p : Path) (n : Name) : Decidable (p.Admits n) := inferInstanceAs (Decidable (_ ∧ _))

/-- The directory in which scratch directories are made. -/
def World.scratchParent (w : World) (place : Option Path) : Except OsError Path :=
  let given := place.getD (.ofString ((w.env.get? "TMPDIR").getD "/tmp"))
  if given.isAbsolute then .ok given else w.fs.currentDir.map (·.join given)

variable {ε : Type} {wrap : ScratchError → ε} {w : World} {parent : Path} {l : Location}

lemma run_temporaryDirectory :
    (temporaryDirectory : Action ε Path).run.run w =
      (.ok (.ofString ((w.env.get? "TMPDIR").getD "/tmp")), w) := by
  simp only [temporaryDirectory, envVar?, Attempt.run_bind, Attempt.run_get, Attempt.run_pure]

lemma run_createScratch_eq {place : Option Path} (h : w.scratchParent place = .ok parent) :
    (createScratch wrap place).run.run w =
      (createScratchFrom wrap parent 0 (w.fs.nodes.entries.length + 1)).run.run w := by
  rw [World.scratchParent] at h
  generalize hgiven : place.getD (.ofString ((w.env.get? "TMPDIR").getD "/tmp")) = given at h
  have hplace : (createScratch wrap place).run.run w =
      (createScratch wrap (some given)).run.run w := by
    cases place with
    | some p => rw [← hgiven, Option.getD_some]
    | none =>
      rw [← hgiven, Option.getD_none, createScratch.eq_def, createScratch.eq_def]
      simp only [Attempt.run_bind, Attempt.run_onWorld, run_temporaryDirectory, Attempt.run_pure]
  rw [hplace]
  unfold createScratch
  by_cases habsolute : given.isAbsolute
  · rw [if_pos habsolute, Except.ok.injEq] at h
    subst h
    simp only [habsolute, if_true, pure_bind]
    rfl
  · rw [if_neg habsolute] at h
    cases hdir : w.fs.currentDir with
    | error e => simp [hdir, Except.map] at h
    | ok here =>
      simp only [hdir, Except.map, Except.ok.injEq] at h
      simp only [habsolute, Bool.false_eq_true, if_false, pure_bind, Attempt.run_bind,
        Attempt.run_wrapping, Attempt.run_inspect, HasFiles.files, hdir, Except.mapError, h,
        Attempt.run_query]

/-- A free name among those that are tried is found, and the first one is taken. -/
lemma run_createScratchFrom (hparent : w.fs.find parent = .ok (l, .directory)) {tries n : Nat}
    (hadmits : ∀ k < n + tries, parent.Admits (scratchName k))
    (hfree : ∃ k, n ≤ k ∧ k < n + tries ∧ w.fs.nodeAt (l ++ [scratchName k]) = none) :
    ∃ k < n + tries, w.fs.nodeAt (l ++ [scratchName k]) = none ∧
      (createScratchFrom wrap parent n tries).run.run w =
        (.ok (parent.child (scratchName k)),
          { w with fs := w.fs.put (l ++ [scratchName k]) .directory }) := by
  induction tries generalizing n with
  | zero =>
    obtain ⟨k, hn, hk, -⟩ := hfree
    omega
  | succ tries ih =>
    obtain ⟨hsize, hshort⟩ := hadmits n (by omega)
    have hname := isValidName_scratchName hsize
    rw [createScratchFrom, Attempt.run_bind, Attempt.run_outcome]
    by_cases hnode : w.fs.nodeAt (l ++ [scratchName n]) = none
    · refine ⟨n, by omega, hnode, ?_⟩
      rw [Attempt.run_createDirectory_ok (createDirectory_child hparent hname hshort hnode)]
      rfl
    · rw [Attempt.run_createDirectory_error
        (createDirectory_child_of_taken hparent hname hshort hnode)]
      obtain ⟨k, hn, hk, hfreek⟩ := hfree
      have hne : k ≠ n := by
        rintro rfl
        exact hnode hfreek
      obtain ⟨k, hk, hrun⟩ := ih (n := n + 1) (fun k hk => hadmits k (by omega))
        ⟨k, by omega, by omega, hfreek⟩
      exact ⟨k, by omega, hrun⟩

/-- Where there is room for its names, a scratch directory is made. -/
lemma run_createScratch (wrap : ScratchError → ε) {place : Option Path}
    (h : w.scratchParent place = .ok parent) (hparent : w.fs.find parent = .ok (l, .directory))
    (hadmits : ∀ k ≤ w.fs.nodes.entries.length, parent.Admits (scratchName k)) :
    ∃ k ≤ w.fs.nodes.entries.length, w.fs.nodeAt (l ++ [scratchName k]) = none ∧
      (createScratch wrap place).run.run w =
        (.ok (parent.child (scratchName k)),
          { w with fs := w.fs.put (l ++ [scratchName k]) .directory }) := by
  obtain ⟨k, hk, hfree⟩ := exists_free_scratchName w.fs l
  obtain ⟨k, hk, hrun⟩ := run_createScratchFrom hparent
    (fun k (hk : k < 0 + (w.fs.nodes.entries.length + 1)) => hadmits k (by omega))
    ⟨k, by omega, by omega, hfree⟩
  exact ⟨k, by omega, hrun.1, by rw [run_createScratch_eq h, hrun.2]⟩

end ConstPromotion
