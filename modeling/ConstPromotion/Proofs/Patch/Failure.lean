import ConstPromotion.Proofs.Patch.Files

/-!
# Passes that fail

A promotion reads a file, keeps a backup of it and writes it, and a disk may refuse each of these
steps. Where a pass fails, the files before the one at fault are promoted, that file is as it was,
and the files after it are not looked at (`residue_of_patchFilesOn`). The file at fault may have a
backup by then (`Patching.residue`).
-/

namespace ConstPromotion

variable {disk : Disk} {options : PatchOptions} {dryRun : Bool} {path source : Path}
  {paths : List Path} {content : Bytes} {fs fs' : FileSystem} {g g' : Guarded} {e : PatchError}

/-! ### One file -/

/-- What the promotion of a file leaves behind where it fails: nothing, or the backup of a file that
could then not be written. -/
inductive Residue (path : Path) (g : Guarded) : PatchError → FileSystem → Prop where
  | nothing (e : PatchError) : Residue path g e g.fs
  | backup (content : Bytes) (cause : OsError) (l : Location) (executable : Bool)
    (hread : g.fs.read path = .ok content) (hfree : g.fs.nodeAt l = none)
    (hfind : (g.fs.put l (.file content executable)).find (g.store.path path content) =
      .ok (l, .file content executable)) :
    Residue path g (.write path cause) (g.fs.put l (.file content executable))

namespace Residue

/-- The file is as it was. -/
lemma read_eq (h : Residue path g e fs') : fs'.read path = g.fs.read path := by
  cases h with
  | nothing => rfl
  | backup content cause l executable hread hfree =>
    rw [hread]
    exact (FileSystem.Extends.put hfree _).read hread

/-- Without a backup, nothing is changed. -/
lemma fs_eq_of_backup {cause : BackupError} (h : Residue path g (.backup cause) fs') :
    fs' = g.fs := by
  cases h
  rfl

end Residue

/-- A backup that is kept of a file is all that there is of it, if the file is not written then. -/
lemma Keeping.residue {outcome : BackupOutcome}
    (h : Keeping disk path content g (.ok outcome) g') (hfs : g.fs.IsTree)
    (hstore : g.store.KnowsPresent) (hread : g.fs.read path = .ok content) (cause : OsError) : Residue path g (.write path cause) g'.fs := by
  rcases h.fs_cases hfs hstore.exists?_eq_false with
    ⟨hsame, -⟩ | ⟨-, l, executable, hfree, hput, hfind⟩
  · rw [hsame]
    exact .nothing _
  · rw [hput] at hfind ⊢
    exact .backup content cause l executable hread hfree hfind

/-- Where a promotion fails, a backup is all that it leaves behind. -/
lemma Patching.residue (h : Patching disk options dryRun path g (.error e) g') (hfs : g.fs.IsTree)
    (hstore : g.store.KnowsPresent) : Residue path g e g'.fs := by
  cases h with
  | unread => exact .nothing _
  | unprotected content cause _ _ _ _ hkeeping =>
    rcases hkeeping.fs_cases hfs hstore.exists?_eq_false with ⟨hsame, -⟩ | ⟨hmade, -⟩
    · rw [hsame]
      exact .nothing _
    · cases hmade
  | unwritten content cause _ _ hread _ _ hkeeping => exact hkeeping.residue hfs hstore hread cause

/-! ### Several files -/

variable {suffix : List Char} {policy : BackupPolicy}

/-- A pass that fails has promoted the files before the one at which it fails, and stops there. It
leaves what these promotions left and the residue of the last one, so the file at which it fails is
as it was, and nothing is changed for it without a backup. -/
theorem residue_of_patchFilesOn (hfs : fs.IsTree)
    (hrun : (patchFilesOn disk options dryRun paths).run.run ⟨fs, { suffix, policy }⟩ =
      (.error e, g')) :
    ∃ done path later report g, paths = done ++ path :: later ∧
      (patchFilesOn disk options dryRun done).run.run ⟨fs, { suffix, policy }⟩ = (.ok report, g) ∧
      (patchFileOn disk options dryRun path).run.run g = (.error e, g') ∧
      Residue path g e g'.fs ∧ g'.fs.read path = g.fs.read path ∧
      (∀ cause, e = .backup cause → g'.fs = g.fs) ∧
      ∀ others, (patchFilesOn disk options dryRun (done ++ path :: others)).run.run
        ⟨fs, { suffix, policy }⟩ = (.error e, g') := by
  have herror {paths : List Path} :
      (patchFilesOn disk options dryRun paths).run.run ⟨fs, { suffix, policy }⟩ = (.error e, g') ↔
        (paths.mapM (patchFileOn disk options dryRun)).run.run ⟨fs, { suffix, policy }⟩ =
          (.error e, g') := by
    rw [patchFilesOn, Attempt.run_bind_pure]
    rcases (paths.mapM (patchFileOn disk options dryRun)).run.run ⟨fs, { suffix, policy }⟩ with
      ⟨_ | _, _⟩ <;> constructor <;> rintro ⟨⟩ <;> rfl
  obtain ⟨done, path, later, files, g, rfl, hdone, hpath⟩ :=
    Attempt.exists_of_run_mapM_error (herror.mp hrun)
  have hpatching {path : Path} {g g' : Guarded} {result : Except PatchError FileOutcome}
      (h : (patchFileOn disk options dryRun path).run.run g = (result, g')) :
      Patching disk options dryRun path g result g' := by
    have hall := patching_patchFileOn disk options dryRun path g
    rwa [h] at hall
  -- the files that were promoted keep what the residue of the next one asks for
  obtain ⟨htree, hstore⟩ : g.fs.IsTree ∧ g.store.KnowsPresent := by
    refine Attempt.of_run_mapM (P := fun g => g.fs.IsTree ∧ g.store.KnowsPresent) ?_ hdone
      ⟨hfs, fun q => by simp [BackupStore.lookup]⟩
    rintro path g f g' hrun ⟨htree, hstore⟩
    have hfile := hpatching hrun
    exact ⟨hfile.written.isTree htree, hfile.knowsPresent hstore⟩
  have hresidue := (hpatching hpath).residue htree hstore
  refine ⟨done, path, later, ⟨files⟩, g, rfl, ?_, hpath, hresidue, hresidue.read_eq, ?_, ?_⟩
  · rw [patchFilesOn, Attempt.run_bind_ok hdone, Attempt.run_pure]
  · rintro cause rfl
    exact hresidue.fs_eq_of_backup
  · intro others
    rw [herror, Attempt.run_mapM_append hdone, Attempt.run_mapM_cons_error hpath]
    rfl

/-! ### A file that cannot be written -/

namespace Unwritable

/-- A source file with a table. -/
def table : Bytes := bytesOf "static int t[4];\n"

/-- A tree with three tables. -/
def files : FileSystem :=
  ⟨.ofList [(["d".toList], .directory), (["d".toList, "x.c".toList], .file table false),
    (["d".toList, "y.c".toList], .file table false),
    (["d".toList, "z.c".toList], .file table false)], []⟩

/-- The disk that does not let the second table be written. -/
def readOnly : Disk where
  writeError? _ p _ := if p = .ofString "/d/y.c" then some .permissionDenied else none

/-- The first table is promoted, the second one is as it was and has a backup, and the third one is
not looked at. -/
theorem residue_of_patchFilesOn_readOnly :
    let paths : List Path := [.ofString "/d/x.c", .ofString "/d/y.c", .ofString "/d/z.c"]
    let failed := (patchFilesOn readOnly {} false paths).run.run
      ⟨files, { suffix := ".orig".toList, policy := .firstWriteWins }⟩
    files.IsTree ∧ failed.1 = .error (.write (.ofString "/d/y.c") .permissionDenied) ∧
      (∃ done path later g, paths = done ++ path :: later ∧
        Residue path g (.write (.ofString "/d/y.c") .permissionDenied) failed.2.fs) ∧
      failed.2.fs.read (.ofString "/d/x.c") = .ok (bytesOf "static const int t[4];\n") ∧
      failed.2.fs.read (.ofString "/d/y.c") = .ok table ∧
      failed.2.fs.read (.ofString "/d/y.c.orig") = .ok table ∧
      failed.2.fs.read (.ofString "/d/z.c") = .ok table := by
  intro paths failed
  have htree : files.IsTree := FileSystem.isTree_of_forall (by decide +kernel)
  have herror : failed.1 = .error (.write (.ofString "/d/y.c") .permissionDenied) := by
    decide +kernel
  have hfailed : failed = (.error (.write (.ofString "/d/y.c") .permissionDenied), failed.2) :=
    (Prod.eta failed).symm.trans (congrArg (·, failed.2) herror)
  obtain ⟨done, path, later, -, g, hpaths, -, -, hresidue, -⟩ :=
    residue_of_patchFilesOn htree hfailed
  exact ⟨htree, herror, ⟨done, path, later, g, hpaths, hresidue⟩, by decide +kernel,
    by decide +kernel, by decide +kernel, by decide +kernel⟩

end Unwritable

end ConstPromotion
