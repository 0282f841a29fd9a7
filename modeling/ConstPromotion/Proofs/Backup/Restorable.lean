import ConstPromotion.Backup.Restore
import ConstPromotion.Proofs.Patch.Files

/-!
# Whether a promoted file can be restored

A store takes whatever lies at the path of a backup for the backup (`Guarded.holds`), while a file
is restored only from a regular file. The two differ where anything but a regular file lies at that
path, such as a directory: the file is promoted then, what lies there is reported as its backup, and
nothing can be restored. Everywhere else the file of a promotion that succeeds can be restored
(`restorable_of_patchFile`).
-/

namespace ConstPromotion

variable {disk : Disk} {g g' : Guarded} {fs : FileSystem} {source target : Path} {content : Bytes}
  {backup : BackupOutcome} {options : PatchOptions} {suffix : List Char}

/-! ### Copies -/

namespace FileSystem

/-- A file can be copied over a file. -/
theorem exists_copy_of_isFile (hfs : fs.IsTree) (hsource : fs.isFile source = true)
    (htarget : fs.isFile target = true) : ∃ size fs', fs.copy source target = .ok (size, fs') := by
  obtain ⟨k, old, executable, hfind⟩ := isFile_iff.mp hsource
  obtain ⟨fs', hwrite⟩ := exists_write_of_isFile htarget []
  obtain ⟨⟨l, executable'⟩, hplace, -⟩ := exists_of_bind_eq_ok hwrite
  have htakes := (isWritePlace_of_writePlace hfs hplace).takesFile
  obtain ⟨content, executable'', hfind'⟩ := (htakes.grows [] executable).find_file hfind
  have hread := read_eq_ok_iff.mpr ⟨k, executable'', hfind'⟩
  exact ⟨content.length, (fs.put l (.file [] executable)).put l (.file content executable),
    by simp only [copy, hfind, hplace, hread, bind, Except.bind, pure, Except.pure]⟩

end FileSystem

/-- A file that is there is restored exactly if its backup is a regular file. -/
theorem run_restoreFile_of_isFile (hfs : fs.IsTree) (hsource : fs.isFile source = true)
    (hsame : (backupPath source suffix).same source = false) :
    ((restoreFile source suffix).run.run fs).1 = .ok (fs.isFile (backupPath source suffix)) := by
  have hasked (p : Path) : Disk.plain.isFile fs p = fs.isFile p := Disk.isFile_eq rfl
  rw [restoreFile, restoreFileOn]
  simp only [hsame, Bool.false_eq_true, if_false, Attempt.run_bind, Attempt.run_query,
    HasFiles.files, id, hasked]
  cases hfile : fs.isFile (backupPath source suffix) with
  | false => simp only [Bool.not_false, if_true, Attempt.run_pure]
  | true =>
    obtain ⟨size, fs', hcopy⟩ := FileSystem.exists_copy_of_isFile hfs hfile hsource
    have hplain : Disk.plain.copy fs (backupPath source suffix) source = .ok (size, fs') := hcopy
    simp only [Bool.not_true, Bool.false_eq_true, if_false, Attempt.run_bind, Attempt.run_pure,
      Attempt.run_wrapping, Attempt.run_copyBytesOn, HasFiles.files, HasFiles.withFiles, id, hplain,
      Except.mapError]

/-! ### Backups that are kept -/

namespace Keeping

lemma same_eq_false (h : Keeping disk source content g (.ok backup) g') :
    backup.path.same source = false := by
  cases h with
  | kept hsame => exact hsame
  | made _ hsame => exact hsame

/-- What a store that was asked nothing reports as a backup is a regular file, unless something else
was there before. -/
theorem isFile_eq (h : Keeping .plain source content g (.ok backup) g') (hfs : g.fs.IsTree)
    (hfresh : g.store.lookup backup.path = none) : g'.fs.isFile backup.path =
      (!g.fs.exists? backup.path || g.fs.isFile backup.path) := by
  have hholds : g.holds .plain backup.path = g.fs.exists? backup.path := by
    rw [Guarded.holds, hfresh, Option.getD_none, Disk.exists?_eq rfl]
  cases h with
  | kept _ hkept =>
    rw [hholds] at hkept
    rw [Guarded.fs_asked, hkept, Bool.not_true, Bool.false_or]
  | made fs' _ hmissing _ hwrite =>
    rw [hholds] at hmissing
    obtain ⟨l, executable, -, -, -, hfind⟩ := FileSystem.exists_put_of_write hfs hwrite
    rw [hmissing, Bool.not_false, Bool.true_or]
    exact FileSystem.isFile_iff.mpr ⟨l, content, executable, hfind⟩

end Keeping

/-! ### Files that are promoted -/

/-- A file that is promoted with a store that was asked nothing has a regular file as its backup,
and is restored from it, exactly if nothing but a regular file lay at the path of the backup. -/
theorem restorable_of_patchFile {outcome : FileOutcome} (hfs : fs.IsTree)
    (h : (patchFile options false source).run.run
      ⟨fs, { suffix, policy := .firstWriteWins }⟩ = (.ok outcome, g'))
    (hpatched : outcome.status = .patched) :
    ∃ backup, outcome.backup = some backup ∧ backup.path = backupPath source suffix ∧
      g'.fs.isFile backup.path = (!fs.exists? backup.path || fs.isFile backup.path) ∧
      ((restoreFile source suffix).run.run g'.fs).1 =
        .ok (!fs.exists? backup.path || fs.isFile backup.path) := by
  have hpatching := patching_patchFile options false source
    ⟨fs, { suffix, policy := .firstWriteWins }⟩
  rw [h] at hpatching
  have htree := hpatching.written.isTree hfs
  cases hpatching with
  | missing | unchanged | dryRun => simp at hpatched
  | patched content backup g₁ fs' hread _ _ hkeeping hwrite =>
    have hpath : backup.path = backupPath source suffix := hkeeping.path_eq
    have hwritten : FileSystem.Written fs fs' := .write hkeeping.written hwrite
    have hkept := hkeeping.isFile_eq hfs rfl
    -- promoting the file does not move what lies at the path of the backup
    have hfile : fs'.isFile backup.path = (!fs.exists? backup.path || fs.isFile backup.path) := by
      cases hthere : (!fs.exists? backup.path || fs.isFile backup.path) with
      | true =>
        rw [hthere] at hkept
        obtain ⟨l, old, executable, hfind⟩ := FileSystem.isFile_iff.mp hkept
        have hgrows := FileSystem.Grows.write (hkeeping.written.isTree hfs) hwrite
        obtain ⟨old', executable', hfind'⟩ := hgrows.find_file hfind
        exact FileSystem.isFile_iff.mpr ⟨l, old', executable', hfind'⟩
      | false =>
        have hdir : fs.isDirectory backup.path = true := by
          rw [FileSystem.exists?_eq] at hthere
          cases hisFile : fs.isFile backup.path with
          | true => simp [hisFile] at hthere
          | false => simpa [hisFile] using hthere
        obtain ⟨l, hfind⟩ := FileSystem.isDirectory_iff.mp hdir
        simp [FileSystem.isFile, (hwritten.grows hfs).find_directory hfind]
    obtain ⟨l, executable, hfind⟩ := FileSystem.read_eq_ok_iff.mp hread
    obtain ⟨new, executable', hfind'⟩ := (hwritten.grows hfs).find_file hfind
    have hsource := FileSystem.isFile_iff.mpr ⟨l, new, executable', hfind'⟩
    have hrestore := run_restoreFile_of_isFile htree hsource (hpath ▸ hkeeping.same_eq_false)
    rw [← hpath, hfile] at hrestore
    exact ⟨backup, rfl, hpath, hfile, hrestore⟩

/-! ### A file with and without something in the way of its backup -/

namespace Occupied

/-- A source file with a table. -/
def table : Bytes := bytesOf "static int t[4];\n"

/-- A directory that holds the table. -/
def tree : FileSystem :=
  ⟨.ofList [(["d".toList], .directory), (["d".toList, "x.c".toList], .file table false)], []⟩

/-- The same, with a directory where the backup of the table belongs. -/
def occupied : FileSystem := tree.put ["d".toList, "x.c.orig".toList] .directory

/-- The path of the table. -/
def tablePath : Path := .ofString "/d/x.c"

/-- The table is promoted. -/
def promotion (fs : FileSystem) : Except PatchError FileOutcome × Guarded :=
  (patchFile {} false tablePath).run.run
    ⟨fs, { suffix := ".orig".toList, policy := .firstWriteWins }⟩

/-- What is reported of the table. -/
def reported (created : Bool) : FileOutcome :=
  ⟨tablePath, .patched, [⟨1, ⟨"int", "t", some "4"⟩, false⟩],
    some ⟨.ofString "/d/x.c.orig", created⟩⟩

lemma promotion_tree : (promotion tree).1 = .ok (reported true) := by decide

/-- A table that nothing lies beside is promoted and can be restored. -/
theorem restorable_of_patchFile_free :
    tree.IsTree ∧ (promotion tree).1 = .ok (reported true) ∧
      (promotion tree).2.fs.isFile (.ofString "/d/x.c.orig") = true ∧
      ((restoreFile tablePath ".orig".toList).run.run (promotion tree).2.fs).1 = .ok true := by
  have htree : tree.IsTree := FileSystem.isTree_of_forall (by decide +kernel)
  have hrun := Prod.fst_eq_iff.mp promotion_tree
  obtain ⟨backup, hbackup, -, hfile, hrestore⟩ := restorable_of_patchFile htree hrun rfl
  obtain rfl := Option.some.inj hbackup
  have hfree : tree.exists? (.ofString "/d/x.c.orig") = false := by decide +kernel
  rw [hfree, Bool.not_false, Bool.true_or] at hfile hrestore
  exact ⟨htree, promotion_tree, hfile, hrestore⟩

/-- A directory in the place of the backup is reported as the backup. The table is promoted all the
same, and cannot be restored. -/
theorem unrestorable_beside_directory :
    occupied.IsTree ∧ (promotion occupied).1 = .ok (reported false) ∧
      (promotion occupied).2.fs.read tablePath = .ok (bytesOf "static const int t[4];\n") ∧
      (promotion occupied).2.fs.isFile (.ofString "/d/x.c.orig") = false ∧
      ((restoreFile tablePath ".orig".toList).run.run (promotion occupied).2.fs).1 = .ok false :=
  ⟨FileSystem.isTree_of_forall (by decide +kernel), by decide +kernel, by decide +kernel,
    by decide +kernel, by decide +kernel⟩

end Occupied

end ConstPromotion
