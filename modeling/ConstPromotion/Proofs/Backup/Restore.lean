import ConstPromotion.Backup.Restore
import ConstPromotion.Proofs.Backup.Naming
import ConstPromotion.Proofs.FileSystem.Below

/-!
# Putting backups back

What the restoring of one file does on a disk, if it does not fail: a path whose name is no text or
has no suffix is passed over (`run_restoreFromOn_of_none`), and a backup that is there is copied to
the place of its file (`FileSystem.IsEntry.of_copy`).
-/

namespace ConstPromotion

variable {disk : Disk} {fs fs' : FileSystem} {source target p : Path} {suffix : List Char}
  {m n : Name} {dir : Location} {content : Bytes} {executable : Bool} {out : List Path}

/-! ### Copies -/

/-- A copy of a file to a place beside it, where no link is, moves nothing and puts the file there
with its content. -/
theorem FileSystem.IsEntry.of_copy {size : Nat} (hfs : fs.IsTree) (hsource : fs.IsEntry source dir m)
    (htarget : fs.IsEntry target dir n) (hne : m ≠ n)
    (hcontent : fs.nodeAt (dir ++ [m]) = some (.file content executable))
    (hfree : ∀ link, fs.nodeAt (dir ++ [n]) ≠ some (.link link))
    (h : fs.copy source target = .ok (size, fs')) :
    FileSystem.Grows fs fs' ∧ fs'.nodeAt (dir ++ [n]) = some (.file content executable) ∧
      ∀ k ≠ dir ++ [n], fs'.nodeAt k = fs.nodeAt k := by
  obtain ⟨k, _, _, l, copied, hfind, hplace, rfl, rfl, -⟩ := FileSystem.exists_put_of_copy hfs h
  obtain ⟨-, -, rfl, hnode⟩ := (hsource.find_iff (by simp [hcontent])).mp hfind
  obtain ⟨rfl, rfl⟩ := Node.file.inj (Option.some.inj (hcontent.symm.trans hnode))
  obtain rfl : l = dir ++ [n] := by
    obtain ⟨hn, hshort⟩ := htarget.isValidName_of_resolve hplace.resolve_eq
    apply FileSystem.placeAt_inj
    exact Except.ok.inj (hplace.resolve_eq.symm.trans (htarget.resolve hn hshort (.inr hfree)))
  have hnil := hplace.takesFile.ne_nil
  have happart : dir ++ [m] ≠ dir ++ [n] := by simpa using hne
  rw [if_neg happart]
  refine ⟨(hplace.takesFile.grows [] executable).trans (.of_shape_eq ?_),
    FileSystem.nodeAt_put_self hnil _ _, fun k hk => ?_⟩
  · exact FileSystem.shape_put_file (FileSystem.nodeAt_put_self hnil _ _)
  · rw [FileSystem.nodeAt_put_put, FileSystem.nodeAt_put_of_ne hnil hk.symm]

/-! ### Paths -/

/-- The path of a file as it is restored: beside its backup, which the walk spells. -/
def restoredPath (root : Path) (suffix : List Char) (above : Location) (n : Name) : Path :=
  (root.descend (above ++ [n ++ suffix])).withFileName n

/-- The names below the root lead to a file that is restored. -/
lemma components_restoredPath {root : Path} {above : Location} (hroot : root.chars ≠ [])
    (habove : ∀ k ∈ above, Path.IsEntryName k) (hn : Path.IsEntryName n)
    (hbackup : Path.IsEntryName (n ++ suffix)) : (restoredPath root suffix above n).components =
      root.components ++ (above ++ [n]).map .name := by
  have hnames : ∀ k ∈ above ++ [n ++ suffix], Path.IsEntryName k := by
    simpa [or_imp, forall_and] using ⟨habove, hbackup⟩
  have hwalk := Path.components_descend hnames hroot
  rw [List.map_append, ← List.append_assoc] at hwalk
  have hname : (root.descend (above ++ [n ++ suffix])).fileName? = some (n ++ suffix) := by
    rw [Path.fileName?, hwalk, List.map_singleton, List.getLast?_concat]
  obtain ⟨start, hstart, hsource⟩ := Path.components_withFileName hname hn
  rw [restoredPath, hsource, (List.append_inj' (hstart.symm.trans hwalk) rfl).1]
  simp

/-- The path of a backup in a directory with a name is the one under which the walk meets it. -/
lemma backupPath_withFileName_child {k : Name} (hp : p.chars ≠ []) (hk : Path.IsEntryName k)
    (hn : Path.IsEntryName n) (hbackup : Path.IsEntryName (n ++ suffix)) :
    backupPath (((p.child k).child (n ++ suffix)).withFileName n) suffix =
      (p.child k).child (n ++ suffix) := by
  have hblank : ¬ Path.IsBlank k := not_or.mpr ⟨hk.ne_nil, hk.ne_current⟩
  have hwalk : ((p.child k).child (n ++ suffix)).pieces = p.base ++ [k] ++ [n ++ suffix] := by
    rw [Path.pieces_child_eq hbackup (Path.chars_child_ne_nil hk p), Path.base_child hk hp]
  have hsource := (Path.pieces_withFileName hwalk hbackup hn).1
  rw [Path.trim_concat hblank] at hsource
  have hpath := (Path.pieces_withFileName hsource hn hbackup).1
  rw [Path.trim_concat hblank, ← hwalk] at hpath
  rw [backupPath, Path.fileName?_of_pieces hsource hn, Option.getD_some, Path.mk.injEq,
    ← Path.intercalate_pieces, hpath, Path.intercalate_pieces]

/-- Where the path of a backup can be followed, the path of its directory can. -/
lemma isShort_descend_of_restoredPath {root : Path} {above : Location} (hroot : root.chars ≠ [])
    (hrootShort : root.IsShort) (habove : ∀ k ∈ above, Path.IsEntryName k)
    (hn : Path.IsEntryName n) (hbackup : Path.IsEntryName (n ++ suffix))
    (hshort : (backupPath (restoredPath root suffix above n) suffix).IsShort) :
    (root.descend above).IsShort := by
  rcases List.eq_nil_or_concat' above with rfl | ⟨before, last, rfl⟩
  · exact hrootShort
  · obtain ⟨hbefore, hlast⟩ := List.forall_mem_append.mp habove
    have hne := Path.chars_descend_ne_nil hbefore hroot
    rw [restoredPath, Path.descend_concat, Path.descend_concat,
      backupPath_withFileName_child hne (hlast last (by simp)) hn hbackup] at hshort
    rw [Path.descend_concat]
    exact (Path.size_lt_child hbackup _).trans hshort

/-! ### One file -/

/-- A file is restored if there is a backup, and left as it is otherwise. -/
lemma restoreFileOn_cases {restored : Bool}
    (h : (restoreFileOn disk source suffix).run.run fs = (.ok restored, fs')) :
    (restored = false ∧ fs' = fs ∧ disk.isFile fs (backupPath source suffix) = false) ∨
      restored = true ∧ disk.pathError? (backupPath source suffix) = none ∧
        ∃ size, fs.copy (backupPath source suffix) source = .ok (size, fs') := by
  rw [restoreFileOn] at h
  by_cases hsame : (backupPath source suffix).same source = true
  · simp only [hsame, if_true] at h
    cases h
  rw [Bool.not_eq_true] at hsame
  simp only [hsame, Bool.false_eq_true, if_false] at h
  obtain ⟨there, u, hquery, h⟩ := Attempt.exists_of_run_bind h
  obtain ⟨⟨⟩, rfl⟩ := Prod.mk.inj ((Attempt.run_query _ _).symm.trans hquery)
  cases hfile : disk.isFile fs (backupPath source suffix) with
  | false =>
    simp only [HasFiles.files, id, hfile, Bool.not_false, if_true] at h
    obtain ⟨⟨⟩, rfl⟩ := Prod.mk.inj h
    exact .inl ⟨rfl, rfl, rfl⟩
  | true =>
    simp only [HasFiles.files, id, hfile, Bool.not_true, Bool.false_eq_true, if_false] at h
    obtain ⟨size, u, hcopy, h⟩ := Attempt.exists_of_run_bind h
    obtain ⟨⟨⟩, rfl⟩ := Prod.mk.inj h
    obtain ⟨u, hcopy, rfl⟩ :=
      Attempt.exists_copy_of_run_copyBytesOn (Attempt.run_of_run_wrapping hcopy)
    exact .inr ⟨rfl, (Disk.isFile_eq_true_iff.mp hfile).1, size, Disk.copy_of_ok hcopy⟩

/-- A backup is known by its name, if that is text. -/
lemma protectedPath?_eq_some_iff (hname : p.fileName? = some m) :
    disk.protectedPath? p suffix = some source ↔
      disk.isText m = true ∧ ∃ n ≠ [], m = n ++ suffix ∧ source = p.withFileName n := by
  rw [Disk.protectedPath?, hname, Option.getD_some]
  constructor
  · intro h
    split_ifs at h with htext
    split at h
    next c name hsuffix =>
      exact ⟨htext, c :: name, List.cons_ne_nil _ _,
        (List.isSuffixOf?_eq_some_iff_append_eq.mp hsuffix).symm, (Option.some.inj h).symm⟩
    next => simp at h
  · rintro ⟨htext, n, hn, rfl, rfl⟩
    obtain ⟨c, name, rfl⟩ := List.exists_cons_of_ne_nil hn
    rw [if_pos htext, List.isSuffixOf?_eq_some_iff_append_eq.mpr rfl]

lemma run_restoreFromOn_of_none (h : disk.protectedPath? p suffix = none) :
    (restoreFromOn disk suffix p).run.run fs = (.ok [], fs) := by
  rw [restoreFromOn, h]
  rfl

/-- Without a backup there is nothing to restore. -/
lemma run_restoreFromOn_of_missing (hsource : disk.protectedPath? p suffix = some source)
    (hsame : (backupPath source suffix).same source = false)
    (hmissing : disk.isFile fs (backupPath source suffix) = false) :
    (restoreFromOn disk suffix p).run.run fs = (.ok [], fs) := by
  rw [restoreFromOn, hsource]
  have hrestore : (restoreFileOn disk source suffix).run.run fs = (.ok false, fs) := by
    rw [restoreFileOn]
    simp only [hsame, hmissing, Bool.false_eq_true, Bool.not_false, if_false, if_true,
      Attempt.run_bind, Attempt.run_query, Attempt.run_pure, HasFiles.files, id]
  rw [Attempt.run_bind_ok hrestore]
  rfl

lemma exists_restoreFileOn_of_restoreFromOn (hsource : disk.protectedPath? p suffix = some source)
    (h : (restoreFromOn disk suffix p).run.run fs = (.ok out, fs')) :
    ∃ restored, (restoreFileOn disk source suffix).run.run fs = (.ok restored, fs') ∧
      out = if restored then [source] else [] := by
  rw [restoreFromOn, hsource] at h
  obtain ⟨restored, u, hrestore, h⟩ := Attempt.exists_of_run_bind h
  obtain ⟨⟨⟩, rfl⟩ := Prod.mk.inj h
  exact ⟨restored, hrestore, rfl⟩

end ConstPromotion
