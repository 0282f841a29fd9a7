import ConstPromotion.Proofs.Backup.Simultaneous
import ConstPromotion.Proofs.Patch.Protection

/-!
# Promotion and back again

After a pass over a tree in which no name has the suffix of backups, restoring the tree brings every
file back (`restoreTree_patchFiles`). The backups in the tree are then those that the pass made, and
no others (`IsPass.isBackup_iff`), and each of them is copied over the file that it protects.
-/

namespace ConstPromotion

/-- Nothing has a name with a suffix if no entry has one. -/
lemma FileSystem.nodeAt_eq_none_of_forall {fs : FileSystem} {suffix : List Char}
    (h : ∀ e ∈ fs.nodes.entries, ∀ n ∈ e.1, ¬ suffix <:+ n) (l : Location) :
    ∀ below n, suffix <:+ n → fs.nodeAt (l ++ below ++ [n]) = none := by
  intro below n hsuffix
  by_contra hnode
  obtain ⟨node, hnode⟩ := Option.ne_none_iff_exists'.mp hnode
  exact h _ (mem_entries_of_nodeAt (List.concat_ne_nil n _) hnode) n (by simp) hsuffix

/-! ### The order of paths -/

/-- The order of components: the root, `.`, `..`, and then names. -/
def Component.rank : Component → Nat × Name
  | .root => (0, [])
  | .current => (1, [])
  | .parent => (2, [])
  | .name n => (3, n)

instance : LT Component :=
  ⟨fun c d => c.rank.1 < d.rank.1 ∨ c.rank.1 = d.rank.1 ∧ c.rank.2 < d.rank.2⟩

lemma Component.name_lt_name {n m : Name} (h : n < m) : Component.name n < .name m := .inr ⟨rfl, h⟩

lemma append_map_name_lt {a b : Location} (h : a < b) (start : List Component) :
    start ++ a.map .name < start ++ b.map .name := by
  induction start with
  | nil => exact List.map_lt (fun _ _ => Component.name_lt_name) h
  | cons c start ih => exact List.Lex.cons ih

variable {disk disk' : Disk} {fs later fs' : FileSystem} {root : Path} {l above below : Location}
  {suffix : List Char} {files : List FileOutcome} {g : Guarded} {n : Name} {out : List Path}

/-! ### What is restored -/

namespace IsProtected

variable (hstart : IsUnmarked fs root l suffix) (h : IsProtected fs root l suffix files later above n)

include hstart h

lemma components_restoredPath : (restoredPath root suffix above n).components =
    root.components ++ (above ++ [n]).map .name := by
  obtain ⟨f, _, _, _, _, _, hspells, _⟩ := h.reported
  exact ConstPromotion.components_restoredPath hstart.root_ne_nil (fun m => hspells.isEntryName_of_mem)
    h.isEntryName (h.isEntryName.append hstart.isSuffix)

lemma components_backupPath : (backupPath (restoredPath root suffix above n) suffix).components =
    root.components ++ (above ++ [n ++ suffix]).map .name := by
  have hsource := h.components_restoredPath hstart
  rw [List.map_append, ← List.append_assoc] at hsource ⊢
  exact components_backupPath_concat hsource hstart.isSuffix

/-- The walk spells the path of a backup no longer than the pass did. -/
lemma isShort_backupPath : (backupPath (restoredPath root suffix above n) suffix).IsShort := by
  obtain ⟨f, _, backup, _, _, hpath, hspells, hentry, _, hshort⟩ := h.reported
  have hname : (restoredPath root suffix above n).fileName? = some n := by
    rw [Path.fileName?, h.components_restoredPath hstart, List.map_append, ← List.append_assoc,
      List.map_singleton, List.getLast?_concat]
  rw [hpath, backupPath, hentry.fileName?] at hshort
  rw [backupPath, hname]
  exact hspells.isShort_withFileName hstart.root_ne_nil (h.isEntryName.append hstart.isSuffix) hshort

/-- What is restored is the file itself, whatever its spelling. -/
lemma same_restoredPath {p : Path} (hspells : root.Spells p above n) :
    p.same (restoredPath root suffix above n) := by
  rw [Path.same, hspells.components_eq, h.components_restoredPath hstart]
  exact decide_eq_true rfl

/-- Paths that are restored for different backups are different. -/
lemma not_same_restoredPath {above' : Location} {n' : Name}
    (h' : IsProtected fs root l suffix files later above' n')
    (hne : above ++ [n ++ suffix] ≠ above' ++ [n' ++ suffix]) :
    ¬ (restoredPath root suffix above n).same (restoredPath root suffix above' n') := by
  intro hsame
  have hcomponents := of_decide_eq_true hsame
  rw [h.components_restoredPath hstart, h'.components_restoredPath hstart,
    List.append_cancel_left_eq] at hcomponents
  have hname : ([] : Location) ++ above ++ [n] = [] ++ above' ++ [n'] :=
    Path.map_name_injective hcomponents
  obtain ⟨rfl, rfl⟩ := below_concat_inj.mp hname
  exact hne rfl

end IsProtected

/-! ### The backups of a pass -/

section Pass

variable (hstart : IsUnmarked fs root l suffix) (hpass : IsPass fs root l suffix files g)

include hstart hpass

namespace IsPass

lemma hasValidNames : g.fs.HasValidNames := by
  intro k n hnode
  by_cases hfirst : fs.nodeAt (k ++ [n]) = none
  · obtain ⟨above, n', heq, hprotected⟩ := hpass.new _ hfirst hnode
    rw [List.singleton_inj.mp (List.append_inj' heq rfl).2]
    exact hprotected.isValidName
  · exact hstart.hasValidNames k n hfirst

/-- The backups in the tree are those of protected files. -/
lemma isBackup_iff : IsBackup g.fs l suffix above n ↔
    IsProtected fs root l suffix files g.fs above n := by
  constructor
  · rintro ⟨-, content, executable, hnode⟩
    exact hpass.isProtected_of_nodeAt hstart (by rw [hnode]; simp)
  · intro h
    obtain ⟨content, _, executable, _, hkept⟩ := h.kept
    exact ⟨h.isEntryName.ne_nil, content, executable, hkept⟩

lemma hasBackups : HasBackups g.fs root l suffix := by
  refine ⟨hpass.isTree hstart, hpass.hasValidNames hstart, hpass.find_root hstart,
    hpass.isLinkFree hstart, fun above h => ?_, fun above h => ?_⟩
  · exact ((hpass.isBackup_iff hstart).mp h).isEntryName.ne_current rfl
  · exact ((hpass.isBackup_iff hstart).mp h).isEntryName.ne_parent rfl

/-- Restoring the tree copies the backups of protected files, if the disk lets them be found. -/
lemma isCopied_restoreTreeOn
    (hfinds : ∀ f ∈ files, f.status = .patched → ∀ above n, root.Spells f.path above n →
      disk.Finds root suffix above n)
    (hrun : (restoreTreeOn disk root suffix).run.run g.fs = (.ok out, fs')) :
    ∃ restored, IsCopied disk g.fs root l suffix
        (disk.fileLocations g.fs (g.fs.depth + 1) root) restored fs' ∧
      out = restored.map (fun b => restoredPath root suffix b.1 b.2) ∧
      ∀ above n, (above, n) ∈ restored ↔ IsProtected fs root l suffix files g.fs above n := by
  have hbackups := hpass.hasBackups hstart
  obtain ⟨restored, hend, hout⟩ := ConstPromotion.isCopied_restoreTreeOn hbackups hrun
  refine ⟨restored, hend, hout, fun above n => ?_⟩
  rw [hend.mem_iff_isReachable hbackups]
  constructor
  · exact fun h => (hpass.isBackup_iff hstart).mp h.toIsBackup
  · intro h
    obtain ⟨f, hf, _, hstatus, _, _, hspells, _⟩ := h.reported
    exact ⟨(hpass.isBackup_iff hstart).mpr h, hfinds f hf hstatus above n hspells,
      h.isShort_backupPath hstart⟩

end IsPass

end Pass

/-- Restoring the tree after a pass brings every file back (first part), and all that is left of the
pass are the backups that it reported (second part). What is restored are the files that the pass
reported as changed, under some spelling, once each and in the order of their backups (other parts).
The suffix must end no name in the tree, the pass must change none of its backups, and the disk must
let the backups be found when the tree is restored. Whatever else is refused, by one of the disks or
the other, does not matter if both come to their end. -/
theorem restoreTree_patchFiles {options : PatchOptions} {dryRun : Bool} {paths restored : List Path}
    {report : PatchReport} (hstart : IsUnmarked fs root l suffix)
    (hpaths : ∀ p ∈ paths, p.IsSpelledFrom root)
    (hpatch : (patchFilesOn disk options dryRun paths).run.run
      ⟨fs, { suffix, policy := .firstWriteWins }⟩ = (.ok report, g))
    (hfinds : ∀ f ∈ report.files, f.status = .patched → ∀ above n, root.Spells f.path above n →
      disk'.Finds root suffix above n)
    (hrestore : (restoreTreeOn disk' root suffix).run.run g.fs = (.ok restored, fs'))
    (hapart : ∀ f ∈ report.files, f.status = .patched → ∀ f' ∈ report.files, ∀ backup,
      f'.backup = some backup → ¬ f.path.same backup.path) :
    (∀ k content executable, fs.nodeAt k = some (.file content executable) →
      ∃ executable', fs'.nodeAt k = some (.file content executable')) ∧
    (∀ k, fs.nodeAt k = none → fs'.nodeAt k ≠ none → ∃ f ∈ report.files, ∃ backup content executable,
      f.backup = some backup ∧ fs'.find backup.path = .ok (k, .file content executable)) ∧
    (∀ p ∈ restored, ∃ f ∈ report.files, f.status = .patched ∧ f.path.same p) ∧
    (∀ f ∈ report.files, f.status = .patched → ∃ p ∈ restored, f.path.same p) ∧
    restored.Pairwise fun p q => ¬ p.same q ∧
      (backupPath p suffix).components < (backupPath q suffix).components := by
  have hpass := isPass_patchFilesOn hstart hpaths hpatch hapart
  obtain ⟨copied, hend, rfl, hmem⟩ := hpass.isCopied_restoreTreeOn hstart hfinds hrestore
  refine ⟨fun k content executable hk => ?old, fun k hk hnew => ?new, fun p hp => ?restored,
    fun f hf hstatus => ?patched, ?order⟩
  case old =>
    by_cases hcopied : ∃ above n, (above, n) ∈ copied ∧ k = l ++ above ++ [n]
    · obtain ⟨above, n, hcopy, rfl⟩ := hcopied
      obtain ⟨first, _, executable', hfirst, hkept⟩ := ((hmem above n).mp hcopy).kept
      rw [hfirst, Option.some_inj, Node.file.injEq] at hk
      exact ⟨executable', by rw [hend.copied above n hcopy, hkept, hk.1]⟩
    · -- what was not restored is as the pass left it, and then the pass left it as it was
      have hkept := hend.kept k fun above n hcopy heq => hcopied ⟨above, n, hcopy, heq⟩
      rcases hpass.old k content executable hk with ⟨executable', hsame⟩ | ⟨above, n, rfl, h⟩
      · exact ⟨executable', hkept.trans hsame⟩
      · exact absurd ⟨above, n, (hmem above n).mpr h, rfl⟩ hcopied
  case new =>
    -- restoring makes nothing new, so this is a backup of the pass
    have hthere : g.fs.nodeAt k ≠ none := by
      rw [← hend.kept k fun above n hcopy heq => ?_]
      · exact hnew
      · obtain ⟨_, _, _, hfirst, -⟩ := ((hmem above n).mp hcopy).kept
        simp [← heq, hk] at hfirst
    obtain ⟨above, n, rfl, hprotected⟩ := hpass.new k hk hthere
    obtain ⟨f, hf, backup, -, hbackup, hpath, -, hentry, -, hshort⟩ := hprotected.reported
    obtain ⟨_, _, _, -, hkept⟩ := hprotected.kept
    obtain ⟨content, executable, hnode⟩ := hend.onlyGrew.grows.nodeAt_file hkept
    refine ⟨f, hf, backup, content, executable, hbackup, ?_⟩
    rw [hpath] at hshort ⊢
    have hlater := (hentry.mono hend.onlyGrew.grows).backupPath hstart.isSuffix
    exact (hlater.find_iff (by rw [hnode]; simp)).mpr ⟨hprotected.isValidName, hshort, rfl, hnode⟩
  case restored =>
    obtain ⟨⟨above, n⟩, hcopy, rfl⟩ := List.mem_map.mp hp
    have hprotected := (hmem above n).mp hcopy
    obtain ⟨f, hf, _, hstatus, _, _, hspells, _⟩ := hprotected.reported
    exact ⟨f, hf, hstatus, hprotected.same_restoredPath hstart hspells⟩
  case patched =>
    obtain ⟨above, n, hspells, hprotected⟩ := hpass.patched f hf hstatus
    exact ⟨_, List.mem_map_of_mem ((hmem above n).mpr hprotected),
      hprotected.same_restoredPath hstart hspells⟩
  case order =>
    refine List.pairwise_map.mpr (hend.pairwise.imp_of_mem fun {a b} ha hb hlt => ?_)
    have hprotected := (hmem a.1 a.2).mp ha
    have hprotected' := (hmem b.1 b.2).mp hb
    refine ⟨hprotected.not_same_restoredPath hstart hprotected' fun heq => ?_, ?_⟩
    · exact List.lt_irrefl _ (heq ▸ hlt)
    · rw [hprotected.components_backupPath hstart, hprotected'.components_backupPath hstart]
      exact append_map_name_lt hlt root.components

namespace Promoted

/-- A source file with a table. -/
def table : Bytes := bytesOf "static int t[4];\n"

/-- A directory with two tables, one of them in a directory below. -/
def tree : FileSystem :=
  ⟨.ofList [(["d".toList], .directory), (["d".toList, "sub".toList], .directory),
    (["d".toList, "sub".toList, "y.c".toList], .file table false),
    (["d".toList, "x.c".toList], .file table false)], []⟩

/-- The directory. -/
def top : Path := .ofString "/d"

/-- The suffix of backups. -/
def mark : List Char := ".orig".toList

/-- A path from the directory. -/
def spelled (name : String) : Path := top.join (.ofString name)

/-- A pass over files of the directory. -/
def pass (names : List String) : Except PatchError PatchReport × Guarded :=
  (patchFiles {} false (names.map spelled)).run.run
    ⟨tree, { suffix := mark, policy := .firstWriteWins }⟩

/-- The directory is restored on a disk after a pass. -/
def restoration (disk : Disk) (names : List String) : Except BackupError (List Path) × FileSystem :=
  (restoreTreeOn disk top mark).run.run (pass names).2.fs

lemma isUnmarked_tree : IsUnmarked tree top ["d".toList] mark :=
  ⟨FileSystem.isTree_of_forall (by decide),
    FileSystem.hasValidNames_of_forall (by decide), by decide,
    FileSystem.isLinkFree_of_forall (by decide) _, ⟨by decide, by decide⟩,
    FileSystem.nodeAt_eq_none_of_forall (by decide) _⟩

lemma isSpelledFrom_spelled {names : List String} (h : ∀ name ∈ names,
    (Path.ofString name).isAbsolute = false ∧ .parent ∉ (Path.ofString name).components ∧
      (Path.ofString name).names ≠ []) : ∀ p ∈ names.map spelled, p.IsSpelledFrom top := by
  rw [List.forall_mem_map]
  intro name hname
  obtain ⟨hrelative, hdots, hnames⟩ := h name hname
  exact Path.isSpelledFrom_join hrelative hdots hnames (by decide)

/-- Files of the directory, one of them under two spellings, and one that is missing. -/
def given : List String := ["sub/y.c", "x.c", "./x.c", "z.c"]

/-- The report of the pass over them. -/
def report : PatchReport :=
  ⟨[⟨spelled "sub/y.c", .patched, [⟨1, ⟨"int", "t", some "4"⟩, false⟩],
      some ⟨spelled "sub/y.c.orig", true⟩⟩,
    ⟨spelled "x.c", .patched, [⟨1, ⟨"int", "t", some "4"⟩, false⟩],
      some ⟨spelled "x.c.orig", true⟩⟩,
    ⟨spelled "./x.c", .unchanged, [], none⟩, ⟨spelled "z.c", .skipped .missing, [], none⟩]⟩

lemma pass_given : (pass given).1 = .ok report := by decide +kernel

lemma restoration_given : (restoration .plain given).1 = .ok [spelled "sub/y.c", spelled "x.c"] := by
  decide +kernel

lemma read_pass_given :
    (pass given).2.fs.read (spelled "x.c") = .ok (bytesOf "static const int t[4];\n") := by
  decide +kernel

/-- Files that are promoted are brought back, whatever their spelling. -/
theorem restoreTree_patchFiles_spelled :
    IsUnmarked tree top ["d".toList] mark ∧ (∀ p ∈ given.map spelled, p.IsSpelledFrom top) ∧
      (pass given).1 = .ok report ∧
      (restoration .plain given).1 = .ok [spelled "sub/y.c", spelled "x.c"] ∧
      (∀ f ∈ report.files, f.status = .patched → ∀ f' ∈ report.files, ∀ backup ∈ f'.backup,
        ¬ f.path.same backup.path) ∧
      (∀ f ∈ report.files, f.status = .patched → ∀ above n, top.Spells f.path above n →
        Disk.plain.Finds top mark above n) ∧
      (pass given).2.fs.read (spelled "x.c") = .ok (bytesOf "static const int t[4];\n") ∧
      ∃ executable, (restoration .plain given).2.nodeAt ["d".toList, "x.c".toList] =
        some (.file table executable) := by
  have hpaths : ∀ p ∈ given.map spelled, p.IsSpelledFrom top :=
    isSpelledFrom_spelled (by decide +kernel)
  have hapart : ∀ f ∈ report.files, f.status = .patched → ∀ f' ∈ report.files,
      ∀ backup ∈ f'.backup, ¬ f.path.same backup.path := by
    decide +kernel
  have hrun := Prod.fst_eq_iff.mp pass_given
  have hrestoration := Prod.fst_eq_iff.mp restoration_given
  have hfinds : ∀ f ∈ report.files, f.status = .patched → ∀ above n, top.Spells f.path above n →
      Disk.plain.Finds top mark above n := fun _ _ _ above n _ => Disk.finds_plain top mark above n
  have hback := restoreTree_patchFiles isUnmarked_tree hpaths hrun hfinds hrestoration hapart
  have hold := hback.1 ["d".toList, "x.c".toList] table false (by decide +kernel)
  exact ⟨isUnmarked_tree, hpaths, pass_given, restoration_given, hapart, hfinds, read_pass_given,
    hold⟩

/-- The disk on which the name of a backup is no text. -/
def marred : Disk where
  isText n := n ≠ "x.c.orig".toList

/-- The disk on which the directory below does not come up. -/
def hidden : Disk where
  lists _ n := n ≠ "sub".toList

/-- The disk on which the path of a backup cannot be followed. -/
def severed : Disk where
  pathError? p := if p = spelled "x.c.orig" then some .permissionDenied else none

/-- What a table is promoted to. -/
def promoted : Bytes := bytesOf "static const int t[4];\n"

/-- A pass over files and the restoring of the directory both end well, and yet a table stays as it
was promoted. -/
def StaysPromoted (disk : Disk) (names : List String) (below : Location) : Prop :=
  (∀ p ∈ names.map spelled, p.IsSpelledFrom top) ∧ (pass names).1.toOption.isSome ∧
    (restoration disk names).1.toOption.isSome ∧
    tree.nodeAt ("d".toList :: below) = some (.file table false) ∧
    (restoration disk names).2.nodeAt ("d".toList :: below) = some (.file promoted false)

/-- A table stays as it was promoted if the pass is given the path of its backup and promotes that
too, and if its backup is not found when the directory is restored: because the name of the backup is
no text, because a directory does not come up, or because the path of the backup cannot be followed.
-/
theorem promoted_restored :
    IsUnmarked tree top ["d".toList] mark ∧
      StaysPromoted .plain ["x.c", "x.c.orig"] ["x.c".toList] ∧
      StaysPromoted marred ["x.c"] ["x.c".toList] ∧
      StaysPromoted hidden ["sub/y.c"] ["sub".toList, "y.c".toList] ∧
      StaysPromoted severed ["x.c"] ["x.c".toList] := by
  refine ⟨isUnmarked_tree, ?_, ?_, ?_, ?_⟩
  all_goals exact ⟨isSpelledFrom_spelled (by decide +kernel), by decide +kernel, by decide +kernel,
    by decide +kernel, by decide +kernel⟩

end Promoted

end ConstPromotion
