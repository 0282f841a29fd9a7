import ConstPromotion.Proofs.Backup.Naming
import ConstPromotion.Proofs.FileSystem.Below
import ConstPromotion.Proofs.Patch.Files

/-!
# Files that a pass changed

A pass over a tree in which no name has the suffix of backups changes a file only after there is a
backup of what it held at first (`isPass_patchFilesOn`). The invariant that carries this through the
pass (`IsPass`) says what the store of backups knows, which files are as they were, and that all else
is a backup.
-/

namespace ConstPromotion

/-- A tree below `root`, the directory at `l`: it has no links, and no name in it ends in `suffix`. -/
structure IsUnmarked (fs : FileSystem) (root : Path) (l : Location) (suffix : List Char) :
    Prop where
  isTree : fs.IsTree
  hasValidNames : fs.HasValidNames
  find_root : fs.find root = .ok (l, .directory)
  isLinkFree : fs.IsLinkFree l
  isSuffix : IsSuffix suffix
  nodeAt_eq_none : ∀ below n, suffix <:+ n → fs.nodeAt (l ++ below ++ [n]) = none

/-- A file that a pass changed has a backup that holds what the file held before the pass. -/
structure IsProtected (fs : FileSystem) (root : Path) (l : Location) (suffix : List Char)
    (files : List FileOutcome) (later : FileSystem) (above : Location) (n : Name) : Prop where
  isValidName : FileSystem.IsValidName (n ++ suffix)
  /-- The file is reported as changed, with its backup, and both have short paths. -/
  reported : ∃ f ∈ files, ∃ backup, f.status = .patched ∧ f.backup = some backup ∧
    backup.path = backupPath f.path suffix ∧ root.Spells f.path above n ∧
    later.IsEntry f.path (l ++ above) n ∧ f.path.IsShort ∧ backup.path.IsShort
  kept : ∃ content executable executable',
    fs.nodeAt (l ++ above ++ [n]) = some (.file content executable) ∧
      later.nodeAt (l ++ above ++ [n ++ suffix]) = some (.file content executable')

/-- What holds after a pass that reported on `files`. -/
structure IsPass (fs : FileSystem) (root : Path) (l : Location) (suffix : List Char)
    (files : List FileOutcome) (g : Guarded) : Prop where
  written : FileSystem.Written fs g.fs
  path_eq : ∀ source content, g.store.path source content = backupPath source suffix
  knowsPresent : g.store.KnowsPresent
  /-- What the store knows to be there is there. -/
  known : ∀ q, g.store.lookup q = some true → ∃ below,
    q.components = root.components ++ below.map .name ∧ g.fs.nodeAt (l ++ below) ≠ none
  /-- A file is as it was, or it is protected. -/
  old : ∀ k content executable, fs.nodeAt k = some (.file content executable) →
    (∃ executable', g.fs.nodeAt k = some (.file content executable')) ∨
      ∃ above n, k = l ++ above ++ [n] ∧ IsProtected fs root l suffix files g.fs above n
  /-- What is new is the backup of a protected file. -/
  new : ∀ k, fs.nodeAt k = none → g.fs.nodeAt k ≠ none →
    ∃ above n, k = l ++ above ++ [n ++ suffix] ∧ IsProtected fs root l suffix files g.fs above n
  /-- What is reported as changed is protected. -/
  patched : ∀ f ∈ files, f.status = .patched →
    ∃ above n, root.Spells f.path above n ∧ IsProtected fs root l suffix files g.fs above n

lemma IsUnmarked.root_ne_nil {fs : FileSystem} {root : Path} {l : Location} {suffix : List Char}
    (h : IsUnmarked fs root l suffix) : root.chars ≠ [] :=
  FileSystem.chars_ne_nil_of_find h.find_root

variable {fs later later' : FileSystem} {root path : Path} {l above : Location} {suffix : List Char}
  {files files' : List FileOutcome} {n : Name} {disk : Disk} {options : PatchOptions}
  {dryRun : Bool} {g g' : Guarded} {f : FileOutcome}

lemma IsProtected.mono (h : IsProtected fs root l suffix files later above n)
    (hfiles : files ⊆ files') (hlater : FileSystem.Grows later later')
    (hbackup : later'.nodeAt (l ++ above ++ [n ++ suffix]) =
      later.nodeAt (l ++ above ++ [n ++ suffix])) :
    IsProtected fs root l suffix files' later' above n := by
  obtain ⟨f, hf, backup, hstatus, hsome, hpath, hspells, hentry, hshort⟩ := h.reported
  obtain ⟨content, executable, executable', hfirst, hkept⟩ := h.kept
  exact ⟨h.isValidName, ⟨f, hfiles hf, backup, hstatus, hsome, hpath, hspells, hentry.mono hlater,
    hshort⟩, content, executable, executable', hfirst, hbackup.trans hkept⟩

lemma IsProtected.isEntryName (h : IsProtected fs root l suffix files later above n) :
    Path.IsEntryName n := by
  obtain ⟨_, _, _, _, _, _, hspells, _⟩ := h.reported
  exact hspells.isEntryName

lemma Path.Spells.components_backupPath (h : root.Spells path above n) (hsuffix : IsSuffix suffix) :
    (backupPath path suffix).components =
      root.components ++ (above ++ [n ++ suffix]).map .name := by
  have hpath := h.components_eq
  rw [List.map_append, ← List.append_assoc] at hpath ⊢
  exact components_backupPath_concat hpath hsuffix

namespace IsPass

/-- A report that says nothing of a change adds nothing. -/
lemma concat (h : IsPass fs root l suffix files g) (hf : f.status ≠ .patched) :
    IsPass fs root l suffix (files ++ [f]) g := by
  have hmono {above : Location} {n : Name} (h : IsProtected fs root l suffix files g.fs above n) :
      IsProtected fs root l suffix (files ++ [f]) g.fs above n :=
    h.mono (List.subset_append_left _ _) (.refl _) rfl
  refine ⟨h.written, h.path_eq, h.knowsPresent, h.known, fun k content executable hk => ?_,
    fun k hk hnew => ?_, fun f' hf' hstatus => ?_⟩
  · refine (h.old k content executable hk).imp_right ?_
    rintro ⟨above, n, rfl, hprotected⟩
    exact ⟨above, n, rfl, hmono hprotected⟩
  · obtain ⟨above, n, rfl, hprotected⟩ := h.new k hk hnew
    exact ⟨above, n, rfl, hmono hprotected⟩
  · rcases List.mem_append.mp hf' with hf' | hf'
    · obtain ⟨above, n, hspells, hprotected⟩ := h.patched f' hf' hstatus
      exact ⟨above, n, hspells, hmono hprotected⟩
    · exact absurd (List.mem_singleton.mp hf' ▸ hstatus) hf

section Step

variable (hstart : IsUnmarked fs root l suffix) (h : IsPass fs root l suffix files g)

include hstart h

lemma isTree : g.fs.IsTree := h.written.isTree hstart.isTree

lemma grows : FileSystem.Grows fs g.fs := h.written.grows hstart.isTree

lemma find_root : g.fs.find root = .ok (l, .directory) :=
  (h.grows hstart).find_directory hstart.find_root

lemma isLinkFree : g.fs.IsLinkFree l := h.written.isLinkFree hstart.isTree hstart.isLinkFree

/-- Where a backup is, there is the backup of a protected file. -/
lemma isProtected_of_nodeAt (hnode : g.fs.nodeAt (l ++ above ++ [n ++ suffix]) ≠ none) :
    IsProtected fs root l suffix files g.fs above n := by
  obtain ⟨above', n', heq, hprotected⟩ :=
    h.new _ (hstart.nodeAt_eq_none above (n ++ suffix) (List.suffix_append n suffix)) hnode
  obtain ⟨rfl, hname⟩ := below_concat_inj.mp heq
  obtain rfl := List.append_cancel_right hname
  exact hprotected

/-- A file that is about to be changed was there before the pass, unless it is a backup. -/
lemma exists_spells_of_find {k : Location} {content : Bytes} {executable : Bool}
    (hp : path.IsSpelledFrom root) (hfind : g.fs.find path = .ok (k, .file content executable))
    (hapart : ∀ f ∈ files, ∀ backup, f.backup = some backup → ¬ path.same backup.path) :
    ∃ above n first executable', root.Spells path above n ∧ g.fs.IsEntry path (l ++ above) n ∧
      path.IsShort ∧ k = l ++ above ++ [n] ∧ fs.nodeAt k = some (.file first executable') := by
  obtain ⟨above, n, hspells, hentry, -, hshort, rfl⟩ :=
    FileSystem.exists_spells_of_find (h.isTree hstart) (h.find_root hstart) (h.isLinkFree hstart) hp
      hfind (by simp)
  have hnode : g.fs.nodeAt (l ++ above ++ [n]) = some (.file content executable) :=
    (h.isTree hstart).nodeAt_of_find hfind
  cases hfirst : fs.nodeAt (l ++ above ++ [n]) with
  | none =>
    -- all that is new is a backup, and its path would be the one of the file
    obtain ⟨above', n', heq, hprotected⟩ := h.new _ hfirst (by rw [hnode]; simp)
    obtain ⟨f, hf, backup, -, hbackup, hpath, hspells', -⟩ := hprotected.reported
    obtain ⟨rfl, hname⟩ := below_concat_inj.mp heq
    refine absurd ?_ (hapart f hf backup hbackup)
    rw [hpath, Path.same, hspells.components_eq, hspells'.components_backupPath hstart.isSuffix,
      hname]
    exact decide_eq_true rfl
  | some node =>
    obtain ⟨node', hnode', hshape⟩ := (h.grows hstart).nodeAt hfirst
    rw [hnode, Option.some_inj] at hnode'
    subst hnode'
    obtain ⟨first, executable', rfl⟩ := Node.shape_eq_file hshape.symm
    exact ⟨above, n, first, executable', hspells, hentry, hshort, rfl, rfl⟩

/-- Keeping the backup of a file finds the one that protects it, or makes one. -/
lemma keeping_cases {content : Bytes} {backup : BackupOutcome}
    (hkeeping : Keeping disk path content g (.ok backup) g') (hspells : root.Spells path above n)
    (hentry : g.fs.IsEntry path (l ++ above) n) :
    backup.path = backupPath path suffix ∧
      ((g'.fs = g.fs ∧ IsProtected fs root l suffix files g.fs above n) ∨
        g.fs.nodeAt (l ++ above ++ [n ++ suffix]) = none ∧
          (∃ executable, g'.fs =
            g.fs.put (l ++ above ++ [n ++ suffix]) (.file content executable)) ∧
          FileSystem.IsValidName (n ++ suffix) ∧ backup.path.IsShort) := by
  have hbackup := hentry.backupPath hstart.isSuffix
  have hlink {fs : FileSystem} (hlinks : fs.IsLinkFree l) (target : List Char) :
      fs.nodeAt (l ++ above ++ [n ++ suffix]) ≠ some (.link target) := by
    rw [List.append_assoc]
    exact hlinks _ _
  refine ⟨by rw [hkeeping.path_eq, h.path_eq], ?_⟩
  cases hkeeping with
  | kept _ hholds =>
    rw [h.path_eq, Guarded.holds] at hholds
    refine .inl ⟨Guarded.fs_asked, h.isProtected_of_nodeAt hstart ?_⟩
    -- the store looks for the backup, or it knows of it from before
    cases hlookup : g.store.lookup (backupPath path suffix) with
    | none =>
      rw [hlookup, Option.getD_none] at hholds
      have hthere := Disk.exists?_of_exists? hholds
      exact ((hbackup.exists?_iff (hlink (h.isLinkFree hstart))).mp hthere).2.2
    | some present =>
      rw [hlookup, Option.getD_some] at hholds
      obtain ⟨below, hbelow, hnode⟩ := h.known _ (hholds ▸ hlookup)
      rw [hspells.components_backupPath hstart.isSuffix, List.append_cancel_left_eq] at hbelow
      rwa [← Path.map_name_injective hbelow, ← List.append_assoc] at hnode
  | made fs₁ _ hholds hfollows hwrite =>
    rw [h.path_eq] at hholds hfollows hwrite ⊢
    have hmissing := h.knowsPresent.exists?_eq_false hholds
    rw [Disk.exists?_eq hfollows] at hmissing
    obtain ⟨k, executable, hput, -, hplace, hfind⟩ :=
      FileSystem.exists_put_of_write (h.isTree hstart) hwrite
    have hlinks : fs₁.IsLinkFree l :=
      (FileSystem.Written.write h.written hwrite).isLinkFree hstart.isTree hstart.isLinkFree
    have hentry' := hbackup.mono (FileSystem.Grows.write (h.isTree hstart) hwrite)
    obtain ⟨hvalid, hshort, rfl, -⟩ := (hentry'.find_iff (hlink hlinks)).mp hfind
    exact .inr ⟨FileSystem.nodeAt_eq_none_of_exists? hmissing hplace, ⟨executable, hput⟩, hvalid,
      hshort⟩

/-- A file that is changed after its backup was kept is protected, and all else that was there stays
as it is. -/
lemma protects_of_put {content first : Bytes} {executable executable' : Bool} {new : Node}
    {backup : BackupOutcome} (hkeeping : Keeping disk path content g (.ok backup) g')
    (hspells : root.Spells path above n) (hentry : g.fs.IsEntry path (l ++ above) n)
    (hshort : path.IsShort)
    (hnode : g.fs.nodeAt (l ++ above ++ [n]) = some (.file content executable))
    (hfirst : fs.nodeAt (l ++ above ++ [n]) = some (.file first executable'))
    (hgrows : FileSystem.Grows g.fs (g'.fs.put (l ++ above ++ [n]) new))
    (hpath : f.path = path) (hstatus : f.status = .patched) (hsome : f.backup = some backup) :
    IsProtected fs root l suffix (files ++ [f]) (g'.fs.put (l ++ above ++ [n]) new) above n ∧
      ∀ k ≠ l ++ above ++ [n], (k = l ++ above ++ [n ++ suffix] → g.fs.nodeAt k ≠ none) →
        (g'.fs.put (l ++ above ++ [n]) new).nodeAt k = g.fs.nodeAt k := by
  have hne : l ++ above ++ [n] ≠ [] := List.concat_ne_nil n _
  have hapart : l ++ above ++ [n] ≠ l ++ above ++ [n ++ suffix] := by
    simp [hstart.isSuffix.ne_nil]
  obtain ⟨hbackup, ⟨hfs, hprotected⟩ | ⟨hfree, ⟨executable'', hfs⟩, hvalid, hshort'⟩⟩ :=
    h.keeping_cases hstart hkeeping hspells hentry
  · have hother : ∀ k ≠ l ++ above ++ [n],
        (g'.fs.put (l ++ above ++ [n]) new).nodeAt k = g.fs.nodeAt k := fun k hk => by
      rw [FileSystem.nodeAt_put_of_ne hne hk.symm, hfs]
    exact ⟨hprotected.mono (List.subset_append_left _ _) hgrows (hother _ hapart.symm),
      fun k hk _ => hother k hk⟩
  · obtain rfl : first = content := by
      rcases h.old _ first executable' hfirst with ⟨_, hsame⟩ | ⟨above', n', heq, hprotected⟩
      · rw [hnode, Option.some_inj, Node.file.injEq] at hsame
        exact hsame.1.symm
      · -- the file was changed before, and has no backup: that is not possible
        obtain ⟨rfl, rfl⟩ := below_concat_inj.mp heq
        obtain ⟨_, _, _, -, hkept⟩ := hprotected.kept
        exact absurd (hfree.symm.trans hkept) (by simp)
    refine ⟨⟨hvalid, ⟨f, by simp, backup, hstatus, hsome, by rw [hpath, hbackup], hpath ▸ hspells,
      hpath ▸ hentry.mono hgrows, hpath ▸ hshort, hshort'⟩, first, executable', executable'', hfirst,
      ?_⟩, fun k hk hthere => ?_⟩
    · rw [FileSystem.nodeAt_put_of_ne hne hapart, hfs,
        FileSystem.nodeAt_put_self (List.concat_ne_nil _ _)]
    · have hk' : l ++ above ++ [n ++ suffix] ≠ k := fun heq => hthere heq.symm (heq ▸ hfree)
      rw [FileSystem.nodeAt_put_of_ne hne hk.symm, hfs,
        FileSystem.nodeAt_put_of_ne (List.concat_ne_nil _ _) hk']

/-- The invariant is kept when one more file is protected and nothing else changes. -/
lemma concat_of_isProtected {first : Bytes} {executable : Bool}
    (hwritten : FileSystem.Written fs g'.fs) (hgrows : FileSystem.Grows g.fs g'.fs)
    (hpath : g'.store.path = g.store.path) (hknows : g'.store.KnowsPresent)
    (hlookup : ∀ q, g'.store.lookup q = some true →
      q.same (backupPath f.path suffix) = true ∨ g.store.lookup q = some true)
    (hspells : root.Spells f.path above n)
    (hfirst : fs.nodeAt (l ++ above ++ [n]) = some (.file first executable))
    (hprotected : IsProtected fs root l suffix (files ++ [f]) g'.fs above n)
    (hother : ∀ k ≠ l ++ above ++ [n],
      (k = l ++ above ++ [n ++ suffix] → g.fs.nodeAt k ≠ none) →
        g'.fs.nodeAt k = g.fs.nodeAt k) :
    IsPass fs root l suffix (files ++ [f]) g' := by
  have hmono {above' : Location} {n' : Name}
      (hold : IsProtected fs root l suffix files g.fs above' n') :
      IsProtected fs root l suffix (files ++ [f]) g'.fs above' n' := by
    obtain ⟨_, _, _, -, hkept⟩ := hold.kept
    -- an earlier backup is not the file that is changed, whose name does not end in the suffix
    refine hold.mono (List.subset_append_left _ _) hgrows (hother _ (fun heq => ?_) fun _ => ?_)
    · have hnone := hstart.nodeAt_eq_none above' _ (List.suffix_append n' suffix)
      rw [heq, hfirst] at hnone
      simp at hnone
    · rw [hkept]
      simp
  refine ⟨hwritten, fun source content => hpath ▸ h.path_eq source content, hknows,
    fun q hq => ?known, fun k content executable' hk => ?old, fun k hk hnew => ?new,
    fun f' hf' hstatus => ?patched⟩
  case known =>
    rcases hlookup q hq with hsame | hq
    · obtain ⟨_, _, _, -, hkept⟩ := hprotected.kept
      refine ⟨above ++ [n ++ suffix], ?_, ?_⟩
      · rw [of_decide_eq_true hsame, hspells.components_backupPath hstart.isSuffix]
      · rw [← List.append_assoc, hkept]
        simp
    · obtain ⟨below, hbelow, hthere⟩ := h.known q hq
      exact ⟨below, hbelow, mt hgrows.nodeAt_eq_none hthere⟩
  case old =>
    by_cases heq : k = l ++ above ++ [n]
    · exact .inr ⟨above, n, heq, hprotected⟩
    · rcases h.old k content executable' hk with ⟨executable'', hsame⟩ | ⟨above', n', rfl, hold⟩
      · exact .inl ⟨executable'', (hother k heq fun _ => by simp [hsame]).trans hsame⟩
      · exact .inr ⟨above', n', rfl, hmono hold⟩
  case new =>
    by_cases heq : k = l ++ above ++ [n ++ suffix]
    · exact ⟨above, n, heq, hprotected⟩
    · have hne : k ≠ l ++ above ++ [n] := by
        rintro rfl
        rw [hfirst] at hk
        simp at hk
      rw [hother k hne fun h => absurd h heq] at hnew
      obtain ⟨above', n', rfl, hold⟩ := h.new k hk hnew
      exact ⟨above', n', rfl, hmono hold⟩
  case patched =>
    rcases List.mem_append.mp hf' with hf' | hf'
    · obtain ⟨above', n', hspells', hold⟩ := h.patched f' hf' hstatus
      exact ⟨above', n', hspells', hmono hold⟩
    · obtain rfl := List.mem_singleton.mp hf'
      exact ⟨above, n, hspells, hprotected⟩

/-- The invariant is kept by the promotion of one more file, unless that changes a backup. -/
theorem step (hp : path.IsSpelledFrom root)
    (hpatching : Patching disk options dryRun path g (.ok f) g')
    (hapart : f.status = .patched → ∀ f' ∈ files, ∀ backup, f'.backup = some backup →
      ¬ path.same backup.path) : IsPass fs root l suffix (files ++ [f]) g' := by
  cases hpatching with
  | missing => exact h.concat (by simp)
  | unchanged => exact h.concat (by simp)
  | dryRun => exact h.concat (by simp)
  | patched content backup g₁ fs' hread hsome hdry hkeeping hwrite =>
    have hgrows : FileSystem.Grows g.fs fs' :=
      (hkeeping.written.grows (h.isTree hstart)).trans
        (FileSystem.Grows.write (hkeeping.written.isTree (h.isTree hstart)) hwrite)
    obtain ⟨k, executable, _, hfind, -, -, rfl⟩ :=
      exists_put_of_keeping (h.isTree hstart) hread hkeeping hwrite
    obtain ⟨above, n, first, executable', hspells, hentry, hshort, rfl, hfirst⟩ :=
      h.exists_spells_of_find hstart hp hfind (hapart rfl)
    have hnode : g.fs.nodeAt (l ++ above ++ [n]) = some (.file content executable) :=
      (h.isTree hstart).nodeAt_of_find hfind
    obtain ⟨hprotected, hother⟩ := h.protects_of_put
      (f := ⟨path, .patched, (patchBytes options content).declarations, some backup⟩) hstart hkeeping
      hspells hentry hshort hnode hfirst hgrows rfl rfl rfl
    refine h.concat_of_isProtected hstart (.write (h.written.trans hkeeping.written) hwrite) hgrows
      hkeeping.store_path (hkeeping.knowsPresent h.knowsPresent) (fun q hlookup => ?_) hspells hfirst
      hprotected hother
    rw [← h.path_eq path content, ← hkeeping.path_eq]
    exact hkeeping.lookup_cases hlookup

end Step

end IsPass

/-- A pass that succeeds keeps the invariant if it changes none of the backups that it reports. -/
theorem IsPass.run {paths : List Path} {result : Except PatchError (List FileOutcome)}
    (hstart : IsUnmarked fs root l suffix) (h : IsPass fs root l suffix files g)
    (hall : PatchingAll disk options dryRun paths g result g') (hresult : result = .ok files')
    (hpaths : ∀ p ∈ paths, p.IsSpelledFrom root)
    (hapart : ∀ f ∈ files', f.status = .patched → ∀ f' ∈ files ++ files', ∀ backup,
      f'.backup = some backup → ¬ f.path.same backup.path) :
    IsPass fs root l suffix (files ++ files') g' := by
  induction hall generalizing files files' with
  | nil =>
    obtain rfl := Except.ok.inj hresult
    rwa [List.append_nil]
  | @cons path paths g g₁ g' first result hfirst hlater ih =>
    cases result with
    | error e => simp [Except.map] at hresult
    | ok later =>
      obtain rfl : first :: later = files' := Except.ok.inj hresult
      obtain ⟨hpath, hpaths⟩ := List.forall_mem_cons.mp hpaths
      have hstep := h.step hstart hpath hfirst fun hstatus f' hf' backup hbackup => by
        rw [← hfirst.path_eq]
        exact hapart first List.mem_cons_self hstatus f' (List.mem_append_left _ hf') backup hbackup
      rw [List.append_cons] at hapart ⊢
      exact ih hstep rfl hpaths fun f hf => hapart f (List.mem_cons_of_mem _ hf)
  | stop => simp at hresult

/-- After a pass over a tree in which no name has the suffix, every file is as it was or protected,
and all else are the backups, if the pass changed none of the backups that it reports. What the disk
refuses does not matter, since a pass that it stops does not succeed. -/
theorem isPass_patchFilesOn {paths : List Path} {report : PatchReport}
    (hstart : IsUnmarked fs root l suffix) (hpaths : ∀ p ∈ paths, p.IsSpelledFrom root)
    (hrun : (patchFilesOn disk options dryRun paths).run.run
      ⟨fs, { suffix, policy := .firstWriteWins }⟩ = (.ok report, g))
    (hapart : ∀ f ∈ report.files, f.status = .patched → ∀ f' ∈ report.files, ∀ backup,
      f'.backup = some backup → ¬ f.path.same backup.path) :
    IsPass fs root l suffix report.files g := by
  have hnil : IsPass fs root l suffix [] ⟨fs, { suffix, policy := .firstWriteWins }⟩ := by
    refine ⟨.refl, fun _ _ => rfl, fun q => ?_, fun q hlookup => ?_,
      fun k content executable hk => .inl ⟨executable, hk⟩, fun k hk hnew => absurd hk hnew,
      fun f hf => ?_⟩
    · simp [BackupStore.lookup]
    · simp [BackupStore.lookup] at hlookup
    · simp at hf
  have hall := patchingAll_patchFilesOn disk options dryRun paths
    ⟨fs, { suffix, policy := .firstWriteWins }⟩
  rw [hrun] at hall
  exact hnil.run hstart hall rfl hpaths hapart

end ConstPromotion
