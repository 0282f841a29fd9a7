import ConstPromotion.Proofs.Backup.Restore
import ConstPromotion.Proofs.FileSystem.Visits
import ConstPromotion.Proofs.Text.Order

/-!
# Restoring a tree copies all backups at once

A tree is restored by copies that are made one after another, into the tree that the walk goes
through, and a file that is put back over another one may have a backup itself. The walk visits a
file before the files whose names go on, so a backup is read before it is overwritten
(`IsCopied.nodeAt_backup`), and in the end every file has the content that its backup had at the
start (`restoreTree_simultaneous`). A disk may hide backups from the walk, which leaves them alone
without an error.
-/

namespace ConstPromotion

variable {disk : Disk} {fs later fs' : FileSystem} {root : Path} {l above below : Location}
  {suffix : List Char} {m : Name} {out : List Path} {visited belows : List Location}
  {restored : List (Location × Name)} {depth : Nat}

/-! ### Backups -/

/-- A file below the directory at `l` is the backup of one with the name `m` beside it. -/
structure IsBackup (fs : FileSystem) (l : Location) (suffix : List Char) (above : Location)
    (m : Name) : Prop where
  ne_nil : m ≠ []
  isFile : ∃ content executable,
    fs.nodeAt (l ++ above ++ [m ++ suffix]) = some (.file content executable)

/-- A tree without links in which the name of each backup is the name of a file and the suffix. -/
structure HasBackups (fs : FileSystem) (root : Path) (l : Location) (suffix : List Char) : Prop where
  isTree : fs.IsTree
  hasValidNames : fs.HasValidNames
  find_root : fs.find root = .ok (l, .directory)
  isLinkFree : fs.IsLinkFree l
  not_dot : ∀ above, ¬ IsBackup fs l suffix above ['.']
  not_dots : ∀ above, ¬ IsBackup fs l suffix above ['.', '.']

/-- A disk lets the backup of a file be found when the tree at `root` is restored. -/
structure Disk.Finds (disk : Disk) (root : Path) (suffix : List Char) (above : Location)
    (m : Name) : Prop where
  isText : disk.isText (m ++ suffix) = true
  /-- The walk gets to the backup. -/
  shows : disk.Shows root (above ++ [m ++ suffix])
  /-- The path under which the backup is copied can be followed. -/
  follows : disk.pathError? (backupPath (restoredPath root suffix above m) suffix) = none

/-- A backup that is found when the tree at `root` is restored. -/
structure IsReachable (disk : Disk) (fs : FileSystem) (root : Path) (l : Location)
    (suffix : List Char) (above : Location) (m : Name) : Prop extends
    IsBackup fs l suffix above m, disk.Finds root suffix above m where
  isShort : (backupPath (restoredPath root suffix above m) suffix).IsShort

lemma Disk.finds_plain (root : Path) (suffix : List Char) (above : Location) (m : Name) :
    Disk.plain.Finds root suffix above m := ⟨rfl, shows_plain _ _, rfl⟩

lemma ne_nil_of_restoreTreeOn
    (hrun : (restoreTreeOn disk root suffix).run.run fs = (.ok out, fs')) : suffix ≠ [] := by
  rintro rfl
  cases hrun

namespace HasBackups

variable (hstart : HasBackups fs root l suffix)

include hstart

lemma isEntryName_of_mem {k : Location} (h : fs.nodeAt (l ++ k) ≠ none) :
    ∀ n ∈ k, Path.IsEntryName n := fun n hn =>
  (hstart.hasValidNames.forall_mem hstart.isTree h n (List.mem_append_right l hn)).toIsEntryName

lemma root_ne_nil : root.chars ≠ [] :=
  FileSystem.chars_ne_nil_of_find hstart.find_root

variable (h : IsBackup fs l suffix above m)

include h

lemma isEntryName_append : ∀ k ∈ above ++ [m ++ suffix], Path.IsEntryName k := by
  obtain ⟨content, executable, hnode⟩ := h.isFile
  exact hstart.isEntryName_of_mem (by rw [← List.append_assoc, hnode]; simp)

/-- The file of a backup can be an entry beside it. -/
lemma isEntryName : Path.IsEntryName m := by
  have hname := hstart.isEntryName_append h (m ++ suffix) (by simp)
  refine ⟨h.ne_nil, fun hmem => hname.slash_notMem (List.mem_append_left suffix hmem), ?_, ?_⟩
  · rintro rfl
    exact hstart.not_dot above h
  · rintro rfl
    exact hstart.not_dots above h

lemma isSuffix (hsuffix : suffix ≠ []) : IsSuffix suffix := by
  have hname := hstart.isEntryName_append h (m ++ suffix) (by simp)
  exact ⟨hsuffix, fun hmem => hname.slash_notMem (List.mem_append_right m hmem)⟩

/-- The walk gets to the directory of a backup that can be reached. -/
lemma isShort_descend (hshort : (backupPath (restoredPath root suffix above m) suffix).IsShort) :
    (root.descend above).IsShort := by
  have hroot := FileSystem.isShort_of_find hstart.find_root
  exact isShort_descend_of_restoredPath hstart.root_ne_nil hroot
    (fun k hk => hstart.isEntryName_append h k (List.mem_append_left _ hk)) (hstart.isEntryName h)
    (hstart.isEntryName_append h _ (by simp)) hshort

end HasBackups

/-! ### One visit -/

/-- Nothing of the tree has moved since the start, and no link was made in it. -/
structure OnlyGrew (fs : FileSystem) (l : Location) (later : FileSystem) : Prop where
  isTree : later.IsTree
  grows : FileSystem.Grows fs later
  isLinkFree : later.IsLinkFree l

/-- A copy that puts one file there keeps the tree so. -/
lemma OnlyGrew.copy (h : OnlyGrew fs l later) {source target : Path} {size : Nat} {k : Location}
    {content : Bytes} {executable : Bool} (hcopy : later.copy source target = .ok (size, fs'))
    (hgrows : FileSystem.Grows later fs') (hfile : fs'.nodeAt k = some (.file content executable))
    (hother : ∀ j ≠ k, fs'.nodeAt j = later.nodeAt j) : OnlyGrew fs l fs' := by
  refine ⟨h.isTree.copy hcopy, h.grows.trans hgrows, fun below target hlink => ?_⟩
  by_cases heq : l ++ below = k
  · rw [heq, hfile] at hlink
    simp at hlink
  · rw [hother _ heq] at hlink
    exact h.isLinkFree below target hlink

section Visit

variable (hstart : HasBackups fs root l suffix) (hsuffix : suffix ≠ [])

include hstart

/-- What the walk meets is a backup that it takes for one, or none that it could. -/
lemma HasBackups.visit_cases (hbelow : below ∈ disk.fileLocations fs depth root) :
    (disk.protectedPath? (root.descend below) suffix = none ∧
        ∀ above m, below = above ++ [m ++ suffix] → ¬ IsReachable disk fs root l suffix above m) ∨
      ∃ above m, below = above ++ [m ++ suffix] ∧ IsBackup fs l suffix above m ∧
        disk.isText (m ++ suffix) = true ∧
        disk.protectedPath? (root.descend below) suffix =
          some (restoredPath root suffix above m) ∧
        fs.IsEntry (restoredPath root suffix above m) (l ++ above) m := by
  obtain ⟨above, name, content, executable, rfl, hdir, hnode⟩ :=
    Disk.nodeAt_of_mem_fileLocations hstart.hasValidNames hstart.find_root hbelow
  have hname := hstart.isEntryName_of_mem (by rw [hnode]; simp) name (by simp)
  have hentry : fs.IsEntry (root.descend (above ++ [name])) (l ++ above) name := by
    rw [Path.descend_concat]
    exact FileSystem.isEntry_child hdir hname
  cases hprotected : disk.protectedPath? (root.descend (above ++ [name])) suffix with
  | none =>
    refine .inl ⟨rfl, fun above' m heq hreachable => ?_⟩
    obtain rfl : name = m ++ suffix := List.singleton_inj.mp (List.append_inj' heq rfl).2
    rw [(protectedPath?_eq_some_iff hentry.fileName?).mpr
      ⟨hreachable.isText, m, hreachable.ne_nil, rfl, rfl⟩] at hprotected
    simp at hprotected
  | some source =>
    obtain ⟨htext, m, hm, rfl, rfl⟩ := (protectedPath?_eq_some_iff hentry.fileName?).mp hprotected
    have hbackup : IsBackup fs l suffix above m :=
      ⟨hm, content, executable, by rwa [List.append_assoc]⟩
    exact .inr ⟨above, m, rfl, hbackup, htext, rfl, hentry.withFileName (hstart.isEntryName hbackup)⟩

include hsuffix

/-- The visit of a backup that can be reached copies it to the place of its file. Other visits do
nothing. -/
lemma HasBackups.restoreFromOn_cases (hbelow : below ∈ disk.fileLocations fs depth root)
    (hlater : OnlyGrew fs l later)
    (hrun : (restoreFromOn disk suffix (root.descend below)).run.run later = (.ok out, fs')) :
    (out = [] ∧ fs' = later ∧
        ∀ above m, below = above ++ [m ++ suffix] → ¬ IsReachable disk fs root l suffix above m) ∨
      ∃ above m, below = above ++ [m ++ suffix] ∧ IsReachable disk fs root l suffix above m ∧
        out = [restoredPath root suffix above m] ∧ OnlyGrew fs l fs' ∧
        fs'.nodeAt (l ++ above ++ [m]) = later.nodeAt (l ++ above ++ [m ++ suffix]) ∧
        ∀ k ≠ l ++ above ++ [m], fs'.nodeAt k = later.nodeAt k := by
  rcases hstart.visit_cases hbelow with
    ⟨hnone, hother⟩ | ⟨above, m, rfl, hmarked, htext, hprotected, hentry⟩
  · rw [run_restoreFromOn_of_none hnone] at hrun
    obtain ⟨⟨⟩, rfl⟩ := Prod.mk.inj hrun
    exact .inl ⟨rfl, rfl, hother⟩
  · obtain ⟨_, _, hnode⟩ := hmarked.isFile
    have hsource := hentry.mono hlater.grows
    have hbackup := hsource.backupPath (hstart.isSuffix hmarked hsuffix)
    obtain ⟨content, executable, hthere⟩ := hlater.grows.nodeAt_file hnode
    have hlink (link : List Char) :
        later.nodeAt (l ++ above ++ [m ++ suffix]) ≠ some (.link link) := by
      rw [hthere]
      simp
    obtain ⟨done, hrestore, rfl⟩ := exists_restoreFileOn_of_restoreFromOn hprotected hrun
    rcases restoreFileOn_cases hrestore with ⟨rfl, rfl, hmissing⟩ | ⟨rfl, hfollows, size, hcopy⟩
    · refine .inl ⟨rfl, rfl, fun above' m' heq hreachable => ?_⟩
      -- a backup is still a file later, so only its path can hide it
      obtain ⟨rfl, rfl⟩ := backup_concat_inj.mp heq
      have hvalid := hstart.hasValidNames (l ++ above) (m ++ suffix) (by rw [hnode]; simp)
      have hfind := (hbackup.find_iff hlink).mpr ⟨hvalid, hreachable.isShort, rfl, hthere⟩
      have hfile := FileSystem.isFile_iff.mpr ⟨_, _, _, hfind⟩
      rw [Disk.isFile_eq hreachable.follows, hfile] at hmissing
      simp at hmissing
    · have hne : m ++ suffix ≠ m := by simpa using hsuffix
      have hfree (link : List Char) : later.nodeAt (l ++ above ++ [m]) ≠ some (.link link) := by
        simpa using hlater.isLinkFree (above ++ [m]) link
      obtain ⟨hgrows, hnew, hother⟩ :=
        hbackup.of_copy hlater.isTree hsource hne hthere hfree hcopy
      have hreachable : IsReachable disk fs root l suffix above m := by
        obtain ⟨⟨j, node⟩, hfind, -⟩ := FileSystem.exists_of_bind_eq_ok hcopy
        exact ⟨hmarked, ⟨htext, Disk.shows_of_mem_fileLocations hbelow, hfollows⟩,
          ((hbackup.find_iff hlink).mp hfind).2.1⟩
      exact .inr ⟨above, m, rfl, hreachable, rfl, hlater.copy hcopy hgrows hnew hother,
        hnew.trans hthere.symm, hother⟩

/-- A visit changes nothing but the directory of the file that is visited. -/
lemma HasBackups.staysIn_restoreFromOn
    (hbelow : above ++ [m] ∈ disk.fileLocations fs depth root) :
    StaysIn (OnlyGrew fs l) (restoreFromOn disk suffix) (root.descend (above ++ [m]))
      (l ++ above) := by
  intro later out fs' hlater hvisit
  rcases hstart.restoreFromOn_cases hsuffix hbelow hlater hvisit with
    ⟨-, rfl, -⟩ | ⟨above', m', heq, -, -, hgrew, -, hsame⟩
  · exact ⟨hlater, fun _ _ => rfl⟩
  · obtain ⟨rfl, -⟩ := List.append_inj' heq rfl
    refine ⟨hgrew, fun k hk => ?_⟩
    rw [FileSystem.nodeAt_shape, FileSystem.nodeAt_shape, hsame k (hk m')]

/-- Where no backup can be reached, nothing is restored, and there is no error. -/
theorem restoreTreeOn_of_unreachable
    (hhidden : ∀ above m, ¬ IsReachable disk fs root l suffix above m) :
    (restoreTreeOn disk root suffix).run.run fs = (.ok [], fs) := by
  rw [restoreTreeOn, if_neg hsuffix]
  refine (Attempt.run_bind_ok (Attempt.run_get fs)).trans ?_
  rw [Disk.walk_eq _ _ hstart.find_root]
  split_ifs with hroot
  swap
  · rfl
  apply run_walkDirectory_of_idle
  intro below hbelow
  rcases hstart.visit_cases hbelow with
    ⟨hnone, -⟩ | ⟨above, m, rfl, hmarked, htext, hprotected, hentry⟩
  · exact run_restoreFromOn_of_none hnone
  · have hmark := hstart.isSuffix hmarked hsuffix
    refine run_restoreFromOn_of_missing hprotected (not_same_backupPath hentry.fileName? hmark) ?_
    rw [← Bool.not_eq_true, Disk.isFile_eq_true_iff, FileSystem.isFile_iff]
    rintro ⟨hfollows, k, content, executable, hfind⟩
    have hshort := ((hentry.backupPath hmark).isValidName_of_resolve
      (FileSystem.find_eq_ok_iff.mp hfind)).2
    exact hhidden above m
      ⟨hmarked, ⟨htext, Disk.shows_of_mem_fileLocations hbelow, hfollows⟩, hshort⟩

end Visit

/-- Under a path that is as long as a path can be, no backup is reached. -/
lemma not_isReachable_of_size {p : Path} {k : Name} (hp : p.chars ≠ []) (hk : Path.IsEntryName k)
    (hstart : HasBackups fs (p.child k) l suffix)
    (hsize : Utf8.size (p.child k).chars + 1 = FileSystem.maxPathBytes)
    (above : Location) (m : Name) : ¬ IsReachable disk fs (p.child k) l suffix above m := by
  intro hreachable
  have hlong (n : Name) (hn : Path.IsEntryName n) : ¬ ((p.child k).child n).IsShort := by
    have hlt := Path.size_lt_child hn (p.child k)
    rw [Path.IsShort]
    omega
  have h := hreachable.toIsBackup
  have hnames := hstart.isEntryName_append h
  cases above with
  | nil =>
    have hbackup := hnames (m ++ suffix) (by simp)
    have hpath : backupPath (restoredPath (p.child k) suffix [] m) suffix =
        (p.child k).child (m ++ suffix) :=
      backupPath_withFileName_child hp hk (hstart.isEntryName h) hbackup
    exact hlong _ hbackup (hpath ▸ hreachable.isShort)
  | cons n above =>
    obtain ⟨hn, hrest⟩ := List.forall_mem_cons.mp hnames
    have habove : ∀ k ∈ above, Path.IsEntryName k := fun k hk =>
      hrest k (List.mem_append_left [m ++ suffix] hk)
    exact hlong n hn (Path.isShort_of_descend habove (hstart.isShort_descend h hreachable.isShort))

/-! ### The whole walk -/

/-- What holds after some of the files were visited: the files whose backups were among them have
what the backups had at the start, and all else is as it was. -/
structure IsCopied (disk : Disk) (fs : FileSystem) (root : Path) (l : Location)
    (suffix : List Char) (visited : List Location) (restored : List (Location × Name))
    (later : FileSystem) : Prop where
  onlyGrew : OnlyGrew fs l later
  mem_iff : ∀ above m, (above, m) ∈ restored ↔
    above ++ [m ++ suffix] ∈ visited ∧ IsReachable disk fs root l suffix above m
  sublist : (restored.map fun b => b.1 ++ [b.2 ++ suffix]).Sublist visited
  copied : ∀ above m, (above, m) ∈ restored →
    later.nodeAt (l ++ above ++ [m]) = fs.nodeAt (l ++ above ++ [m ++ suffix])
  kept : ∀ k, (∀ above m, (above, m) ∈ restored → k ≠ l ++ above ++ [m]) →
    later.nodeAt k = fs.nodeAt k

namespace IsCopied

/-- A backup that the walk gets to is as it was at the start: a file with its name could have been
put there only from a backup whose name goes on, and that one comes later. -/
lemma nodeAt_backup (h : IsCopied disk fs root l suffix visited restored later)
    (hsuffix : suffix ≠ []) (hbefore : ∀ k ∈ visited, k < above ++ [m ++ suffix]) :
    later.nodeAt (l ++ above ++ [m ++ suffix]) = fs.nodeAt (l ++ above ++ [m ++ suffix]) := by
  refine h.kept _ fun above' m' hmem heq => ?_
  obtain ⟨rfl, rfl⟩ := below_concat_inj.mp heq
  have hlt : m ++ suffix ++ suffix < m ++ suffix := by
    have hvisited := hbefore _ ((h.mem_iff _ _).mp hmem).1
    rw [FileSystem.append_lt_append_iff, List.cons_lt_cons_iff] at hvisited
    exact hvisited.resolve_right fun heq => List.lt_irrefl _ heq.2
  have hgt : m ++ suffix ++ [] < m ++ suffix ++ suffix := by
    obtain ⟨c, rest, rfl⟩ := List.exists_cons_of_ne_nil hsuffix
    exact List.append_left_lt (List.nil_lt_cons c rest)
  rw [List.append_nil] at hgt
  exact List.lt_asymm hlt hgt

/-- The visit of anything but a backup that can be reached changes nothing. -/
lemma idle (h : IsCopied disk fs root l suffix visited restored later)
    (hother : ∀ above m, below = above ++ [m ++ suffix] →
      ¬ IsReachable disk fs root l suffix above m) :
    IsCopied disk fs root l suffix (visited ++ [below]) restored later := by
  refine ⟨h.onlyGrew, fun above m => ?mem_iff, h.sublist.trans (List.sublist_append_left _ _),
    h.copied, h.kept⟩
  case mem_iff =>
    rw [h.mem_iff, List.mem_append, List.mem_singleton]
    constructor
    · exact fun hmem => ⟨.inl hmem.1, hmem.2⟩
    · rintro ⟨hmem | heq, hreachable⟩
      · exact ⟨hmem, hreachable⟩
      · exact absurd hreachable (hother above m heq.symm)

/-- The visit of a backup that can be reached copies it, and that is all that it changes. -/
lemma copy (h : IsCopied disk fs root l suffix visited restored later)
    (hreachable : IsReachable disk fs root l suffix above m) (hgrew : OnlyGrew fs l fs')
    (hnew : fs'.nodeAt (l ++ above ++ [m]) = fs.nodeAt (l ++ above ++ [m ++ suffix]))
    (hsame : ∀ k ≠ l ++ above ++ [m], fs'.nodeAt k = later.nodeAt k) :
    IsCopied disk fs root l suffix (visited ++ [above ++ [m ++ suffix]]) (restored ++ [(above, m)])
      fs' := by
  refine ⟨hgrew, fun above' m' => ?mem_iff, ?sublist, fun above' m' hmem => ?copied,
    fun k hk => ?kept⟩
  case mem_iff =>
    rw [List.mem_append, h.mem_iff, List.mem_singleton, List.mem_append, List.mem_singleton]
    constructor
    · rintro (hmem | heq)
      · exact ⟨.inl hmem.1, hmem.2⟩
      · obtain ⟨rfl, rfl⟩ := Prod.mk.inj heq
        exact ⟨.inr rfl, hreachable⟩
    · rintro ⟨hmem | heq, hreachable'⟩
      · exact .inl ⟨hmem, hreachable'⟩
      · obtain ⟨rfl, rfl⟩ := backup_concat_inj.mp heq
        exact .inr rfl
  case sublist =>
    rw [List.map_append]
    exact h.sublist.append (.refl _)
  case copied =>
    by_cases heq : l ++ above' ++ [m'] = l ++ above ++ [m]
    · obtain ⟨rfl, rfl⟩ := below_concat_inj.mp heq
      exact hnew
    · rw [hsame _ heq]
      refine h.copied above' m' ((List.mem_append.mp hmem).resolve_right fun hmem => heq ?_)
      obtain ⟨rfl, rfl⟩ := Prod.mk.inj (List.mem_singleton.mp hmem)
      rfl
  case kept =>
    rw [hsame k (hk above m (by simp))]
    exact h.kept k fun above' m' hmem => hk above' m' (List.mem_append_left _ hmem)

variable (hstart : HasBackups fs root l suffix) (hsuffix : suffix ≠ [])

include hstart hsuffix

/-- One more visit. -/
lemma step (h : IsCopied disk fs root l suffix visited restored later)
    (hbelow : below ∈ disk.fileLocations fs depth root) (hbefore : ∀ k ∈ visited, k < below)
    (hrun : (restoreFromOn disk suffix (root.descend below)).run.run later = (.ok out, fs')) :
    ∃ more, IsCopied disk fs root l suffix (visited ++ [below]) (restored ++ more) fs' ∧
      out = more.map fun b => restoredPath root suffix b.1 b.2 := by
  rcases hstart.restoreFromOn_cases hsuffix hbelow h.onlyGrew hrun with
    ⟨rfl, rfl, hother⟩ | ⟨above, m, rfl, hreachable, rfl, hgrew, hnew, hsame⟩
  · exact ⟨[], by simpa using h.idle hother, rfl⟩
  · rw [h.nodeAt_backup hsuffix hbefore] at hnew
    exact ⟨[(above, m)], h.copy hreachable hgrew hnew hsame, rfl⟩

/-- All visits. -/
lemma run {paths : List Path} (h : IsCopied disk fs root l suffix visited restored later)
    (hbelows : ∀ below ∈ belows, below ∈ disk.fileLocations fs depth root)
    (hsorted : (visited ++ belows).Pairwise (· < ·)) (hpaths : paths = belows.map root.descend)
    (hvisiting : Visiting (restoreFromOn disk suffix) paths later out fs') :
    ∃ more, IsCopied disk fs root l suffix (visited ++ belows) (restored ++ more) fs' ∧
      out = more.map fun b => restoredPath root suffix b.1 b.2 := by
  induction hvisiting generalizing visited restored belows with
  | nil =>
    obtain rfl := List.map_eq_nil_iff.mp hpaths.symm
    exact ⟨[], by simpa using h, rfl⟩
  | @cons p paths later fs₁ fs' here rest hfirst hlater ih =>
    obtain ⟨below, belows, rfl, rfl, rfl⟩ := List.map_eq_cons_iff.mp hpaths.symm
    obtain ⟨hbelow, hbelows⟩ := List.forall_mem_cons.mp hbelows
    have hbefore : ∀ k ∈ visited, k < below := fun k hk =>
      (List.pairwise_append.mp hsorted).2.2 k hk below List.mem_cons_self
    obtain ⟨first, hstep, rfl⟩ := h.step hstart hsuffix hbelow hbefore hfirst
    rw [List.append_cons] at hsorted ⊢
    obtain ⟨more, hend, rfl⟩ := ih hstep hbelows hsorted rfl
    exact ⟨first ++ more, by rwa [← List.append_assoc], by rw [List.map_append]⟩

end IsCopied

/-- Restoring a tree copies the backups that can be reached, all as they were at the start. -/
theorem isCopied_restoreTreeOn (hstart : HasBackups fs root l suffix)
    (hrun : (restoreTreeOn disk root suffix).run.run fs = (.ok out, fs')) :
    ∃ restored,
      IsCopied disk fs root l suffix (disk.fileLocations fs (fs.depth + 1) root) restored fs' ∧
      out = restored.map fun b => restoredPath root suffix b.1 b.2 := by
  have hsuffix := ne_nil_of_restoreTreeOn hrun
  rw [restoreTreeOn, if_neg hsuffix] at hrun
  obtain ⟨start, u, hget, hwalk⟩ := Attempt.exists_of_run_bind hrun
  obtain ⟨⟨⟩, rfl⟩ := Prod.mk.inj hget
  rw [Disk.walk_eq _ _ hstart.find_root] at hwalk
  have hgrew : OnlyGrew fs l fs := ⟨hstart.isTree, .refl fs, hstart.isLinkFree⟩
  have hnil : IsCopied disk fs root l suffix [] [] fs :=
    ⟨hgrew, by simp, .slnil, by simp, fun _ _ => rfl⟩
  cases hfollows : disk.pathError? root with
  | some e =>
    rw [hfollows] at hwalk
    obtain ⟨⟨⟩, rfl⟩ := Prod.mk.inj hwalk
    rw [Disk.fileLocations_of_pathError hfollows]
    exact ⟨[], hnil, rfl⟩
  | none =>
    rw [hfollows, Option.isNone_none, if_pos rfl] at hwalk
    have hvisiting := visitingBelow_walkDirectory hstart.hasValidNames (fun h => h.grows)
      hstart.find_root (fun _ _ => hstart.staysIn_restoreFromOn hsuffix) hgrew (fun _ _ => rfl) hwalk
    have hall : ∀ below ∈ disk.fileLocations fs (fs.depth + 1) root,
        below ∈ disk.fileLocations fs (fs.depth + 1) root := fun _ h => h
    exact hnil.run hstart hsuffix hall (disk.pairwise_fileLocations fs (fs.depth + 1) root) rfl
      hvisiting.visiting

namespace IsCopied

variable (h : IsCopied disk fs root l suffix (disk.fileLocations fs (fs.depth + 1) root) restored fs')

include h

/-- All backups that can be reached are copied. -/
lemma mem_iff_isReachable (hstart : HasBackups fs root l suffix) (above : Location) (m : Name) :
    (above, m) ∈ restored ↔ IsReachable disk fs root l suffix above m := by
  rw [h.mem_iff, Disk.mem_fileLocations_iff hstart.hasValidNames hstart.isTree hstart.find_root,
    List.dropLast_concat, ← List.append_assoc]
  constructor
  · exact fun hvisited => hvisited.2
  · intro hreachable
    exact ⟨⟨hreachable.shows, hstart.isShort_descend hreachable.toIsBackup hreachable.isShort,
      hreachable.isFile⟩, hreachable⟩

/-- Backups are copied in the order of their locations, each once. -/
lemma pairwise : restored.Pairwise fun b c => b.1 ++ [b.2 ++ suffix] < c.1 ++ [c.2 ++ suffix] :=
  List.pairwise_map.mp ((disk.pairwise_fileLocations fs (fs.depth + 1) root).sublist h.sublist)

end IsCopied

/-- Restoring a tree gives every file the content that its backup had before, whether or not the
backup was overwritten by one of its own in the course of it (first part), and changes nothing else
(second part). What it gives are the paths of these files, each once, in the order of the bytes of
their backups' names (third part). The backups are those that can be reached, and the others are
left alone. -/
theorem restoreTree_simultaneous (hstart : HasBackups fs root l suffix)
    (hrun : (restoreTreeOn disk root suffix).run.run fs = (.ok out, fs')) :
    (∀ above m, IsReachable disk fs root l suffix above m →
      fs'.nodeAt (l ++ above ++ [m]) = fs.nodeAt (l ++ above ++ [m ++ suffix])) ∧
    (∀ k, (∀ above m, IsReachable disk fs root l suffix above m → k ≠ l ++ above ++ [m]) →
      fs'.nodeAt k = fs.nodeAt k) ∧
    ∃ restored : List (Location × Name),
      out = restored.map (fun b => restoredPath root suffix b.1 b.2) ∧
      (restored.map fun b => (b.1 ++ [b.2 ++ suffix]).map Utf8.encode).Pairwise (· < ·) ∧
      (∀ above m, (above, m) ∈ restored ↔ IsReachable disk fs root l suffix above m) ∧
      ∀ b ∈ restored, (restoredPath root suffix b.1 b.2).components =
        root.components ++ (b.1 ++ [b.2]).map .name := by
  obtain ⟨restored, hend, rfl⟩ := isCopied_restoreTreeOn hstart hrun
  have hmem := hend.mem_iff_isReachable hstart
  refine ⟨fun above m hreachable => hend.copied above m ((hmem above m).mpr hreachable),
    fun k hk => ?_, restored, rfl, ?_, hmem, fun ⟨above, m⟩ hb => ?_⟩
  · exact hend.kept k fun above m h => hk above m ((hmem above m).mp h)
  · rw [List.pairwise_map]
    exact hend.pairwise.imp fun hlt => List.map_lt (fun _ _ => Utf8.encode_lt_encode) hlt
  · have hbackup := ((hmem above m).mp hb).toIsBackup
    have hnames := hstart.isEntryName_append hbackup
    have habove : ∀ k ∈ above, Path.IsEntryName k := fun k hk =>
      hnames k (List.mem_append_left [m ++ suffix] hk)
    exact components_restoredPath hstart.root_ne_nil habove (hstart.isEntryName hbackup)
      (hnames _ (by simp))

/-! ### A backup that has a backup -/

/-- The directories of the entries below a location, and what the names of these entries have before
as many characters as there are in the suffix. -/
def beforeSuffix (fs : FileSystem) (l : Location) (suffix : List Char) : List (Location × Name) :=
  fs.nodes.entries.map fun e =>
    ((e.1.drop l.length).dropLast, (e.1.getLastD []).take ((e.1.getLastD []).length - suffix.length))

lemma IsBackup.mem_beforeSuffix (h : IsBackup fs l suffix above m) :
    (above, m) ∈ beforeSuffix fs l suffix := by
  obtain ⟨content, executable, hnode⟩ := h.isFile
  refine List.mem_map.mpr
    ⟨_, FileSystem.mem_entries_of_nodeAt (List.concat_ne_nil _ _) hnode, Prod.ext ?_ ?_⟩
  · simp
  · simp

namespace Chained

/-- The suffix of backups. -/
def mark : List Char := ".orig".toList

/-- A directory with a file that is gone, whose backup has a backup, and with another file below. -/
def tree : FileSystem :=
  ⟨.ofList [(["d".toList], .directory), (["d".toList, "sub".toList], .directory),
    (["d".toList, "sub".toList, "y".toList], .file (bytesOf "new\n") true),
    (["d".toList, "sub".toList, "y.orig".toList], .file (bytesOf "old\n") false),
    (["d".toList, "x.orig".toList], .file (bytesOf "first\n") false),
    (["d".toList, "x.orig.orig".toList], .file (bytesOf "second\n") false)], []⟩

lemma hasBackups_tree {root : Path} (hroot : tree.find root = .ok (["d".toList], .directory)) :
    HasBackups tree root ["d".toList] mark := by
  have hnames : ∀ b ∈ beforeSuffix tree ["d".toList] mark, b.2 ≠ ['.'] ∧ b.2 ≠ ['.', '.'] := by
    decide +kernel
  exact ⟨FileSystem.isTree_of_forall (by decide), FileSystem.hasValidNames_of_forall (by decide),
    hroot, FileSystem.isLinkFree_of_forall (by decide) _,
    fun _ h => (hnames _ h.mem_beforeSuffix).1 rfl, fun _ h => (hnames _ h.mem_beforeSuffix).2 rfl⟩

lemma nodeAt_x_orig : tree.nodeAt (["d".toList] ++ [] ++ ["x".toList ++ mark]) =
    some (.file (bytesOf "first\n") false) := by
  decide +kernel

lemma nodeAt_x_orig_orig : tree.nodeAt (["d".toList] ++ [] ++ ["x.orig".toList ++ mark]) =
    some (.file (bytesOf "second\n") false) := by
  decide +kernel

lemma isBackup_x : IsBackup tree ["d".toList] mark [] "x".toList :=
  ⟨by decide, bytesOf "first\n", false, nodeAt_x_orig⟩

lemma isBackup_x_orig : IsBackup tree ["d".toList] mark [] "x.orig".toList :=
  ⟨by decide, bytesOf "second\n", false, nodeAt_x_orig_orig⟩

/-- The directory. -/
def top : Path := .ofString "/d"

/-- The disk on which the name of the backup of the file below is no text. -/
def marred : Disk where
  isText n := n ≠ "y.orig".toList

/-- The directory is restored on that disk. -/
def restoration : Except BackupError (List Path) × FileSystem :=
  (restoreTreeOn marred top mark).run.run tree

lemma restoration_fst : restoration.1 = .ok [.ofString "/d/x", .ofString "/d/x.orig"] := by
  decide +kernel

/-- The file that was gone has the content that its backup had before the backup was itself put
back. The file whose backup has no name that is text is left as it was. -/
theorem restoreTree_simultaneous_chain :
    HasBackups tree top ["d".toList] mark ∧
      IsReachable marred tree top ["d".toList] mark [] "x".toList ∧
      IsReachable marred tree top ["d".toList] mark [] "x.orig".toList ∧
      restoration.1 = .ok [.ofString "/d/x", .ofString "/d/x.orig"] ∧
      restoration.2.nodeAt ["d".toList, "x".toList] = some (.file (bytesOf "first\n") false) ∧
      restoration.2.nodeAt ["d".toList, "x.orig".toList] =
        some (.file (bytesOf "second\n") false) ∧
      restoration.2.nodeAt ["d".toList, "sub".toList, "y".toList] =
        some (.file (bytesOf "new\n") true) := by
  have hstart : HasBackups tree top ["d".toList] mark := hasBackups_tree (by decide +kernel)
  have hreachable : IsReachable marred tree top ["d".toList] mark [] "x".toList :=
    ⟨isBackup_x, ⟨by decide, ⟨rfl, rfl, trivial⟩, rfl⟩, by decide +kernel⟩
  have hreachable' : IsReachable marred tree top ["d".toList] mark [] "x.orig".toList :=
    ⟨isBackup_x_orig, ⟨by decide, ⟨rfl, rfl, trivial⟩, rfl⟩, by decide +kernel⟩
  have hrun : (restoreTreeOn marred top mark).run.run tree =
      (.ok [.ofString "/d/x", .ofString "/d/x.orig"], restoration.2) :=
    Prod.fst_eq_iff.mp restoration_fst
  obtain ⟨hback, hkept, -⟩ := restoreTree_simultaneous hstart hrun
  have hx := hback [] "x".toList hreachable
  have hxOrig := hback [] "x.orig".toList hreachable'
  have hy : restoration.2.nodeAt ["d".toList, "sub".toList, "y".toList] =
      tree.nodeAt ["d".toList, "sub".toList, "y".toList] := by
    refine hkept _ fun above m h heq => ?_
    have hbelow : ["d".toList] ++ ["sub".toList] ++ ["y".toList] =
        ["d".toList] ++ above ++ [m] := heq
    obtain ⟨rfl, rfl⟩ := below_concat_inj.mp hbelow
    exact absurd h.isText (by decide)
  rw [nodeAt_x_orig] at hx
  rw [nodeAt_x_orig_orig] at hxOrig
  exact ⟨hstart, hreachable, hreachable', restoration_fst, hx, hxOrig, hy.trans (by decide +kernel)⟩

/-- A spelling of the root. -/
def slashes : Path := ⟨List.replicate 4094 '/'⟩

lemma slashes_ne_nil : slashes.chars ≠ [] := mt (List.replicate_eq_nil_iff '/').mp (by decide)

/-- A spelling of the directory that can be followed, while every path that goes on is too long. -/
def overlong : Path := slashes.child "d".toList

lemma size_overlong : Utf8.size overlong.chars + 1 = FileSystem.maxPathBytes := by decide +kernel

lemma find_overlong : tree.find overlong = .ok (["d".toList], .directory) := by
  have hslashes : tree.find slashes = .ok ([], .directory) :=
    FileSystem.find_of_forall_slash slashes_ne_nil (fun c hc => List.eq_of_mem_replicate hc)
      (by decide +kernel)
  have hshort : overlong.IsShort := by
    have hsize := size_overlong
    rw [Path.IsShort]
    omega
  exact FileSystem.find_child hslashes (by decide) hshort (by decide +kernel) (by simp)

/-- The file that is gone is not restored under such a spelling, although its backup is there. -/
theorem not_restored :
    HasBackups tree overlong ["d".toList] mark ∧
      IsBackup tree ["d".toList] mark [] "x".toList ∧
      (restoreTree overlong mark).run.run tree = (.ok [], tree) ∧
      tree.nodeAt ["d".toList, "x".toList] = none := by
  have hstart := hasBackups_tree find_overlong
  exact ⟨hstart, isBackup_x,
    restoreTreeOn_of_unreachable hstart (by decide)
      (not_isReachable_of_size slashes_ne_nil (by decide) hstart size_overlong), by decide +kernel⟩

end Chained

end ConstPromotion
