import ConstPromotion.Proofs.Backup.Naming
import ConstPromotion.Proofs.Backup.Store
import ConstPromotion.Proofs.FileSystem.Spelling

/-!
# Snapshots under the versioned policy

Under the versioned policy a store keeps one content after the other. Each backup that it reports
holds a content that it was given (`KeepsSnapshots`), but the name of the backup tells that content
only up to the first digits of its digest. So each backup holds the content that it was reported for
as long as two contents of one file never agree in these digits, and not otherwise
(`snapshots_of_ensureBackups`).
-/

namespace ConstPromotion

/-- A content that is given to be kept, and the file that it is a content of. -/
structure Snapshot where
  source : Path
  content : Bytes

namespace Snapshot

/-- Where a snapshot belongs under the versioned policy. -/
def path (suffix : List Char) (s : Snapshot) : Path :=
  versionedBackupPath s.source suffix s.content

/-- What the name of its backup has of the digest of a snapshot. -/
def version (s : Snapshot) : List Char := (Sha256.hexDigest s.content).take versionDigits

end Snapshot

variable {suffix : List Char} {s t : Snapshot} {snapshots more : List Snapshot}
  {fs : FileSystem} {g g' : Guarded} {outcome : BackupOutcome} {outcomes : List BackupOutcome}

/-! ### Names -/

namespace Snapshot

@[simp] lemma length_version (s : Snapshot) : s.version.length = 8 := by
  rw [version, List.length_take, length_hexDigest]
  rfl

/-- The name of the backup of a snapshot. -/
def name (suffix : List Char) (s : Snapshot) : Name :=
  s.source.fileName?.getD [] ++ BackupPolicy.versioned.tail suffix s.content

lemma isEntryName_name (hsuffix : '/' ∉ suffix) (s : Snapshot) : Path.IsEntryName (s.name suffix) := by
  have htail := BackupPolicy.isSuffix_tail_versioned hsuffix s.content
  rw [name]
  cases hname : s.source.fileName? with
  | some n => exact (Path.isEntryName_of_fileName? hname).append htail
  | none =>
    have hlength : 2 < (BackupPolicy.versioned.tail suffix s.content).length := by
      have hversion := s.length_version
      rw [version] at hversion
      rw [BackupPolicy.tail, List.length_append, List.length_cons, hversion]
      omega
    rw [Option.getD_none, List.nil_append]
    refine ⟨htail.ne_nil, htail.slash_notMem, ?_, ?_⟩
    all_goals
      intro h
      simp [h] at hlength

lemma fileName?_path (hsuffix : '/' ∉ suffix) (s : Snapshot) :
    (s.path suffix).fileName? = some (s.name suffix) :=
  Path.fileName?_withFileName (isEntryName_name hsuffix s) s.source

lemma getLast?_pieces_path (hsuffix : '/' ∉ suffix) (s : Snapshot) :
    (s.path suffix).pieces.getLast? = some (s.name suffix) :=
  Path.getLast?_pieces_withFileName (isEntryName_name hsuffix s) s.source

/-- Paths of backups that denote the same components lead to the same place. -/
lemma find_eq_of_same (hsuffix : '/' ∉ suffix) (h : (s.path suffix).same (t.path suffix))
    (hs : (s.path suffix).IsShort) (ht : (t.path suffix).IsShort) :
    fs.find (s.path suffix) = fs.find (t.path suffix) :=
  FileSystem.find_eq_of_same h (getLast?_pieces_path hsuffix s) (getLast?_pieces_path hsuffix t)
    (isEntryName_name hsuffix s) (isEntryName_name hsuffix t) hs ht

/-- The name of a backup tells the name of the file, and the digits. -/
lemma name_eq_iff : s.name suffix = t.name suffix ↔
    s.source.fileName? = t.source.fileName? ∧ s.version = t.version := by
  have hversion (s : Snapshot) : s.name suffix =
      s.source.fileName?.getD [] ++ suffix ++ '.' :: s.version := (List.append_assoc ..).symm
  have hname (p : Path) : p.fileName? = if p.fileName?.getD [] = [] then none
      else some (p.fileName?.getD []) := by
    cases h : p.fileName? with
    | none => rfl
    | some n => simp [(Path.isEntryName_of_fileName? h).ne_nil]
  constructor
  · intro h
    rw [hversion, hversion] at h
    obtain ⟨hstart, hversion⟩ := List.append_inj' h (by simp)
    rw [hname s.source, hname t.source, List.append_cancel_right hstart]
    exact ⟨rfl, (List.cons.inj hversion).2⟩
  · rintro ⟨hname, hdigits⟩
    rw [hversion, hversion, hname, hdigits]

end Snapshot

/-! ### One snapshot after the other -/

/-- What the store and the files are like while snapshots are kept: what the store knows to be there
is there, and what is new is one of the snapshots. -/
structure KeepsSnapshots (fs : FileSystem) (suffix : List Char) (snapshots : List Snapshot)
    (g : Guarded) : Prop where
  written : FileSystem.Written fs g.fs
  extends_fs : FileSystem.Extends fs g.fs
  path_eq : g.store.path = fun source content => versionedBackupPath source suffix content
  knowsPresent : g.store.KnowsPresent
  remembers : ∀ q, g.store.lookup q = some true →
    ∃ s ∈ snapshots, q.same (s.path suffix) ∧ g.fs.exists? (s.path suffix) = true
  new : ∀ l, fs.nodeAt l = none → g.fs.nodeAt l ≠ none →
    ∃ s ∈ snapshots, ∃ executable, g.fs.find (s.path suffix) = .ok (l, .file s.content executable)

namespace KeepsSnapshots

lemma start (fs : FileSystem) (suffix : List Char) (snapshots : List Snapshot) :
    KeepsSnapshots fs suffix snapshots ⟨fs, { suffix, policy := .versioned }⟩ where
  written := .refl
  extends_fs := .refl fs
  path_eq := rfl
  knowsPresent := by simp [BackupStore.KnowsPresent, BackupStore.lookup]
  remembers := by simp [BackupStore.lookup]
  new l hfree hnew := absurd hfree hnew

lemma path_apply (h : KeepsSnapshots fs suffix snapshots g) (s : Snapshot) :
    g.store.path s.source s.content = s.path suffix := by
  rw [h.path_eq]
  rfl

/-- What the store holds to be there is there, if not under this path then under another one. -/
lemma exists_of_holds (h : KeepsSnapshots fs suffix snapshots g) (hs : s ∈ snapshots)
    (hholds : g.holds .plain (s.path suffix) = true) : ∃ t ∈ snapshots,
      (s.path suffix).same (t.path suffix) ∧ g.fs.exists? (t.path suffix) = true := by
  rw [Guarded.holds] at hholds
  cases hlookup : g.store.lookup (s.path suffix) with
  | none =>
    rw [hlookup] at hholds
    exact ⟨s, hs, decide_eq_true rfl, hholds⟩
  | some present =>
    rw [hlookup] at hholds
    obtain rfl : present = true := hholds
    exact h.remembers _ hlookup

/-- After a snapshot was kept, it is there, if not under its own path then under another one. -/
lemma exists_of_keeping (h : KeepsSnapshots fs suffix snapshots g) (hfs : fs.IsTree)
    (hs : s ∈ snapshots) (hkeeping : Keeping .plain s.source s.content g (.ok outcome) g') :
    ∃ t ∈ snapshots, (s.path suffix).same (t.path suffix) ∧
      g'.fs.exists? (t.path suffix) = true := by
  have hpath : g.store.path s.source s.content = s.path suffix := h.path_apply s
  rcases hkeeping.fs_cases (h.written.isTree hfs) h.knowsPresent.exists?_eq_false with
    ⟨hkept, hcreated⟩ | ⟨-, l, executable, -, -, hfind⟩
  · have hholds := hkeeping.holds_of_created_eq_false (hcreated outcome rfl)
    rw [hpath] at hholds
    rw [hkept]
    exact h.exists_of_holds hs hholds
  · rw [hpath] at hfind
    exact ⟨s, hs, decide_eq_true rfl, FileSystem.exists?_eq_true_iff.mpr ⟨_, _, hfind⟩⟩

/-- Keeping one more snapshot leaves everything where it is, and then there is a backup at its path,
unless the path is too long. -/
theorem keeping (h : KeepsSnapshots fs suffix snapshots g) (hfs : fs.IsTree)
    (hsuffix : '/' ∉ suffix) (hs : s ∈ snapshots)
    (hkeeping : Keeping .plain s.source s.content g (.ok outcome) g') :
    KeepsSnapshots fs suffix snapshots g' ∧ FileSystem.Extends g.fs g'.fs ∧
      outcome.path = s.path suffix ∧
      ((s.path suffix).IsShort → g'.fs.exists? (s.path suffix) = true) := by
  have hpath : g.store.path s.source s.content = s.path suffix := h.path_apply s
  have houtcome : outcome.path = s.path suffix := hkeeping.path_eq.trans hpath
  have htree := h.written.isTree hfs
  have hextends := hkeeping.extends_fs htree h.knowsPresent.exists?_eq_false
  obtain ⟨t, ht, hsame, hexists⟩ := h.exists_of_keeping hfs hs hkeeping
  refine ⟨⟨h.written.trans hkeeping.written, h.extends_fs.trans hextends,
    hkeeping.store_path.trans h.path_eq, hkeeping.knowsPresent h.knowsPresent, ?remembers, ?new⟩,
    hextends, houtcome, ?there⟩
  case remembers =>
    intro q hlookup
    rcases hkeeping.lookup_cases hlookup with hq | hlookup
    · rw [houtcome] at hq
      exact ⟨t, ht, Path.same_trans hq hsame, hexists⟩
    · obtain ⟨u, hu, hq, hthere⟩ := h.remembers q hlookup
      exact ⟨u, hu, hq, hextends.exists? hthere⟩
  case new =>
    intro l hfree hnew
    by_cases hold : g.fs.nodeAt l = none
    · obtain ⟨executable, hfind⟩ :=
        hkeeping.find_of_new htree h.knowsPresent.exists?_eq_false hold hnew
      rw [hpath] at hfind
      exact ⟨s, hs, executable, hfind⟩
    · obtain ⟨u, hu, executable, hfind⟩ := h.new l hfree hold
      exact ⟨u, hu, executable, hextends.find hfind⟩
  case there =>
    intro hshort
    rwa [FileSystem.exists?, Snapshot.find_eq_of_same hsuffix hsame hshort
      (FileSystem.isShort_of_exists? hexists)]

/-- After several snapshots were kept, there is a backup at the path of each of them. -/
theorem keepAll (h : KeepsSnapshots fs suffix snapshots g) (hfs : fs.IsTree)
    (hsuffix : '/' ∉ suffix) (hmore : more ⊆ snapshots)
    (hrun : (more.mapM fun s => ensureBackup s.source s.content).run.run g = (.ok outcomes, g')) :
    KeepsSnapshots fs suffix snapshots g' ∧ FileSystem.Extends g.fs g'.fs ∧
      outcomes.map BackupOutcome.path = more.map (Snapshot.path suffix) ∧
      ∀ s ∈ more, (s.path suffix).IsShort → g'.fs.exists? (s.path suffix) = true := by
  induction more generalizing g outcomes with
  | nil =>
    cases hrun
    exact ⟨h, .refl _, rfl, by simp⟩
  | cons s more ih =>
    obtain ⟨hs, hmore⟩ := List.cons_subset.mp hmore
    rw [List.mapM_cons] at hrun
    obtain ⟨outcome, g₁, hfirst, hrest⟩ := Attempt.exists_of_run_bind hrun
    obtain ⟨later, g₂, hlater, hpure⟩ := Attempt.exists_of_run_bind hrest
    cases hpure
    have hkeeping := keeping_ensureBackup s.source s.content g
    rw [hfirst] at hkeeping
    obtain ⟨h₁, hextends, hpath, hexists⟩ := h.keeping hfs hsuffix hs hkeeping
    obtain ⟨h', hextends', hpaths, hall⟩ := ih h₁ hmore hlater
    refine ⟨h', hextends.trans hextends', ?_, List.forall_mem_cons.mpr ⟨?_, hall⟩⟩
    · rw [List.map_cons, List.map_cons, hpath, hpaths]
    · intro hshort
      exact hextends'.exists? (hexists hshort)

/-- Where there was nothing before, the content of one of the snapshots is read, of a file of the same
name and with the same digits. -/
theorem exists_read (h : KeepsSnapshots fs suffix snapshots g) (hfs : fs.IsTree)
    (hlinks : fs.IsLinkFree []) (hsuffix : '/' ∉ suffix)
    (hfree : fs.exists? (s.path suffix) = false) (hexists : g.fs.exists? (s.path suffix) = true) :
    ∃ t ∈ snapshots, s.source.fileName? = t.source.fileName? ∧ s.version = t.version ∧
      g.fs.SamePlace (s.path suffix) (t.path suffix) ∧
      g.fs.read (s.path suffix) = .ok t.content := by
  obtain ⟨l, node, hfind⟩ := FileSystem.exists?_eq_true_iff.mp hexists
  have htree := h.written.isTree hfs
  have hnode : g.fs.nodeAt l = some node := htree.nodeAt_of_find hfind
  have hold : fs.nodeAt l = none :=
    (h.written.exists?_or_free hfs hfind).resolve_left (by simp [hfree])
  obtain ⟨t, ht, executable, hfind'⟩ := h.new l hold (by simp [hnode])
  have hnode' : g.fs.nodeAt l = some (.file t.content executable) := htree.nodeAt_of_find hfind'
  obtain rfl := Option.some.inj (hnode.symm.trans hnode')
  have hnames := FileSystem.fileName?_eq_of_find (h.written.isLinkFree hfs hlinks) hfind hfind'
    (by simp) (by simp)
  rw [s.fileName?_path hsuffix, t.fileName?_path hsuffix, Option.some_inj,
    Snapshot.name_eq_iff] at hnames
  exact ⟨t, ht, hnames.1, hnames.2, ⟨l, _, _, hfind, hfind'⟩,
    FileSystem.read_eq_ok_iff.mpr ⟨l, executable, hfind⟩⟩

end KeepsSnapshots

/-- The backups of snapshots under the versioned policy, whatever the files and the contents are and
however often they come, hold just the contents that they were reported for exactly if

- no path of a backup is too long to be followed,
- there was nothing at these paths before, not even a directory, and
- two contents of a file whose digests start with the same digits are the same. -/
theorem snapshots_of_ensureBackups (fs : FileSystem) (suffix : List Char)
    (snapshots : List Snapshot) (outcomes : List BackupOutcome) (g : Guarded) (hfs : fs.IsTree)
    (hlinks : fs.IsLinkFree []) (hsuffix : '/' ∉ suffix)
    (hfree : ∀ s ∈ snapshots, fs.isFile (s.path suffix) = false)
    (hrun : (snapshots.mapM fun s => ensureBackup s.source s.content).run.run
      ⟨fs, { suffix, policy := .versioned }⟩ = (.ok outcomes, g)) :
    List.Forall₂ (fun s outcome => g.fs.read outcome.path = .ok s.content) snapshots outcomes ↔
      (∀ s ∈ snapshots, (s.path suffix).IsShort ∧ fs.exists? (s.path suffix) = false) ∧
      ∀ s ∈ snapshots, ∀ t ∈ snapshots, s.source.fileName? = t.source.fileName? →
        s.version = t.version → g.fs.SamePlace (s.path suffix) (t.path suffix) →
        s.content = t.content := by
  obtain ⟨h, -, hpaths, hthere⟩ := (KeepsSnapshots.start fs suffix snapshots).keepAll hfs hsuffix
    (List.Subset.refl snapshots) hrun
  -- whatever was reported for a snapshot, it is the path that its digits give
  have hread : List.Forall₂ (fun s outcome => g.fs.read outcome.path = .ok s.content) snapshots
      outcomes ↔ ∀ s ∈ snapshots, g.fs.read (s.path suffix) = .ok s.content := by
    calc List.Forall₂ (fun s outcome => g.fs.read outcome.path = .ok s.content) snapshots outcomes
        ↔ List.Forall₂ (fun s p => g.fs.read p = .ok s.content) snapshots
          (outcomes.map BackupOutcome.path) := by rw [List.forall₂_map_right_iff]
      _ ↔ List.Forall₂ (fun s p => g.fs.read p = .ok s.content) snapshots
          (snapshots.map (Snapshot.path suffix)) := by rw [hpaths]
      _ ↔ ∀ s ∈ snapshots, g.fs.read (s.path suffix) = .ok s.content :=
        List.forall₂_map_right_iff.trans List.forall₂_same
  rw [hread]
  constructor
  · intro hkept
    constructor
    · intro s hs
      obtain ⟨l, executable, hfind⟩ := FileSystem.read_eq_ok_iff.mp (hkept s hs)
      have hnow := FileSystem.exists?_eq_true_iff.mpr ⟨l, _, hfind⟩
      exact ⟨FileSystem.isShort_of_exists? hnow,
        h.extends_fs.exists?_eq_false (hfree s hs) (hkept s hs)⟩
    · intro s hs t ht _ _ hplace
      exact hplace.content_eq (h.written.isTree hfs) (hkept s hs) (hkept t ht)
  · rintro ⟨hplaces, hdigits⟩ s hs
    obtain ⟨hshort, hbefore⟩ := hplaces s hs
    -- what is read there is some snapshot of a file of that name with the same digits
    obtain ⟨t, ht, hname, hversion, hplace, hread⟩ :=
      h.exists_read hfs hlinks hsuffix hbefore (hthere s hs hshort)
    rw [hread, hdigits s hs t ht hname hversion hplace]

/-! ### Snapshots of two files -/

namespace Versioned

/-- A directory with a table. -/
def tree : FileSystem :=
  ⟨.ofList [(["d".toList], .directory),
    (["d".toList, "x.c".toList], .file (bytesOf "static int t[4];\n") false)], []⟩

/-- Keeps snapshots with a store that knows of nothing yet. -/
def keep (snapshots : List Snapshot) : Except BackupError (List BackupOutcome) × Guarded :=
  (snapshots.mapM fun s => ensureBackup s.source s.content).run.run
    ⟨tree, { suffix := ".orig".toList, policy := .versioned }⟩

/-- Two snapshots of the table, the first one once more under another path, and one of a file that is
not there. -/
def session : List Snapshot :=
  [⟨.ofString "/d/x.c", bytesOf "one"⟩, ⟨.ofString "/d/x.c", bytesOf "two"⟩,
    ⟨.ofString "/d/.//x.c", bytesOf "one"⟩, ⟨.ofString "/d/y.c", bytesOf "one"⟩]

/-- Each snapshot has its backup, and the one that comes again has the same. -/
theorem snapshots_of_ensureBackups_four :
    tree.IsTree ∧ tree.IsLinkFree [] ∧ '/' ∉ ".orig".toList ∧
      (∀ s ∈ session, tree.isFile (s.path ".orig".toList) = false) ∧
      ∃ outcomes g, keep session = (.ok outcomes, g) ∧
        outcomes.map BackupOutcome.created = [true, true, false, true] ∧
        List.Forall₂ (fun s outcome => g.fs.read outcome.path = .ok s.content) session outcomes := by
  have htree : tree.IsTree := FileSystem.isTree_of_forall (by decide +kernel)
  have hlinks : tree.IsLinkFree [] := FileSystem.isLinkFree_of_forall (by decide +kernel) []
  have hsuffix : '/' ∉ ".orig".toList := by decide
  obtain ⟨hfree, hplaces, hversions, hcreated⟩ :
      (∀ s ∈ session, tree.isFile (s.path ".orig".toList) = false) ∧
      (∀ s ∈ session, (s.path ".orig".toList).IsShort ∧
        tree.exists? (s.path ".orig".toList) = false) ∧
      (∀ s ∈ session, ∀ t ∈ session, s.version = t.version → s.content = t.content) ∧
      (keep session).1.map (·.map BackupOutcome.created) = .ok [true, true, false, true] := by
    decide +kernel
  rcases hrun : keep session with ⟨e | outcomes, g⟩
  all_goals rw [hrun] at hcreated
  · simp [Except.map] at hcreated
  refine ⟨htree, hlinks, hsuffix, hfree, outcomes, g, rfl, Except.ok.inj hcreated, ?_⟩
  apply (snapshots_of_ensureBackups tree _ session outcomes g htree hlinks hsuffix hfree hrun).mpr
  refine ⟨hplaces, ?_⟩
  intro s hs t ht _ hversion _
  exact hversions s hs t ht hversion

/-- Two contents whose digests start with the same digits. -/
def colliding : List Snapshot :=
  [⟨.ofString "/d/x.c", bytesOf "static int t[11537];\n"⟩,
    ⟨.ofString "/d/x.c", bytesOf "static int t[40387];\n"⟩]

/-- The second of the two contents is reported as kept, and is kept nowhere. -/
theorem snapshot_lost :
    tree.IsTree ∧ tree.IsLinkFree [] ∧ '/' ∉ ".orig".toList ∧
      (∀ s ∈ colliding, tree.isFile (s.path ".orig".toList) = false) ∧
      (keep colliding).1 = .ok [⟨.ofString "/d/x.c.orig.9e27b71e", true⟩,
        ⟨.ofString "/d/x.c.orig.9e27b71e", false⟩] ∧
      (keep colliding).2.fs.read (.ofString "/d/x.c.orig.9e27b71e") =
        .ok (bytesOf "static int t[11537];\n") ∧
      bytesOf "static int t[11537];\n" ≠ bytesOf "static int t[40387];\n" :=
  ⟨FileSystem.isTree_of_forall (by decide +kernel),
    FileSystem.isLinkFree_of_forall (by decide +kernel) [], by decide +kernel⟩

end Versioned

end ConstPromotion
