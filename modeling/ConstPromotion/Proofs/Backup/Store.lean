import ConstPromotion.Backup.Store
import ConstPromotion.Proofs.Attempt
import ConstPromotion.Proofs.FileSystem.Disk
import ConstPromotion.Proofs.FileSystem.Writing

/-!
# What keeping a backup does

A store answers for a path from memory, and asks the files only if it knows nothing of the path
(`Guarded.holds`). Everything that an attempt to keep a backup can do on a disk follows from that
answer (`keeping_ensureBackupOn`): nothing is written unless the store holds that there is no backup
yet. So a backup never replaces anything while the store is right about what is missing
(`Keeping.fs_cases`).
-/

namespace ConstPromotion

variable {disk : Disk} {g g' : Guarded} {source backup p q : Path} {content : Bytes} {b : Bool}

/-! ### What the store knows -/

namespace BackupStore

variable {store : BackupStore}

@[simp] lemma path_remember : (store.remember p b).path = store.path := rfl

lemma lookup_remember :
    (store.remember p b).lookup q = if q.same p then some b else store.lookup q := by
  rw [lookup, remember, List.lookup_cons, Path.same]
  by_cases h : q.components = p.components
  · simp [h]
  · simp [h, beq_eq_false_iff_ne.mpr h, lookup]

end BackupStore

namespace Guarded

/-- What the store holds of a path, if need be after asking the files on a disk. -/
def holds (g : Guarded) (disk : Disk) (backup : Path) : Bool :=
  (g.store.lookup backup).getD (disk.exists? g.fs backup)

/-- The store after it was asked for a path on a disk. -/
def asked (g : Guarded) (disk : Disk) (backup : Path) : Guarded :=
  match g.store.lookup backup with
  | some _ => g
  | none => { g with store := g.store.remember backup (disk.exists? g.fs backup) }

@[simp] lemma fs_asked : (g.asked disk backup).fs = g.fs := by
  rw [asked]
  split <;> rfl

@[simp] lemma path_asked : (g.asked disk backup).store.path = g.store.path := by
  rw [asked]
  split <;> rfl

/-- Asking for a path settles what is known of it, in all its spellings. -/
lemma lookup_asked : (g.asked disk backup).store.lookup q =
    if q.same backup then some (g.holds disk backup) else g.store.lookup q := by
  rw [asked, holds]
  cases h : g.store.lookup backup with
  | none => exact BackupStore.lookup_remember
  | some known =>
    split_ifs with hsame
    · rw [BackupStore.lookup, of_decide_eq_true hsame]
      exact h
    · rfl

end Guarded

lemma run_backupExistsOn {ε : Type} :
    (backupExistsOn disk backup : Attempt Guarded ε Bool).run.run g =
      (.ok (g.holds disk backup), g.asked disk backup) := by
  rw [backupExistsOn, Attempt.run_bind, Attempt.run_get, Guarded.holds, Guarded.asked]
  cases h : g.store.lookup backup with
  | none => simp only [h, Attempt.run_bind, Attempt.run_set, Attempt.run_pure, Option.getD_none]
  | some known => simp only [h, Attempt.run_pure, Option.getD_some]

/-- The store knows of nothing that is missing. This holds as long as no backup failed. -/
def BackupStore.KnowsPresent (store : BackupStore) : Prop := ∀ q, store.lookup q ≠ some false

/-- A store that knows of nothing missing is right about what it holds missing. -/
lemma BackupStore.KnowsPresent.exists?_eq_false (h : g.store.KnowsPresent)
    (hholds : g.holds disk p = false) : disk.exists? g.fs p = false := by
  rw [Guarded.holds] at hholds
  cases hlookup : g.store.lookup p with
  | none => rwa [hlookup] at hholds
  | some present =>
    rw [hlookup, Option.getD_some] at hholds
    exact absurd (hholds ▸ hlookup) (h p)

/-! ### Keeping a backup -/

/-- All that an attempt to keep the backup of a file on a disk can do. -/
inductive Keeping (disk : Disk) (source : Path) (content : Bytes) (g : Guarded) :
    Except BackupError BackupOutcome → Guarded → Prop where
  /-- The backup would be the file itself. -/
  | refused (hsame : (g.store.path source content).same source = true) :
    Keeping disk source content g (.error (.sameAsSource (g.store.path source content))) g
  /-- There is a backup already. -/
  | kept (hsame : (g.store.path source content).same source = false)
    (hholds : g.holds disk (g.store.path source content) = true) :
    Keeping disk source content g (.ok ⟨g.store.path source content, false⟩)
      (g.asked disk (g.store.path source content))
  /-- The backup cannot be written. -/
  | failed (e : OsError) (hholds : g.holds disk (g.store.path source content) = false)
    (hwrite : disk.write g.fs (g.store.path source content) content = .error e) :
    Keeping disk source content g (.error (.write (g.store.path source content) e))
      (g.asked disk (g.store.path source content))
  /-- The backup is written, and the store remembers it. -/
  | made (fs' : FileSystem) (hsame : (g.store.path source content).same source = false)
    (hholds : g.holds disk (g.store.path source content) = false)
    (hfollows : disk.pathError? (g.store.path source content) = none)
    (hwrite : g.fs.write (g.store.path source content) content = .ok fs') :
    Keeping disk source content g (.ok ⟨g.store.path source content, true⟩)
      ⟨fs', (g.asked disk (g.store.path source content)).store.remember
        (g.store.path source content) true⟩

theorem keeping_ensureBackupOn (disk : Disk) (source : Path) (content : Bytes) (g : Guarded) :
    Keeping disk source content g ((ensureBackupOn disk source content).run.run g).1
      ((ensureBackupOn disk source content).run.run g).2 := by
  rw [ensureBackupOn, Attempt.run_bind, Attempt.run_get]
  by_cases hsame : (g.store.path source content).same source = true
  · simp only [hsame, if_true, Attempt.run_bind, Attempt.run_throw]
    exact .refused hsame
  rw [Bool.not_eq_true] at hsame
  simp only [hsame, Bool.false_eq_true, if_false, Attempt.run_bind, run_backupExistsOn]
  cases hholds : g.holds disk (g.store.path source content) with
  | true =>
    simp only [if_true, Attempt.run_pure]
    exact .kept hsame hholds
  | false =>
    simp only [Bool.false_eq_true, if_false, Attempt.run_bind, Attempt.run_pure,
      Attempt.run_wrapping, Attempt.run_change]
    cases hwrite : disk.write g.fs (g.store.path source content) content with
    | error e =>
      simp only [HasFiles.files, Guarded.fs_asked, hwrite, Except.mapError]
      exact .failed e hholds hwrite
    | ok fs' =>
      simp only [HasFiles.files, HasFiles.withFiles, Guarded.fs_asked, hwrite, Except.mapError,
        Attempt.run_modify]
      obtain ⟨hfollows, -, hwrite⟩ := Disk.write_eq_ok_iff.mp hwrite
      exact .made fs' hsame hholds hfollows hwrite

theorem keeping_ensureBackup (source : Path) (content : Bytes) (g : Guarded) :
    Keeping .plain source content g ((ensureBackup source content).run.run g).1
      ((ensureBackup source content).run.run g).2 :=
  keeping_ensureBackupOn .plain source content g

namespace Keeping

variable {result : Except BackupError BackupOutcome} {outcome : BackupOutcome}

lemma written (h : Keeping disk source content g result g') : FileSystem.Written g.fs g'.fs := by
  cases h with
  | refused => exact .refl
  | kept =>
    rw [Guarded.fs_asked]
    exact .refl
  | failed =>
    rw [Guarded.fs_asked]
    exact .refl
  | made fs' _ _ _ hwrite => exact .write .refl hwrite

/-- Where backups belong does not change. -/
lemma store_path (h : Keeping disk source content g result g') : g'.store.path = g.store.path := by
  cases h <;> simp

lemma path_eq (h : Keeping disk source content g (.ok outcome) g') :
    outcome.path = g.store.path source content := by
  cases h <;> rfl

/-- A backup that is not reported as made is one that the store held to be there. -/
lemma holds_of_created_eq_false (h : Keeping disk source content g (.ok outcome) g')
    (hcreated : outcome.created = false) : g.holds disk (g.store.path source content) = true := by
  cases h with
  | kept _ hholds => exact hholds
  | made => simp at hcreated

/-- A backup that is reported as made is made at a free location, if what the store holds missing is
missing. Otherwise the files stay as they are. -/
theorem fs_cases (h : Keeping disk source content g result g') (hfs : g.fs.IsTree)
    (hstore : g.holds disk (g.store.path source content) = false →
      disk.exists? g.fs (g.store.path source content) = false) :
    (g'.fs = g.fs ∧ ∀ outcome, result = .ok outcome → outcome.created = false) ∨
      result = .ok ⟨g.store.path source content, true⟩ ∧ ∃ l executable, g.fs.nodeAt l = none ∧
        g'.fs = g.fs.put l (.file content executable) ∧
        g'.fs.find (g.store.path source content) = .ok (l, .file content executable) := by
  cases h with
  | refused => exact .inl ⟨rfl, by simp⟩
  | kept => exact .inl ⟨Guarded.fs_asked, by simp⟩
  | failed => exact .inl ⟨Guarded.fs_asked, by simp⟩
  | made fs' _ hholds hfollows hwrite =>
    obtain ⟨l, executable, hput, -, hplace, hfind⟩ := FileSystem.exists_put_of_write hfs hwrite
    have hmissing := hstore hholds
    rw [Disk.exists?_eq hfollows] at hmissing
    have hfree := FileSystem.nodeAt_eq_none_of_exists? hmissing hplace
    exact .inr ⟨rfl, l, executable, hfree, hput, hfind⟩

/-- What was there is where it was, if what the store holds missing is missing. -/
theorem extends_fs (h : Keeping disk source content g result g') (hfs : g.fs.IsTree)
    (hstore : g.holds disk (g.store.path source content) = false →
      disk.exists? g.fs (g.store.path source content) = false) : FileSystem.Extends g.fs g'.fs := by
  rcases h.fs_cases hfs hstore with ⟨hsame, -⟩ | ⟨-, l, executable, hfree, hput, -⟩
  · rw [hsame]
    exact .refl g.fs
  · rw [hput]
    exact .put hfree _

/-- What is new is the backup. -/
theorem find_of_new (h : Keeping disk source content g result g') (hfs : g.fs.IsTree)
    (hstore : g.holds disk (g.store.path source content) = false →
      disk.exists? g.fs (g.store.path source content) = false) {l : Location}
    (hl : g.fs.nodeAt l = none) (hnew : g'.fs.nodeAt l ≠ none) :
    ∃ executable, g'.fs.find (g.store.path source content) = .ok (l, .file content executable) := by
  rcases h.fs_cases hfs hstore with ⟨hsame, -⟩ | ⟨-, k, executable, hfree, hput, hfind⟩
  · rw [hsame] at hnew
    exact absurd hl hnew
  · have htakes : g.fs.TakesFile k := .inl hfree
    obtain rfl : k = l := by
      by_contra hne
      exact hnew (by rw [hput, FileSystem.nodeAt_put_of_ne htakes.ne_nil hne, hl])
    exact ⟨executable, hfind⟩

lemma knowsPresent (h : Keeping disk source content g (.ok outcome) g')
    (hstore : g.store.KnowsPresent) : g'.store.KnowsPresent := by
  have hasked (q : Path) (hq : ¬ q.same (g.store.path source content)) :
      (g.asked disk (g.store.path source content)).store.lookup q ≠ some false := by
    rw [Guarded.lookup_asked, if_neg hq]
    exact hstore q
  intro q
  by_cases hq : q.same (g.store.path source content) = true
  · cases h with
    | kept _ hholds =>
      rw [Guarded.lookup_asked, if_pos hq, hholds]
      simp
    | made =>
      rw [BackupStore.lookup_remember, if_pos hq]
      simp
  · cases h with
    | kept => exact hasked q hq
    | made =>
      rw [BackupStore.lookup_remember, if_neg hq]
      exact hasked q hq

/-- What the store knows to be there after a backup was kept, it knew before, or it is the backup. -/
lemma lookup_cases (h : Keeping disk source content g (.ok outcome) g')
    (hlookup : g'.store.lookup q = some true) :
    q.same outcome.path = true ∨ g.store.lookup q = some true := by
  by_cases hq : q.same outcome.path = true
  · exact .inl hq
  · refine .inr ?_
    cases h with
    | kept => rwa [Guarded.lookup_asked, if_neg hq] at hlookup
    | made => rwa [BackupStore.lookup_remember, if_neg hq, Guarded.lookup_asked, if_neg hq] at hlookup

end Keeping

end ConstPromotion
