import ConstPromotion.Patch.Files
import ConstPromotion.Proofs.Backup.Store
import ConstPromotion.Proofs.FileSystem.Writing

/-!
# What promoting files does

All that the promotion of a file on a disk can do is listed in `Patching`, and all that a pass over
files can do in `PatchingAll`. Facts about passes are proved by induction on these relations, so that
the programs are taken apart only here (`patching_patchFileOn`, `patchingAll_patchFilesOn`).
-/

namespace ConstPromotion

variable {disk : Disk} {options : PatchOptions} {dryRun : Bool} {path p : Path} {paths : List Path}
  {g g' g'' : Guarded}

/-- All that the promotion of a file on a disk can do. -/
inductive Patching (disk : Disk) (options : PatchOptions) (dryRun : Bool) (path : Path)
    (g : Guarded) : Except PatchError FileOutcome → Guarded → Prop where
  /-- There is no such file. -/
  | missing (hfile : disk.isFile g.fs path = false) :
    Patching disk options dryRun path g (.ok ⟨path, .skipped .missing, [], none⟩) g
  /-- The file cannot be read. -/
  | unread (e : OsError) (hfile : g.fs.isFile path = true)
    (hread : disk.read g.fs path = .error e) :
    Patching disk options dryRun path g (.error (.read path e)) g
  /-- The file has no declarations. -/
  | unchanged (content : Bytes) (hread : g.fs.read path = .ok content)
    (hnone : (patchBytes options content).declarations = []) :
    Patching disk options dryRun path g (.ok ⟨path, .unchanged, [], none⟩) g
  /-- The file would be changed. -/
  | dryRun (content : Bytes) (hread : g.fs.read path = .ok content)
    (hsome : (patchBytes options content).declarations ≠ []) (hdry : dryRun = true) :
    Patching disk options dryRun path g
      (.ok ⟨path, .dryRun, (patchBytes options content).declarations, none⟩) g
  /-- There is no backup of the file. -/
  | unprotected (content : Bytes) (e : BackupError) (g' : Guarded)
    (hread : g.fs.read path = .ok content)
    (hsome : (patchBytes options content).declarations ≠ []) (hdry : dryRun = false)
    (hkeeping : Keeping disk path content g (.error e) g') :
    Patching disk options dryRun path g (.error (.backup e)) g'
  /-- There is a backup, and the file cannot be written. -/
  | unwritten (content : Bytes) (e : OsError) (backup : BackupOutcome) (g' : Guarded)
    (hread : g.fs.read path = .ok content)
    (hsome : (patchBytes options content).declarations ≠ []) (hdry : dryRun = false)
    (hkeeping : Keeping disk path content g (.ok backup) g')
    (hwrite : disk.write g'.fs path (patchBytes options content).content = .error e) :
    Patching disk options dryRun path g (.error (.write path e)) g'
  /-- There is a backup, and the file is changed. -/
  | patched (content : Bytes) (backup : BackupOutcome) (g' : Guarded) (fs' : FileSystem)
    (hread : g.fs.read path = .ok content)
    (hsome : (patchBytes options content).declarations ≠ []) (hdry : dryRun = false)
    (hkeeping : Keeping disk path content g (.ok backup) g')
    (hwrite : g'.fs.write path (patchBytes options content).content = .ok fs') :
    Patching disk options dryRun path g
      (.ok ⟨path, .patched, (patchBytes options content).declarations, some backup⟩)
      { g' with fs := fs' }

theorem patching_patchFileOn (disk : Disk) (options : PatchOptions) (dryRun : Bool) (path : Path)
    (g : Guarded) :
    Patching disk options dryRun path g ((patchFileOn disk options dryRun path).run.run g).1
      ((patchFileOn disk options dryRun path).run.run g).2 := by
  rw [patchFileOn, Attempt.run_bind, Attempt.run_query]
  cases hfile : disk.isFile g.fs path with
  | false =>
    simp only [Bool.not_false, if_true, Attempt.run_pure]
    exact .missing hfile
  | true =>
    simp only [HasFiles.files, Bool.not_true, Bool.false_eq_true, if_false, Attempt.run_bind,
      Attempt.run_wrapping, Attempt.run_inspect]
    cases hdisk : disk.read g.fs path with
    | error e => exact .unread e (Disk.isFile_eq_true_iff.mp hfile).2 hdisk
    | ok content =>
      have hread := Disk.read_of_ok hdisk
      simp only [Except.mapError]
      by_cases hnone : (patchBytes options content).declarations = []
      · simp only [hnone, if_true, Attempt.run_pure]
        exact .unchanged content hread hnone
      simp only [hnone, if_false]
      cases dryRun with
      | true =>
        simp only [if_true, Attempt.run_pure]
        exact .dryRun content hread hnone rfl
      | false =>
        have hkeeping := keeping_ensureBackupOn disk path content g
        simp only [Bool.false_eq_true, if_false, Attempt.run_bind, Attempt.run_pure,
          Attempt.run_wrapping]
        rcases hensure : (ensureBackupOn disk path content).run.run g with ⟨e | backup, g'⟩
        · rw [hensure] at hkeeping
          exact .unprotected content e g' hread hnone rfl hkeeping
        · rw [hensure] at hkeeping
          simp only [Except.mapError, Attempt.run_change, HasFiles.files, HasFiles.withFiles]
          cases hwrite : disk.write g'.fs path (patchBytes options content).content with
          | error e => exact .unwritten content e backup g' hread hnone rfl hkeeping hwrite
          | ok fs' =>
            exact .patched content backup g' fs' hread hnone rfl hkeeping
              (Disk.write_of_ok hwrite)

theorem patching_patchFile (options : PatchOptions) (dryRun : Bool) (path : Path) (g : Guarded) :
    Patching .plain options dryRun path g ((patchFile options dryRun path).run.run g).1
      ((patchFile options dryRun path).run.run g).2 :=
  patching_patchFileOn .plain options dryRun path g

/-- On the plain disk, a file that is there can be read. -/
lemma not_unread {e : OsError} (hfile : g.fs.isFile path = true) :
    Disk.plain.read g.fs path ≠ .error e := by
  obtain ⟨content, hread⟩ := FileSystem.exists_read_of_isFile hfile
  intro h
  exact absurd (hread.symm.trans h) (by simp)

/-! ### One file -/

/-- A promotion went as far as writing the file, whether or not the disk let it. -/
def TriedToWrite : Except PatchError FileOutcome → Prop
  | .ok f => f.status = .patched
  | .error (.write _ _) => True
  | .error _ => False

/-- Overwriting a file of which a backup is kept changes the location that it was read at. -/
lemma exists_put_of_keeping {content new : Bytes} {backup : BackupOutcome} {fs' : FileSystem}
    (hfs : g.fs.IsTree) (hread : g.fs.read path = .ok content)
    (hkeeping : Keeping disk path content g (.ok backup) g') (hwrite : g'.fs.write path new = .ok fs') :
    ∃ l executable executable', g.fs.find path = .ok (l, .file content executable) ∧
      g'.fs.TakesFile l ∧ g'.fs.nodeAt l ≠ none ∧ fs' = g'.fs.put l (.file new executable') := by
  have hfs' := hkeeping.written.isTree hfs
  obtain ⟨l, executable, hfind⟩ := FileSystem.read_eq_ok_iff.mp hread
  obtain ⟨node, hfind', -⟩ := (hkeeping.written.grows hfs).find hfind
  obtain ⟨l', executable', rfl, htakes, hplace, -⟩ := FileSystem.exists_put_of_write hfs' hwrite
  obtain rfl := FileSystem.location_eq_of_find hfind' hplace
  have hnode := hfs'.nodeAt_of_find hfind'
  exact ⟨l, executable, executable', hfind, htakes, by simp [hnode], rfl⟩

namespace Patching

variable {result : Except PatchError FileOutcome} {f : FileOutcome} {k : Location}

lemma path_eq (h : Patching disk options dryRun path g (.ok f) g') : f.path = path := by
  cases h <;> rfl

lemma written (h : Patching disk options dryRun path g result g') :
    FileSystem.Written g.fs g'.fs := by
  cases h with
  | missing | unread | unchanged | dryRun => exact .refl
  | unprotected _ _ _ _ _ _ hkeeping => exact hkeeping.written
  | unwritten _ _ _ _ _ _ _ hkeeping => exact hkeeping.written
  | patched _ _ g' fs' _ _ _ hkeeping hwrite => exact .write hkeeping.written hwrite

/-- A dry run changes nothing. -/
lemma eq_of_dryRun (h : Patching disk options true path g result g') : g' = g := by
  cases h <;> first | rfl | contradiction

/-- Only a dry run leaves undone what it reports. -/
lemma status_ne_dryRun (h : Patching disk options false path g (.ok f) g') : f.status ≠ .dryRun := by
  cases h <;> simp_all

/-- Where backups belong does not change. -/
lemma store_path (h : Patching disk options dryRun path g result g') :
    g'.store.path = g.store.path := by
  cases h with
  | missing | unread | unchanged | dryRun => rfl
  | unprotected _ _ _ _ _ _ hkeeping => exact hkeeping.store_path
  | unwritten _ _ _ _ _ _ _ hkeeping => exact hkeeping.store_path
  | patched _ _ _ _ _ _ _ hkeeping => exact hkeeping.store_path

/-- By the time that it is tried to write the file, a backup is kept of it. -/
lemma exists_keeping (h : Patching disk options dryRun path g result g')
    (htried : TriedToWrite result) :
    ∃ content backup g₁, g.fs.read path = .ok content ∧
      Keeping disk path content g (.ok backup) g₁ ∧ FileSystem.Written g₁.fs g'.fs ∧
      ∀ f, result = .ok f → f.backup = some backup := by
  cases h with
  | missing | unchanged | dryRun => cases htried
  | unread | unprotected => exact htried.elim
  | unwritten content e backup g' hread _ _ hkeeping =>
    exact ⟨content, backup, g', hread, hkeeping, .refl, by simp⟩
  | patched content backup g₁ fs' hread _ _ hkeeping hwrite =>
    exact ⟨content, backup, g₁, hread, hkeeping, .write .refl hwrite, by simp⟩

section Backup

/-! What the store holds missing is missing, for the backups of the file. -/

variable (h : Patching disk options dryRun path g result g') (hfs : g.fs.IsTree)
  (hstore : ∀ content, g.fs.read path = .ok content →
    g.holds disk (g.store.path path content) = false →
    disk.exists? g.fs (g.store.path path content) = false)

include h hfs hstore

/-- What the promotion of a file does to the files: a backup of the content may be made at a free
location, and then the file itself may be changed. -/
theorem fs_cases :
    ∃ fs₁, (fs₁ = g.fs ∨ ∃ content l executable, g.fs.read path = .ok content ∧
        g.fs.nodeAt l = none ∧ fs₁ = g.fs.put l (.file content executable) ∧
        fs₁.find (g.store.path path content) = .ok (l, .file content executable)) ∧
      (g'.fs = fs₁ ∨ ∃ l old new executable executable',
        g.fs.find path = .ok (l, .file old executable) ∧
        g.fs.nodeAt l = some (.file old executable) ∧
        g'.fs = fs₁.put l (.file new executable')) := by
  have hkept {content : Bytes} {kept : Except BackupError BackupOutcome} {g₁ : Guarded}
      (hread : g.fs.read path = .ok content) (hkeeping : Keeping disk path content g kept g₁) :
      g₁.fs = g.fs ∨ ∃ content l executable, g.fs.read path = .ok content ∧
        g.fs.nodeAt l = none ∧ g₁.fs = g.fs.put l (.file content executable) ∧
        g₁.fs.find (g.store.path path content) = .ok (l, .file content executable) := by
    rcases hkeeping.fs_cases hfs (hstore content hread) with ⟨hsame, -⟩ | ⟨-, l, executable, hmade⟩
    · exact .inl hsame
    · exact .inr ⟨content, l, executable, hread, hmade⟩
  cases h with
  | missing | unread | unchanged | dryRun => exact ⟨g.fs, .inl rfl, .inl rfl⟩
  | unprotected content e _ hread _ _ hkeeping =>
    exact ⟨g'.fs, hkept hread hkeeping, .inl rfl⟩
  | unwritten content e backup _ hread _ _ hkeeping _ =>
    exact ⟨g'.fs, hkept hread hkeeping, .inl rfl⟩
  | patched content backup g₁ fs' hread _ _ hkeeping hwrite =>
    obtain ⟨l, executable, executable', hfind, -, -, hput⟩ :=
      exists_put_of_keeping hfs hread hkeeping hwrite
    have hnode := hfs.nodeAt_of_find hfind
    exact ⟨g₁.fs, hkept hread hkeeping,
      .inr ⟨l, _, _, executable, executable', hfind, hnode, hput⟩⟩

/-- What is there stays as it is, unless it is the file itself. -/
theorem nodeAt_eq (hk : g.fs.nodeAt k ≠ none) (hother : ∀ node, g.fs.find path ≠ .ok (k, node)) :
    g'.fs.nodeAt k = g.fs.nodeAt k := by
  obtain ⟨fs₁, hkept, hchanged⟩ := h.fs_cases hfs hstore
  have hkeptAt : fs₁.nodeAt k = g.fs.nodeAt k := by
    rcases hkept with rfl | ⟨content, l, executable, -, hfree, rfl, -⟩
    · rfl
    · have htakes : g.fs.TakesFile l := .inl hfree
      refine FileSystem.nodeAt_put_of_ne htakes.ne_nil ?_ _ _
      rintro rfl
      exact hk hfree
  rw [← hkeptAt]
  rcases hchanged with hsame | ⟨l, old, new, executable, executable', hfind, hnode, hput⟩
  · rw [hsame]
  · have htakes : g.fs.TakesFile l := .inr ⟨old, executable, hnode⟩
    rw [hput]
    refine FileSystem.nodeAt_put_of_ne htakes.ne_nil ?_ _ _
    rintro rfl
    exact hother _ hfind

/-- What is new is a backup of the content that the file had. -/
theorem find_of_new (hk : g.fs.nodeAt k = none) (hnew : g'.fs.nodeAt k ≠ none) :
    ∃ content executable, g.fs.read path = .ok content ∧
      g'.fs.find (g.store.path path content) = .ok (k, .file content executable) := by
  have htree := h.written.isTree hfs
  obtain ⟨fs₁, hkept, hchanged⟩ := h.fs_cases hfs hstore
  have hchangedAt : g'.fs.nodeAt k = fs₁.nodeAt k := by
    rcases hchanged with hsame | ⟨l, old, new, executable, executable', -, hnode, hput⟩
    · rw [hsame]
    · have htakes : g.fs.TakesFile l := .inr ⟨old, executable, hnode⟩
      rw [hput]
      refine FileSystem.nodeAt_put_of_ne htakes.ne_nil ?_ _ _
      rintro rfl
      simp [hk] at hnode
  rw [hchangedAt] at hnew
  rcases hkept with rfl | ⟨content, l, executable, hread, hfree, rfl, hfind⟩
  · exact absurd hk hnew
  have htakes : g.fs.TakesFile l := .inl hfree
  obtain rfl : l = k := by
    by_contra hne
    exact hnew (by rw [FileSystem.nodeAt_put_of_ne htakes.ne_nil hne, hk])
  refine ⟨content, executable, hread, ?_⟩
  rcases hchanged with hsame | ⟨l', old, new, executable₁, executable₂, -, hnode, hput⟩
  · rwa [hsame]
  -- overwriting the file does not move the backup
  have hother : l ≠ l' := by
    rintro rfl
    simp [hfree] at hnode
  have hnode' := FileSystem.nodeAt_put_of_ne htakes.ne_nil hother g.fs (.file content executable)
  have htakes' : (g.fs.put l (.file content executable)).TakesFile l' :=
    .inr ⟨old, executable₁, hnode'.trans hnode⟩
  have hgrows := htakes'.grows new executable₂
  rw [← hput] at hgrows
  refine hgrows.find_of_nodeAt htree hfind ?_
  rw [hchangedAt, FileSystem.nodeAt_put_self htakes.ne_nil]

/-- If anything is new, it was tried to write the file. -/
theorem triedToWrite_of_new (hk : g.fs.nodeAt k = none) (hnew : g'.fs.nodeAt k ≠ none) :
    TriedToWrite result := by
  cases h with
  | missing | unread | unchanged | dryRun => exact absurd hk hnew
  | unprotected content e _ hread _ _ hkeeping =>
    rcases hkeeping.fs_cases hfs (hstore content hread) with ⟨hsame, -⟩ | ⟨hmade, -⟩
    · rw [hsame] at hnew
      exact absurd hk hnew
    · simp at hmade
  | unwritten => exact trivial
  | patched => exact rfl

/-- Where it was tried to write the file, there is a backup that the store held to be there, or one
that was made now and holds the content that the file had. -/
theorem exists_backup (htried : TriedToWrite result) :
    ∃ content backup, g.fs.read path = .ok content ∧
      backup.path = g.store.path path content ∧ (∀ f, result = .ok f → f.backup = some backup) ∧
      (backup.created = false → g.holds disk backup.path = true) ∧
      (backup.created = true → ∃ l executable, g.fs.nodeAt l = none ∧
        g'.fs.find backup.path = .ok (l, .file content executable)) := by
  have htree := h.written.isTree hfs
  obtain ⟨content, backup, g₁, hread, hkeeping, hwritten, hbackup⟩ := h.exists_keeping htried
  refine ⟨content, backup, hread, hkeeping.path_eq, hbackup, fun hcreated => ?_, fun hcreated => ?_⟩
  · rw [hkeeping.path_eq]
    exact hkeeping.holds_of_created_eq_false hcreated
  rcases hkeeping.fs_cases hfs (hstore content hread) with
    ⟨-, hkept⟩ | ⟨hmade, l, executable, hfree, -, hfind⟩
  · simp [hkept _ rfl] at hcreated
  · obtain rfl := Except.ok.inj hmade
    -- writing the file does not move the backup, and what is new is no other content
    obtain ⟨node, hfind', -⟩ := (hwritten.grows (hkeeping.written.isTree hfs)).find hfind
    obtain ⟨content', executable', hread', hfound⟩ :=
      h.find_of_new hfs hstore hfree (by simp [htree.nodeAt_of_find hfind'])
    obtain rfl : content' = content := by simpa [hread] using hread'.symm
    exact ⟨l, executable', hfree, hfound⟩

/-- A backup that is reported as made holds the content that the file had. -/
theorem read_backup (hresult : result = .ok f) {backup : BackupOutcome}
    (hbackup : f.backup = some backup) (hcreated : backup.created = true) :
    ∃ content l executable, g.fs.read path = .ok content ∧
      backup.path = g.store.path path content ∧ g.fs.nodeAt l = none ∧
      g'.fs.find backup.path = .ok (l, .file content executable) := by
  subst hresult
  have htried : TriedToWrite (.ok f) := by
    cases h with
    | missing | unchanged | dryRun => simp at hbackup
    | patched => exact rfl
  obtain ⟨content, backup', hread, hpath, hsome, -, hmade⟩ := h.exists_backup hfs hstore htried
  obtain rfl := Option.some.inj (hbackup.symm.trans (hsome f rfl))
  obtain ⟨l, executable, hfree, hfind⟩ := hmade hcreated
  exact ⟨content, l, executable, hread, hpath, hfree, hfind⟩

end Backup

lemma knowsPresent (h : Patching disk options dryRun path g (.ok f) g')
    (hstore : g.store.KnowsPresent) : g'.store.KnowsPresent := by
  cases h with
  | missing | unchanged | dryRun => exact hstore
  | patched _ _ _ _ _ _ _ hkeeping => exact hkeeping.knowsPresent hstore

end Patching

/-! ### Several files -/

/-- All that a pass over files can do. It goes on to the end of the list or to the first error. -/
inductive PatchingAll (disk : Disk) (options : PatchOptions) (dryRun : Bool) :
    List Path → Guarded → Except PatchError (List FileOutcome) → Guarded → Prop where
  | nil (g : Guarded) : PatchingAll disk options dryRun [] g (.ok []) g
  | cons {path : Path} {paths : List Path} {g g' g'' : Guarded} {f : FileOutcome}
    {result : Except PatchError (List FileOutcome)}
    (hfirst : Patching disk options dryRun path g (.ok f) g')
    (hlater : PatchingAll disk options dryRun paths g' result g'') :
    PatchingAll disk options dryRun (path :: paths) g (result.map (f :: ·)) g''
  | stop {path : Path} {g g' : Guarded} {e : PatchError} (paths : List Path)
    (hfirst : Patching disk options dryRun path g (.error e) g') :
    PatchingAll disk options dryRun (path :: paths) g (.error e) g'

theorem patchingAll_patchFilesOn (disk : Disk) (options : PatchOptions) (dryRun : Bool)
    (paths : List Path) (g : Guarded) :
    PatchingAll disk options dryRun paths g
      (((patchFilesOn disk options dryRun paths).run.run g).1.map PatchReport.files)
      ((patchFilesOn disk options dryRun paths).run.run g).2 := by
  have hmapM (g : Guarded) : PatchingAll disk options dryRun paths g
      ((paths.mapM (patchFileOn disk options dryRun)).run.run g).1
      ((paths.mapM (patchFileOn disk options dryRun)).run.run g).2 := by
    induction paths generalizing g with
    | nil => exact .nil g
    | cons path paths ih =>
      have hfirst := patching_patchFileOn disk options dryRun path g
      rw [List.mapM_cons, Attempt.run_bind]
      rcases hpatch : (patchFileOn disk options dryRun path).run.run g with ⟨result, g'⟩
      rw [hpatch] at hfirst
      cases result with
      | error e => exact .stop paths hfirst
      | ok f =>
        have hlater := PatchingAll.cons hfirst (ih g')
        simp only [Attempt.run_bind]
        rcases hrest : (paths.mapM (patchFileOn disk options dryRun)).run.run g' with ⟨result, g''⟩
        rw [hrest] at hlater
        cases result <;> exact hlater
  rw [patchFilesOn, Attempt.run_bind]
  have hall := hmapM g
  rcases hrun : (paths.mapM (patchFileOn disk options dryRun)).run.run g with ⟨result, g'⟩
  rw [hrun] at hall
  cases result <;> exact hall

theorem patchingAll_patchFiles (options : PatchOptions) (dryRun : Bool) (paths : List Path)
    (g : Guarded) :
    PatchingAll .plain options dryRun paths g
      (((patchFiles options dryRun paths).run.run g).1.map PatchReport.files)
      ((patchFiles options dryRun paths).run.run g).2 :=
  patchingAll_patchFilesOn .plain options dryRun paths g

namespace PatchingAll

variable {result : Except PatchError (List FileOutcome)} {k : Location}

/-- A pass that ends well promotes one file after the other. -/
@[elab_as_elim]
theorem ok_induction {files : List FileOutcome}
    {motive : ∀ {paths : List Path} {g g' : Guarded} {files : List FileOutcome},
      PatchingAll disk options dryRun paths g (.ok files) g' → Prop}
    (nil : ∀ g, motive (.nil g))
    (cons : ∀ {path paths g g₁ g' f files} (hfirst : Patching disk options dryRun path g (.ok f) g₁)
      (hlater : PatchingAll disk options dryRun paths g₁ (.ok files) g'),
      motive hlater → motive (.cons hfirst hlater))
    (h : PatchingAll disk options dryRun paths g (.ok files) g') : motive h := by
  -- the result is an index of the relation, so the induction is on any result that equals it
  have hmotive {result} (hall : PatchingAll disk options dryRun paths g result g') :
      ∀ files (h' : PatchingAll disk options dryRun paths g (.ok files) g'),
        result = .ok files → motive h' := by
    clear h
    induction hall with
    | nil g =>
      intro files _ hresult
      obtain rfl := Except.ok.inj hresult
      exact nil g
    | @cons path paths g g₁ g' f result hfirst hlater ih =>
      intro files _ hresult
      cases result with
      | error e => simp [Except.map] at hresult
      | ok later =>
        obtain rfl : f :: later = files := Except.ok.inj hresult
        exact cons hfirst hlater (ih later hlater rfl)
    | stop =>
      intro files _ hresult
      simp at hresult
  exact hmotive h files h rfl

lemma eq_of_dryRun (h : PatchingAll disk options true paths g result g') : g' = g := by
  induction h with
  | nil => rfl
  | cons hfirst _ ih => rw [ih, hfirst.eq_of_dryRun]
  | stop _ hfirst => exact hfirst.eq_of_dryRun

/-- A pass that ends well reports each of the files. -/
lemma forall₂_files {files : List FileOutcome}
    (h : PatchingAll disk options dryRun paths g (.ok files) g') :
    List.Forall₂ (fun path f => f.path = path ∧ (dryRun = false → f.status ≠ .dryRun)) paths
      files := by
  induction h using ok_induction with
  | nil => exact .nil
  | cons hfirst _ ih =>
    refine .cons ⟨hfirst.path_eq, fun hdry => ?_⟩ ih
    subst hdry
    exact hfirst.status_ne_dryRun

lemma written (h : PatchingAll disk options dryRun paths g result g') :
    FileSystem.Written g.fs g'.fs := by
  induction h with
  | nil => exact .refl
  | cons hfirst _ ih => exact hfirst.written.trans ih
  | stop _ hfirst => exact hfirst.written

/-- What is there stays as it is, unless one of the paths leads to it. -/
theorem nodeAt_eq (h : PatchingAll disk options dryRun paths g result g') (hfs : g.fs.IsTree)
    (hstore : g.store.KnowsPresent) (hk : g.fs.nodeAt k ≠ none)
    (hother : ∀ p ∈ paths, ∀ node, g'.fs.find p ≠ .ok (k, node)) :
    g'.fs.nodeAt k = g.fs.nodeAt k := by
  induction h with
  | nil => rfl
  | @cons path paths g g₁ g' f result hfirst hlater ih =>
    have hfs₁ := hfirst.written.isTree hfs
    have hkept : g₁.fs.nodeAt k = g.fs.nodeAt k := by
      refine hfirst.nodeAt_eq hfs (fun _ _ => hstore.exists?_eq_false) hk fun node hfind => ?_
      obtain ⟨node', hfind', -⟩ :=
        ((hfirst.written.trans hlater.written).grows hfs).find hfind
      exact hother path List.mem_cons_self node' hfind'
    rw [← hkept]
    exact ih hfs₁ (hfirst.knowsPresent hstore) (by rwa [hkept]) fun p hp =>
      hother p (List.mem_cons_of_mem _ hp)
  | @stop path g g' e paths hfirst =>
    refine hfirst.nodeAt_eq hfs (fun _ _ => hstore.exists?_eq_false) hk fun node hfind => ?_
    obtain ⟨node', hfind', -⟩ := (hfirst.written.grows hfs).find hfind
    exact hother path List.mem_cons_self node' hfind'

/-- What is new is the backup of one of the files. -/
theorem find_of_new (h : PatchingAll disk options dryRun paths g result g') (hfs : g.fs.IsTree)
    (hstore : g.store.KnowsPresent) (hk : g.fs.nodeAt k = none) (hnew : g'.fs.nodeAt k ≠ none) :
    ∃ p ∈ paths, ∃ content old executable,
      g'.fs.find (g.store.path p content) = .ok (k, .file old executable) := by
  induction h with
  | nil => exact absurd hk hnew
  | @cons path paths g g₁ g' f result hfirst hlater ih =>
    -- it is new in the rest of the pass, or the first file made it and the rest keeps it
    by_cases hk₁ : g₁.fs.nodeAt k = none
    · obtain ⟨p, hp, hfind⟩ :=
        ih (hfirst.written.isTree hfs) (hfirst.knowsPresent hstore) hk₁ hnew
      rw [hfirst.store_path] at hfind
      exact ⟨p, List.mem_cons_of_mem _ hp, hfind⟩
    · obtain ⟨content, executable, -, hfind⟩ :=
        hfirst.find_of_new hfs (fun _ _ => hstore.exists?_eq_false) hk hk₁
      have hgrows := hlater.written.grows (hfirst.written.isTree hfs)
      exact ⟨path, List.mem_cons_self, content, hgrows.find_file hfind⟩
  | @stop path g g' e paths hfirst =>
    obtain ⟨content, executable, -, hfind⟩ :=
      hfirst.find_of_new hfs (fun _ _ => hstore.exists?_eq_false) hk hnew
    exact ⟨path, List.mem_cons_self, content, content, executable, hfind⟩

/-- A backup that is reported as made is new. -/
theorem new_of_created {files : List FileOutcome} {f : FileOutcome} {backup : BackupOutcome}
    (h : PatchingAll disk options dryRun paths g (.ok files) g') (hfs : g.fs.IsTree)
    (hstore : g.store.KnowsPresent) (hf : f ∈ files) (hbackup : f.backup = some backup)
    (hcreated : backup.created = true) :
    ∃ k content executable, g.fs.nodeAt k = none ∧
      g'.fs.find backup.path = .ok (k, .file content executable) := by
  induction h using ok_induction with
  | nil => simp at hf
  | cons hfirst hlater ih =>
    have hfs₁ := hfirst.written.isTree hfs
    rcases List.mem_cons.mp hf with rfl | hf
    · obtain ⟨content, k, executable, -, -, hfree, hfind⟩ :=
        hfirst.read_backup hfs (fun _ _ => hstore.exists?_eq_false) rfl hbackup hcreated
      obtain ⟨content', executable', hfind'⟩ := (hlater.written.grows hfs₁).find_file hfind
      exact ⟨k, content', executable', hfree, hfind'⟩
    · obtain ⟨k, content, executable, hfree, hfind⟩ := ih hfs₁ (hfirst.knowsPresent hstore) hf
      exact ⟨k, content, executable, (hfirst.written.grows hfs).nodeAt_eq_none hfree, hfind⟩

end PatchingAll

end ConstPromotion
