import ConstPromotion.Proofs.Patch.Settled

/-!
# Dry runs

A dry run changes nothing, so it meets every file as it is at the start, while a run meets it after
the files before it were changed and their backups were made. What a run does to a file cannot be
read under a path to another place, unless that is where a backup was made (`Patching.readsAlike`).
So a dry run announces what a run does, file by file (`PatchingAll.announces`).
-/

namespace ConstPromotion

variable {disk : Disk} {options : PatchOptions} {dryRun : Bool} {path p : Path} {paths : List Path}
  {fs : FileSystem} {g g' d d' : Guarded} {f : FileOutcome} {files : List FileOutcome}
  {suffix : List Char} {policy : BackupPolicy} {report : PatchReport}

/-- The report `dry` of a dry run on a file agrees with the report `f` of a run: it says the same of
a file that stays as it is, and it announces the change of any other. -/
structure FileOutcome.Announces (dry f : FileOutcome) : Prop where
  path_eq : dry.path = f.path
  declarations_eq : dry.declarations = f.declarations
  status_eq_dryRun_iff : dry.status = .dryRun ↔ f.status = .patched
  status_eq : f.status ≠ .patched → dry.status = f.status
  backup_eq_none : dry.backup = none

namespace FileSystem

variable {fs' fs'' : FileSystem}

/-- A path leads to files of the same content in both file systems, or to no file in either. -/
def ReadsAlike (fs fs' : FileSystem) (p : Path) : Prop :=
  ∀ content, fs.read p = .ok content ↔ fs'.read p = .ok content

lemma ReadsAlike.refl (fs : FileSystem) (p : Path) : fs.ReadsAlike fs p := fun _ => Iff.rfl

lemma ReadsAlike.trans (h : fs.ReadsAlike fs' p) (h' : fs'.ReadsAlike fs'' p) :
    fs.ReadsAlike fs'' p := fun content => (h content).trans (h' content)

/-- A file that is written is read only under paths to its place. -/
lemma ReadsAlike.of_write {q : Path} {content : Bytes} (hfs : fs.IsTree)
    (hwrite : fs.write q content = .ok fs') (hother : ¬ fs'.SamePlace q p) :
    fs.ReadsAlike fs' p := by
  have htree := hfs.write hwrite
  have hgrows := Grows.write hfs hwrite
  obtain ⟨l, executable, rfl, htakes, -, hfind⟩ := exists_put_of_write hfs hwrite
  have hne {k : Location} {node : Node}
      (hp : (fs.put l (.file content executable)).find p = .ok (k, node)) : k ≠ l := by
    rintro rfl
    exact hother ⟨k, _, node, hfind, hp⟩
  intro read
  rw [read_eq_ok_iff, read_eq_ok_iff]
  constructor
  · rintro ⟨k, executable', hp⟩
    obtain ⟨later, hlater, -⟩ := hgrows.find hp
    refine ⟨k, executable', hgrows.find_of_nodeAt htree hp ?_⟩
    rw [nodeAt_put_of_ne htakes.ne_nil (hne hlater).symm, hfs.nodeAt_of_find hp]
  · rintro ⟨k, executable', hp⟩
    exact ⟨k, executable', find_of_put htakes.ne_nil (hne hp) hp⟩

end FileSystem

/-! ### One file -/

namespace Patching

/-- The promotion of a file is read only under paths to its place and to a backup that it made. -/
theorem readsAlike (h : Patching disk options dryRun path g (.ok f) g') (hfs : g.fs.IsTree)
    (hother : ¬ g'.fs.SamePlace path p)
    (hapart : ∀ backup ∈ f.backup, backup.created = true → ¬ g'.fs.SamePlace backup.path p) :
    g.fs.ReadsAlike g'.fs p := by
  cases h with
  | missing | unchanged | dryRun => exact .refl g.fs p
  | patched content backup g₁ fs' _ _ _ hkeeping hwrite =>
    have hfs₁ := hkeeping.written.isTree hfs
    have hkept : g.fs.ReadsAlike g₁.fs p := by
      cases hkeeping with
      | kept =>
        rw [Guarded.fs_asked]
        exact .refl g.fs p
      | made fs₁ _ _ _ hmade =>
        exact .of_write hfs hmade fun hplace =>
          hapart _ rfl rfl (hplace.mono (FileSystem.Grows.write hfs₁ hwrite))
    exact hkept.trans (.of_write hfs₁ hwrite hother)

/-- A dry run on a file announces what a run does that reads the same. -/
theorem announces (h : Patching .plain options false path g (.ok f) g')
    {result : Except PatchError FileOutcome} (hdry : Patching .plain options true path d result d')
    (hread : d.fs.ReadsAlike g.fs path) : ∃ dry, result = .ok dry ∧ dry.Announces f := by
  have hmissing (fs : FileSystem) (hfile : fs.isFile path = false) (content : Bytes) :
      fs.read path ≠ .ok content := by
    intro hcontent
    obtain ⟨l, executable, hfind⟩ := FileSystem.read_eq_ok_iff.mp hcontent
    rw [FileSystem.isFile_iff.mpr ⟨l, content, executable, hfind⟩] at hfile
    simp at hfile
  -- both read one content or none, and that settles which case the dry run is in
  cases h with
  | missing hfile =>
    cases hdry with
    | missing => exact ⟨_, rfl, rfl, rfl, by simp, fun _ => rfl, rfl⟩
    | unchanged content hcontent => exact absurd ((hread _).mp hcontent) (hmissing _ hfile _)
    | dryRun content hcontent => exact absurd ((hread _).mp hcontent) (hmissing _ hfile _)
    | unread _ hfile hunread => exact absurd hunread (not_unread hfile)
    | _ => contradiction
  | unchanged content hcontent hnone =>
    have hcontent' := (hread content).mpr hcontent
    cases hdry with
    | missing hfile => exact absurd hcontent' (hmissing _ hfile _)
    | unchanged => exact ⟨_, rfl, rfl, rfl, by simp, fun _ => rfl, rfl⟩
    | dryRun content' hread' hsome =>
      obtain rfl := Except.ok.inj (hcontent'.symm.trans hread')
      exact absurd hnone hsome
    | unread _ hfile hunread => exact absurd hunread (not_unread hfile)
    | _ => contradiction
  | dryRun => contradiction
  | patched content backup g₁ fs' hcontent hsome =>
    have hcontent' := (hread content).mpr hcontent
    cases hdry with
    | missing hfile => exact absurd hcontent' (hmissing _ hfile _)
    | unchanged content' hread' hnone =>
      obtain rfl := Except.ok.inj (hcontent'.symm.trans hread')
      exact absurd hnone hsome
    | dryRun content' hread' =>
      obtain rfl := Except.ok.inj (hcontent'.symm.trans hread')
      exact ⟨_, rfl, rfl, rfl, by simp, fun hstatus => absurd rfl hstatus, rfl⟩
    | unread _ hfile hunread => exact absurd hunread (not_unread hfile)
    | _ => contradiction

end Patching

/-! ### Several files -/

/-- A dry run announces a run that reads its files as they are for the dry run, if each of the files
is somewhere else and none of them is a backup that the run makes. -/
theorem PatchingAll.announces (h : PatchingAll .plain options false paths g (.ok files) g')
    {result : Except PatchError (List FileOutcome)}
    (hdry : PatchingAll .plain options true paths d result d') (hfs : g.fs.IsTree)
    (hlinks : g.fs.IsLinkFree []) (hplain : ∀ p ∈ paths, p.IsPlain)
    (hdistinct : paths.Pairwise fun p q => ¬ p.same q)
    (hapart : ∀ f ∈ files, ∀ backup ∈ f.backup, backup.created = true →
      ∀ p ∈ paths, ¬ g'.fs.SamePlace backup.path p)
    (hread : ∀ p ∈ paths, d.fs.ReadsAlike g.fs p) :
    ∃ dry, result = .ok dry ∧ List.Forall₂ FileOutcome.Announces dry files := by
  induction h using ok_induction generalizing d result with
  | nil =>
    cases hdry
    exact ⟨[], rfl, .nil⟩
  | @cons path paths g g₁ g' f files hfirst hlater ih =>
    obtain ⟨hpath, hplain⟩ := List.forall_mem_cons.mp hplain
    obtain ⟨hother, hdistinct⟩ := List.pairwise_cons.mp hdistinct
    obtain ⟨hreadFirst, hreadLater⟩ := List.forall_mem_cons.mp hread
    obtain ⟨hapartFirst, hapartLater⟩ := List.forall_mem_cons.mp hapart
    have hfs₁ := hfirst.written.isTree hfs
    have hgrows := hlater.written.grows hfs₁
    have hlinks₁ := hfirst.written.isLinkFree hfs hlinks
    -- the dry run stays at the start: what the first file changed is not read by the later ones
    have hread₁ (p : Path) (hp : p ∈ paths) : d.fs.ReadsAlike g₁.fs p := by
      refine (hreadLater p hp).trans (hfirst.readsAlike hfs ?_ ?_)
      · intro hplace
        exact hother p hp (hplace.same hlinks₁ hpath (hplain p hp))
      · intro backup hbackup hcreated hplace
        exact hapartFirst backup hbackup hcreated p (List.mem_cons_of_mem _ hp) (hplace.mono hgrows)
    cases hdry with
    | stop _ hfirst' =>
      obtain ⟨dry, hresult, -⟩ := hfirst.announces hfirst' hreadFirst
      simp at hresult
    | cons hfirst' hlater' =>
      obtain ⟨dry, hresult, hannounces⟩ := hfirst.announces hfirst' hreadFirst
      obtain rfl := Except.ok.inj hresult
      obtain rfl := hfirst'.eq_of_dryRun
      obtain ⟨later, rfl, hlaterAnnounces⟩ := ih hlater' hfs₁ hlinks₁ hplain hdistinct
        (fun f hf backup hbackup hcreated p hp => hapartLater f hf backup hbackup hcreated p
          (List.mem_cons_of_mem _ hp)) hread₁
      exact ⟨_, rfl, .cons hannounces hlaterAnnounces⟩

/-- A dry run changes nothing, whatever files it is given. If a run over files that are all different
ends well and makes no backup in the place of one of them, a dry run from the same state ends well
too and announces what the run does. A suffix may hold slashes, so where a backup lies is told by
where its path leads and not by how it is spelled. A file lies at one location: two names of one
inode have no place in a `FileSystem`, so nothing is said here of files that are hard links. -/
theorem announces_of_patchFiles (options : PatchOptions) :
    (∀ (paths : List Path) (g : Guarded), ((patchFiles options true paths).run.run g).2 = g) ∧
      ∀ (fs : FileSystem) (suffix : List Char) (policy : BackupPolicy) (paths : List Path)
        (report : PatchReport) (g : Guarded), fs.IsTree → fs.IsLinkFree [] →
        (∀ p ∈ paths, p.IsPlain) → (paths.Pairwise fun p q => ¬ p.same q) →
        (patchFiles options false paths).run.run ⟨fs, { suffix, policy }⟩ = (.ok report, g) →
        (∀ f ∈ report.files, ∀ backup ∈ f.backup, backup.created = true →
          ∀ p ∈ paths, ¬ g.fs.SamePlace backup.path p) →
        ∃ dry, (patchFiles options true paths).run.run ⟨fs, { suffix, policy }⟩ =
            (.ok dry, ⟨fs, { suffix, policy }⟩) ∧
          List.Forall₂ FileOutcome.Announces dry.files report.files := by
  have hkept (paths : List Path) (g : Guarded) :
      ((patchFiles options true paths).run.run g).2 = g :=
    (patchingAll_patchFiles options true paths g).eq_of_dryRun
  constructor
  · exact hkept
  intro fs suffix policy paths report g hfs hlinks hplain hdistinct hrun hapart
  have hall := patchingAll_patchFiles options false paths ⟨fs, { suffix, policy }⟩
  have hdry := patchingAll_patchFiles options true paths ⟨fs, { suffix, policy }⟩
  have hstate := hkept paths ⟨fs, { suffix, policy }⟩
  rw [hrun] at hall
  obtain ⟨files, hfiles, hannounces⟩ := hall.announces hdry hfs hlinks hplain hdistinct hapart
    fun p _ => .refl fs p
  rcases hpass : (patchFiles options true paths).run.run ⟨fs, { suffix, policy }⟩ with
    ⟨e | dry, g'⟩
  · simp [hpass, Except.map] at hfiles
  · rw [hpass] at hfiles hstate
    obtain rfl : dry.files = files := Except.ok.inj hfiles
    exact ⟨dry, by rw [show g' = _ from hstate], hannounces⟩

/-! ### A directory with four files -/

namespace Announced

/-- A table that has no backup, a file without tables, and a table that has a backup. -/
def tree : FileSystem :=
  ⟨.ofList [(["d".toList], .directory),
    (["d".toList, "x.c".toList], .file (bytesOf "static int t[4];\r\n") false),
    (["d".toList, "y.c".toList], .file (bytesOf "int main;") false),
    (["d".toList, "z.c".toList], .file (bytesOf "static int u[];") false),
    (["d".toList, "z.c.orig".toList], .file [] false)], []⟩

/-- The files of the directory, and one that is missing. -/
def listed : List Path := ["/d/x.c", "/d/y.c", "/d/w.c", "/d/./z.c"].map .ofString

/-- A pass over the files. -/
def pass (dryRun : Bool) : Except PatchError PatchReport × Guarded :=
  (patchFiles {} dryRun listed).run.run
    ⟨tree, { suffix := ".orig".toList, policy := .firstWriteWins }⟩

/-- The two tables are promoted, and a dry run announces just that. -/
theorem announces_of_patchFiles_four :
    tree.IsTree ∧ tree.IsLinkFree [] ∧ (∀ p ∈ listed, p.IsPlain) ∧
      (listed.Pairwise fun p q => ¬ p.same q) ∧
      ∃ report dry, (pass false).1 = .ok report ∧ (pass true).1 = .ok dry ∧
        (pass true).2.fs = tree ∧ report.files.map FileOutcome.status =
          [.patched, .unchanged, .skipped .missing, .patched] ∧
        (∀ f ∈ report.files, ∀ backup ∈ f.backup, backup.created = true →
          ∀ p ∈ listed, ¬ (pass false).2.fs.SamePlace backup.path p) ∧
        List.Forall₂ FileOutcome.Announces dry.files report.files := by
  have htree : tree.IsTree := FileSystem.isTree_of_forall (by decide +kernel)
  have hlinks : tree.IsLinkFree [] := FileSystem.isLinkFree_of_forall (by decide +kernel) []
  have hplain : ∀ p ∈ listed, p.IsPlain := fun p hp =>
    ⟨(by decide : ∀ p ∈ listed, p.isAbsolute = true) p hp,
      (by decide : ∀ p ∈ listed, Component.parent ∉ p.components) p hp⟩
  have hdistinct : listed.Pairwise fun p q => ¬ p.same q := by decide
  have hreport : (pass false).1.map (fun report => (report.files.map FileOutcome.status,
      decide (∀ f ∈ report.files, ∀ backup ∈ f.backup, backup.created = true →
        ∀ p ∈ listed, ¬ (pass false).2.fs.SamePlace backup.path p))) =
      .ok ([.patched, .unchanged, .skipped .missing, .patched], true) := by
    decide +kernel
  rcases hrun : pass false with ⟨e | report, g⟩
  all_goals rw [hrun] at hreport
  · simp [Except.map] at hreport
  obtain ⟨hstatus, hapart⟩ := Prod.mk.inj (Except.ok.inj hreport)
  obtain ⟨dry, hdry, hannounces⟩ := (announces_of_patchFiles {}).2 tree _ _ listed report g htree
    hlinks hplain hdistinct hrun (of_decide_eq_true hapart)
  have hpass : pass true = _ := hdry
  refine ⟨htree, hlinks, hplain, hdistinct, report, dry, rfl, ?_, ?_, hstatus,
    of_decide_eq_true hapart, hannounces⟩
  · rw [hpass]
  · rw [hpass]

end Announced

end ConstPromotion
