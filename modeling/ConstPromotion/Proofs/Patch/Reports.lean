import ConstPromotion.Proofs.Patch.DryRun

/-!
# Reports and what happened on disk

A report says of each file what became of it between the state of the files before a pass and the
state after it (`FileOutcome.Tells`): whether it was there, whether its bytes changed, and in which
lines. These are told here by comparing the two states line by line (`changedLines`), without regard
to how promotion comes by its declarations.

`changedLines_patchBytes` is the same for one content. A file keeps what its own promotion made of it,
since neither the promotion of another file nor the backup of one is read under its path.
-/

namespace ConstPromotion

/-! ### Lines that changed -/

/-- The places, from zero, at which two lists differ. A place that only one of them has counts. -/
def differences {α : Type} [DecidableEq α] (xs ys : List α) : List Nat :=
  (List.range (max xs.length ys.length)).filter fun i => xs[i]? ≠ ys[i]?

/-- The numbers, from one, of the lines in which two contents differ. -/
def changedLines (old new : Bytes) : List Nat :=
  (differences (splitLines old) (splitLines new)).map (· + 1)

section Lines

variable {α : Type} [DecidableEq α]

lemma differences_cons (x y : α) (xs ys : List α) :
    differences (x :: xs) (y :: ys) =
      (if x = y then [] else [0]) ++ (differences xs ys).map (· + 1) := by
  rw [differences, differences, List.length_cons, List.length_cons, Nat.add_max_add_right,
    List.range_succ_eq_map, List.filter_cons, List.filter_map]
  have hlater : ((fun i => decide ((x :: xs)[i]? ≠ (y :: ys)[i]?)) ∘ Nat.succ) =
      fun i => decide (xs[i]? ≠ ys[i]?) := by
    funext i
    simp
  rw [hlater]
  by_cases h : x = y <;> simp [h]

lemma differences_self (xs : List α) : differences xs xs = [] := by
  simp [differences]

end Lines

lemma changedLines_self (content : Bytes) : changedLines content content = [] := by
  rw [changedLines, differences_self, List.map_nil]

/-- A cut into lines by all of their bytes. -/
lemma splitLines_eq (content : Bytes) :
    splitLines content = (cutLines content).map ContentLine.raw := by
  rw [cutLines, List.map_map, eq_comm]
  exact List.map_id'' (fun raw => splitEnding_append raw) _

/-- A line changes exactly if it is recognised. -/
lemma raw_promoteLine_eq_iff {o : PatchOptions} {l : ContentLine} :
    l.raw = (promoteLine o l).raw ↔ ArrayDeclaration.matchBytes? l.body = none := by
  constructor
  · intro hsame
    have hlength := length_after_lineEdits o 0 l
    rw [flatMap_after_lineEdits, flatMap_before_lineEdits, ← hsame] at hlength
    cases hmatch : ArrayDeclaration.matchBytes? l.body with
    | none => rfl
    | some m =>
      simp only [lineDeclaration?, hmatch, Option.map_some, Option.toList_some,
        List.length_singleton] at hlength
      omega
  · intro hnone
    simp only [promoteLine, promotedBody, hnone, ContentLine.raw]

/-- The lines that are reported are those that change. -/
lemma map_line_lineDeclarations (o : PatchOptions) (number : Nat) (lines : List ContentLine) :
    (lineDeclarations o number lines).map PatchedDeclaration.line =
      (differences (lines.map ContentLine.raw)
        (lines.map fun l => (promoteLine o l).raw)).map (· + number) := by
  induction lines generalizing number with
  | nil => rfl
  | cons l lines ih =>
    have hnumber : (fun i => i + 1 + number) = fun i => i + (number + 1) := by
      funext i
      omega
    rw [lineDeclarations_cons, List.map_append, ih, List.map_cons, List.map_cons, differences_cons,
      List.map_append, List.map_map]
    simp only [Function.comp_def, hnumber, raw_promoteLine_eq_iff]
    congr 1
    cases hmatch : ArrayDeclaration.matchBytes? l.body <;> simp [lineDeclaration?, hmatch]

/-- Promotion reports just the lines in which the content changed. -/
theorem changedLines_patchBytes {o : PatchOptions}
    (ho : o.annotate = false ∨ '\n' ∉ o.sectionName.toList) (content : Bytes) :
    changedLines content (patchBytes o content).content =
      (patchBytes o content).declarations.map PatchedDeclaration.line := by
  rw [changedLines, splitLines_eq, splitLines_eq, cutLines_content_patchBytes ho, List.map_map,
    patchBytes_eq, map_line_lineDeclarations]
  rfl

/-! ### One file -/

namespace FileSystem

variable {fs fs' : FileSystem} {p : Path} {content : Bytes}

/-- The content of the file that a path leads to, if it leads to one. -/
def content? (fs : FileSystem) (p : Path) : Option Bytes := (fs.read p).toOption

lemma content?_eq_some_iff : fs.content? p = some content ↔ fs.read p = .ok content := by
  rw [content?]
  cases fs.read p <;> simp [Except.toOption]

lemma content?_eq_none_iff : fs.content? p = none ↔ fs.isFile p = false := by
  rw [← not_iff_not, Bool.not_eq_false, ← ne_eq, Option.ne_none_iff_exists']
  simp only [content?_eq_some_iff]
  constructor
  · rintro ⟨content, hread⟩
    obtain ⟨l, executable, hfind⟩ := read_eq_ok_iff.mp hread
    exact isFile_iff.mpr ⟨l, content, executable, hfind⟩
  · exact exists_read_of_isFile

lemma ReadsAlike.content?_eq (h : fs.ReadsAlike fs' p) : fs.content? p = fs'.content? p := by
  apply Option.ext
  intro content
  rw [content?_eq_some_iff, content?_eq_some_iff]
  exact h content

/-- The numbers of the lines in which the file that a path leads to differs between two states. A
file that is missing has no lines. -/
def changedLinesAt (before after : FileSystem) (p : Path) : List Nat :=
  changedLines ((before.content? p).getD []) ((after.content? p).getD [])

end FileSystem

/-- What is reported of the file under a path is what became of it. -/
structure FileOutcome.Tells (f : FileOutcome) (path : Path) (before after : FileSystem) : Prop where
  path_eq : f.path = path
  skipped_iff : f.status = .skipped .missing ↔ before.isFile path = false
  patched_iff : f.status = .patched ↔ after.content? path ≠ before.content? path
  unchanged_iff : f.status = .unchanged ↔
    before.isFile path = true ∧ after.content? path = before.content? path
  declarations_ne_nil_iff : f.declarations ≠ [] ↔ f.status = .patched
  isSome_backup_iff : f.backup.isSome = true ↔ f.status = .patched
  lines_eq : f.declarations.map PatchedDeclaration.line = before.changedLinesAt after path

variable {options : PatchOptions} {path p : Path} {paths : List Path} {g g' : Guarded}
  {f : FileOutcome} {files : List FileOutcome} {before before' after after' : FileSystem}

namespace FileOutcome.Tells

/-- It depends only on what is read under the path. -/
lemma congr (h : f.Tells path before after) (hbefore : before.ReadsAlike before' path)
    (hafter : after.ReadsAlike after' path) : f.Tells path before' after' := by
  have hfile : before'.isFile path = before.isFile path := by
    rw [Bool.eq_iff_iff, ← not_iff_not, Bool.not_eq_true, Bool.not_eq_true,
      ← FileSystem.content?_eq_none_iff, ← FileSystem.content?_eq_none_iff, hbefore.content?_eq]
  obtain ⟨hpath, hskipped, hpatched, hunchanged, hdeclarations, hbackup, hlines⟩ := h
  rw [hbefore.content?_eq, hafter.content?_eq] at hpatched hunchanged
  rw [FileSystem.changedLinesAt, hbefore.content?_eq, hafter.content?_eq] at hlines
  rw [← hfile] at hskipped hunchanged
  exact ⟨hpath, hskipped, hpatched, hunchanged, hdeclarations, hbackup, hlines⟩

lemma status_cases (h : f.Tells path before after) :
    f.status = .skipped .missing ∨ f.status = .unchanged ∨ f.status = .patched := by
  rw [h.skipped_iff, h.unchanged_iff, h.patched_iff]
  cases before.isFile path <;> simp [eq_or_ne]

end FileOutcome.Tells

/-- The promotion of a file tells what it does. -/
theorem Patching.tells (ho : options.annotate = false ∨ '\n' ∉ options.sectionName.toList)
    (h : Patching .plain options false path g (.ok f) g') : f.Tells path g.fs g'.fs := by
  have hthere {content : Bytes} (hread : g.fs.read path = .ok content) :
      g.fs.content? path = some content ∧ g.fs.isFile path = true := by
    have hcontent := FileSystem.content?_eq_some_iff.mpr hread
    refine ⟨hcontent, ?_⟩
    rw [← Bool.not_eq_false, ← FileSystem.content?_eq_none_iff, hcontent]
    simp
  have hself : g.fs.changedLinesAt g.fs path = [] := changedLines_self _
  cases h with
  | missing hfile =>
    rw [Disk.isFile_eq rfl] at hfile
    constructor <;> simp [hfile, hself]
  | unchanged content hread =>
    obtain ⟨-, hfile⟩ := hthere hread
    constructor <;> simp [hfile, hself]
  | dryRun => contradiction
  | patched content backup g₁ fs' hread hsome _ _ hwrite =>
    obtain ⟨hbefore, hfile⟩ := hthere hread
    have hafter := FileSystem.content?_eq_some_iff.mpr (FileSystem.read_of_write hwrite)
    have hchanged : (patchBytes options content).content ≠ content :=
      mt content_patchBytes_eq_iff.mp hsome
    constructor <;> simp [hfile, hbefore, hafter, hchanged, hsome, FileSystem.changedLinesAt,
      changedLines_patchBytes ho]

/-! ### Several files -/

/-- A pass is read only under paths to its files and to the backups that it made. -/
theorem PatchingAll.readsAlike {disk : Disk} {dryRun : Bool}
    (h : PatchingAll disk options dryRun paths g (.ok files) g') (hfs : g.fs.IsTree)
    (hother : ∀ q ∈ paths, ¬ g'.fs.SamePlace q p)
    (hapart : ∀ f ∈ files, ∀ backup ∈ f.backup, backup.created = true →
      ¬ g'.fs.SamePlace backup.path p) : g.fs.ReadsAlike g'.fs p := by
  induction h using ok_induction with
  | nil g => exact .refl g.fs p
  | cons hfirst hlater ih =>
    have hfs₁ := hfirst.written.isTree hfs
    have hgrows := hlater.written.grows hfs₁
    obtain ⟨hpath, hother⟩ := List.forall_mem_cons.mp hother
    obtain ⟨hapartFirst, hapart⟩ := List.forall_mem_cons.mp hapart
    have hstep := hfirst.readsAlike hfs (fun hplace => hpath (hplace.mono hgrows))
      fun backup hbackup hcreated hplace => hapartFirst backup hbackup hcreated (hplace.mono hgrows)
    exact hstep.trans (ih hfs₁ hother hapart)

/-- A pass over files that are all different tells what it does, if it makes no backup in the place
of one of them. -/
theorem PatchingAll.tells (ho : options.annotate = false ∨ '\n' ∉ options.sectionName.toList)
    (h : PatchingAll .plain options false paths g (.ok files) g') (hfs : g.fs.IsTree)
    (hlinks : g.fs.IsLinkFree []) (hplain : ∀ p ∈ paths, p.IsPlain)
    (hdistinct : paths.Pairwise fun p q => ¬ p.same q)
    (hapart : ∀ f ∈ files, ∀ backup ∈ f.backup, backup.created = true →
      ∀ p ∈ paths, ¬ g'.fs.SamePlace backup.path p) :
    List.Forall₂ (fun path f => f.Tells path g.fs g'.fs) paths files := by
  induction h using ok_induction with
  | nil => exact .nil
  | @cons path paths g g₁ g' f files hfirst hlater ih =>
    obtain ⟨hpath, hplain⟩ := List.forall_mem_cons.mp hplain
    obtain ⟨hother, hdistinct⟩ := List.pairwise_cons.mp hdistinct
    obtain ⟨hapartFirst, hapartLater⟩ := List.forall_mem_cons.mp hapart
    have hfs₁ := hfirst.written.isTree hfs
    have hlinks₁ := hfirst.written.isLinkFree hfs hlinks
    have hlinks' := hlater.written.isLinkFree hfs₁ hlinks₁
    have hgrows := hlater.written.grows hfs₁
    -- the later files are read before the first one is promoted as they are after it
    have hread (p : Path) (hp : p ∈ paths) : g₁.fs.ReadsAlike g.fs p := by
      have hstep : g.fs.ReadsAlike g₁.fs p := by
        refine hfirst.readsAlike hfs ?_ ?_
        · intro hplace
          exact hother p hp (hplace.same hlinks₁ hpath (hplain p hp))
        · intro backup hbackup hcreated hplace
          exact hapartFirst backup hbackup hcreated p (List.mem_cons_of_mem _ hp)
            (hplace.mono hgrows)
      exact fun content => (hstep content).symm
    -- the first file stays as its promotion left it
    have hkept : g₁.fs.ReadsAlike g'.fs path := by
      refine hlater.readsAlike hfs₁ ?_ ?_
      · intro q hq hplace
        have hsame := hplace.same hlinks' (hplain q hq) hpath
        exact hother q hq (by simpa [Path.same, eq_comm] using hsame)
      · intro f hf backup hbackup hcreated
        exact hapartLater f hf backup hbackup hcreated path List.mem_cons_self
    have hlaterTells := ih hfs₁ hlinks₁ hplain hdistinct fun f hf backup hbackup hcreated p hp =>
      hapartLater f hf backup hbackup hcreated p (List.mem_cons_of_mem _ hp)
    refine .cons ((hfirst.tells ho).congr (.refl _ _) hkept) ?_
    have hboth := (List.forall₂_and_left paths files).mpr ⟨hread, hlaterTells⟩
    exact hboth.imp fun p f h => h.2.congr h.1 (.refl _ _)

/-- What a report tells of its files adds up to the number of files and of lines that changed. -/
lemma counts_of_forall₂ {report : PatchReport}
    (h : List.Forall₂ (fun path f => f.Tells path before after) paths report.files) :
    report.patchedFiles + report.skippedFiles
        + report.files.countP (fun f => f.status = .unchanged) = paths.length ∧
      report.declarations = (paths.map fun p => (before.changedLinesAt after p).length).sum := by
  obtain ⟨files⟩ := report
  simp only [PatchReport.patchedFiles, PatchReport.skippedFiles, PatchReport.declarations] at h ⊢
  induction h with
  | nil => simp
  | @cons path f paths files hfirst _ ih =>
    have hlength := congrArg List.length hfirst.lines_eq
    rw [List.length_map] at hlength
    obtain ⟨hcounts, hlines⟩ := ih
    simp only [List.countP_cons, List.length_cons, List.map_cons, List.sum_cons, List.flatMap_cons,
      List.length_append, hlength, hlines, ← hcounts, and_true]
    rcases hfirst.status_cases with hstatus | hstatus | hstatus <;> simp [hstatus] <;> omega

/-- A pass that ends well over files that are all different, and that makes no backup in the place of
one of them, reports each file in order, and what it reports is what happened to the file on disk.
The counts of the report are those of the files and of the lines that changed. The store may be in
any state. As in `announces_of_patchFiles`, hard links have no place here. -/
theorem tells_of_patchFiles (options : PatchOptions) (paths : List Path) (g g' : Guarded)
    (report : PatchReport) (ho : '\n' ∉ options.sectionName.toList) (hfs : g.fs.IsTree)
    (hlinks : g.fs.IsLinkFree []) (hplain : ∀ p ∈ paths, p.IsPlain)
    (hdistinct : paths.Pairwise fun p q => ¬ p.same q)
    (hrun : (patchFiles options false paths).run.run g = (.ok report, g'))
    (hapart : ∀ f ∈ report.files, ∀ backup ∈ f.backup, backup.created = true →
      ∀ p ∈ paths, ¬ g'.fs.SamePlace backup.path p) :
    List.Forall₂ (fun path f => f.Tells path g.fs g'.fs) paths report.files ∧
      report.patchedFiles + report.skippedFiles
        + report.files.countP (fun f => f.status = .unchanged) = paths.length ∧
      report.declarations = (paths.map fun p => (g.fs.changedLinesAt g'.fs p).length).sum := by
  have hall := patchingAll_patchFiles options false paths g
  rw [hrun] at hall
  have htells := PatchingAll.tells (.inr ho) hall hfs hlinks hplain hdistinct hapart
  exact ⟨htells, counts_of_forall₂ htells⟩

/-! ### A directory with two files -/

namespace Told

/-- A file with tables in its first and in its last line, and a file without tables. -/
def tree : FileSystem :=
  ⟨.ofList [(["d".toList], .directory),
    (["d".toList, "x.c".toList],
      .file (bytesOf "static int t[4];\r\nint main;\nstatic int u[];") false),
    (["d".toList, "y.c".toList], .file (bytesOf "int main;\n") false)], []⟩

/-- The files of the directory, and one that is missing. -/
def listed : List Path := ["/d/y.c", "/d/w.c", "/d/x.c"].map .ofString

/-- A pass over the files with the attribute. -/
def pass : Except PatchError PatchReport × Guarded :=
  (patchFiles { annotate := true } false listed).run.run
    ⟨tree, { suffix := ".orig".toList, policy := .versioned }⟩

/-- The report tells of the two lines that changed, of the file that did not and of the one that is
missing. -/
theorem tells_of_patchFiles_three :
    tree.IsTree ∧ tree.IsLinkFree [] ∧ (∀ p ∈ listed, p.IsPlain) ∧
      (listed.Pairwise fun p q => ¬ p.same q) ∧
      ∃ report g, pass = (.ok report, g) ∧
        (∀ f ∈ report.files, ∀ backup ∈ f.backup, backup.created = true →
          ∀ p ∈ listed, ¬ g.fs.SamePlace backup.path p) ∧
        List.Forall₂ (fun path f => f.Tells path tree g.fs) listed report.files ∧
        (listed.map fun p => tree.changedLinesAt g.fs p) = [[], [], [1, 3]] ∧
        report.declarations = 2 := by
  have htree : tree.IsTree := FileSystem.isTree_of_forall (by decide +kernel)
  have hlinks : tree.IsLinkFree [] := FileSystem.isLinkFree_of_forall (by decide +kernel) []
  have hplain : ∀ p ∈ listed, p.IsPlain := by
    intro p hp
    constructor
    · exact (by decide : ∀ p ∈ listed, p.isAbsolute = true) p hp
    · exact (by decide : ∀ p ∈ listed, Component.parent ∉ p.components) p hp
  have hdistinct : listed.Pairwise fun p q => ¬ p.same q := by decide
  have hreport : pass.1.map (fun report => decide (∀ f ∈ report.files, ∀ backup ∈ f.backup,
      backup.created = true → ∀ p ∈ listed, ¬ pass.2.fs.SamePlace backup.path p)) = .ok true := by
    decide +kernel
  have hlines : (listed.map fun p => tree.changedLinesAt pass.2.fs p) = [[], [], [1, 3]] := by
    decide +kernel
  rcases hrun : pass with ⟨e | report, g⟩
  all_goals rw [hrun] at hreport hlines
  · simp [Except.map] at hreport
  have hapart := of_decide_eq_true (Except.ok.inj hreport)
  obtain ⟨htells, -, hcount⟩ := tells_of_patchFiles _ listed _ g report (by decide) htree hlinks
    hplain hdistinct hrun hapart
  refine ⟨htree, hlinks, hplain, hdistinct, report, g, rfl, hapart, htells, hlines, ?_⟩
  have hsum : (listed.map fun p => (tree.changedLinesAt g.fs p).length) =
      [[], [], [1, 3]].map List.length := by
    rw [← hlines, List.map_map]
    rfl
  rw [hcount, hsum]
  rfl

end Told

end ConstPromotion
