import ConstPromotion.Proofs.FileSystem.Earlier
import ConstPromotion.Proofs.FileSystem.Lexical
import ConstPromotion.Proofs.Patch.Settled
import ConstPromotion.Proofs.Pipeline.Stages

/-!
# A second run

A run that ends well leaves nothing for another one to do, with or without verification: all that
was selected is settled, and so is what the scan passed over. What is new is a backup. A backup may
hold declarations, so it must not be taken for a source file (`PatchReport.KeepsApart`); then
another run selects no file by a scan, and changes nothing (`Pipeline.patch_of_patch`).
-/

namespace ConstPromotion

/-- The reviewed files of a policy as candidates. -/
def reviewedCandidates (root : Path) (policy : SelectionPolicy) : List Candidate :=
  (reviewedKeys root policy.allowList).map fun key => ⟨root.join key, key, .allowList⟩

/-- The files that a scan selects, as candidates. -/
def scannedCandidates (fs : FileSystem) (root : Path) (policy : SelectionPolicy) :
    List Candidate :=
  ((Disk.plain.filesBelow fs root).filter fun p =>
    hasExtension policy.extensions p && !isAmong (Path.keyUnder root p)
      (reviewedKeys root policy.allowList ++ policy.denyList.map (Path.keyUnder root))
      && fs.isPromotable p).map fun p => ⟨p, Path.keyUnder root p, .scan⟩

/-- No backup that was made has one of the extensions that are scanned, or is a reviewed file under
some spelling. -/
def PatchReport.KeepsApart (report : PatchReport) (root : Path) (policy : SelectionPolicy) : Prop :=
  ∀ f ∈ report.files, ∀ backup ∈ f.backup, backup.created = true →
    hasExtension policy.extensions backup.path = false ∧
      ∀ entry ∈ policy.allowList, ¬ (Path.keyUnder root backup.path).same (Path.keyUnder root entry)

instance (report : PatchReport) (root : Path) (policy : SelectionPolicy) :
    Decidable (report.KeepsApart root policy) :=
  inferInstanceAs (Decidable (∀ f ∈ report.files, ∀ backup ∈ f.backup, _ → _))

variable {root p : Path} {policy : SelectionPolicy} {selected : List Candidate}
  {options : PatchOptions} {g g' : Guarded} {report : PatchReport} {content : Bytes}

lemma selectCandidates_of_isDirectory {fs : FileSystem} (hdir : fs.isDirectory root = true) :
    selectCandidates fs root policy =
      .ok (reviewedCandidates root policy ++ scannedCandidates fs root policy) := by
  rw [selectCandidates, selectCandidatesOn, if_pos ((Disk.isDirectory_eq rfl).trans hdir)]
  rfl

lemma isAbsolute_backup (hp : p.isAbsolute = true) (store : BackupStore) (content : Bytes) :
    (store.path p content).isAbsolute = true := by
  rw [BackupStore.path]
  cases store.policy <;> exact Path.isAbsolute_withFileName hp _

/-! ### After a pass over the selected files -/

/-- A pass over the files that were selected in a tree without links ended well, and its backups are
no source files. -/
structure IsPromotion (root : Path) (policy : SelectionPolicy) (selected : List Candidate)
    (options : PatchOptions) (g g' : Guarded) (report : PatchReport) : Prop where
  isTree : g.fs.IsTree
  isLinkFree : g.fs.IsLinkFree []
  hasValidNames : g.fs.HasValidNames
  isAbsolute : root.isAbsolute = true
  staysInside : ∀ entry ∈ policy.allowList, entry.StaysInside
  knowsPresent : g.store.KnowsPresent
  feed_notMem : options.annotate = false ∨ '\n' ∉ options.sectionName.toList
  isSelected : selectCandidates g.fs root policy = .ok selected
  patchingAll : PatchingAll .plain options false (selected.map Candidate.path) g (.ok report.files) g'
  keepsApart : report.KeepsApart root policy

namespace IsPromotion

variable {k : Location} {executable : Bool}

section

variable (h : IsPromotion root policy selected options g g' report)

include h

lemma isDirectory : g.fs.isDirectory root = true := isDirectory_of_selectCandidatesOn h.isSelected

lemma selected_eq :
    selected = reviewedCandidates root policy ++ scannedCandidates g.fs root policy := by
  have hselected := h.isSelected
  rw [selectCandidates_of_isDirectory h.isDirectory] at hselected
  exact (Except.ok.inj hselected).symm

lemma isTree' : g'.fs.IsTree := h.patchingAll.written.isTree h.isTree

lemma isLinkFree' : g'.fs.IsLinkFree [] := h.patchingAll.written.isLinkFree h.isTree h.isLinkFree

lemma isAbsolute_of_mem (hp : p ∈ selected.map Candidate.path) : p.isAbsolute = true := by
  obtain ⟨c, hc, rfl⟩ := List.mem_map.mp hp
  rw [h.selected_eq] at hc
  rcases List.mem_append.mp hc with hc | hc
  · obtain ⟨key, -, rfl⟩ := List.mem_map.mp hc
    exact Path.isAbsolute_join_of_isAbsolute h.isAbsolute key
  · obtain ⟨q, hq, rfl⟩ := List.mem_map.mp hc
    obtain ⟨hbelow, -⟩ := filesBelow_clean .plain h.isTree h.hasValidNames h.isAbsolute
      h.isDirectory
    exact (hbelow q (List.mem_filter.mp hq).1).1

/-- What is new is a backup. -/
lemma exists_backup_of_new (hk : g.fs.nodeAt k = none)
    (hfind : g'.fs.find p = .ok (k, .file content executable)) :
    ∃ backup : BackupOutcome, backup.path.isAbsolute = true ∧
      hasExtension policy.extensions backup.path = false ∧
      (∀ entry ∈ policy.allowList,
        ¬ (Path.keyUnder root backup.path).same (Path.keyUnder root entry)) ∧
      ∃ content executable, g'.fs.find backup.path = .ok (k, .file content executable) := by
  have hnode := h.isTree'.nodeAt_of_find hfind
  obtain ⟨f, hf, backup, hbackup, hcreated, ⟨source, hsource, content', hpath⟩, hplace⟩ :=
    h.patchingAll.exists_created_of_new h.isTree h.knowsPresent hk (by simp [hnode])
  obtain ⟨hextension, hlisted⟩ := h.keepsApart f hf backup hbackup hcreated
  refine ⟨backup, ?_, hextension, hlisted, hplace⟩
  rw [hpath]
  exact isAbsolute_backup (h.isAbsolute_of_mem hsource) _ _

/-- A settled file has no declaration. -/
lemma hasDeclaration_of_isSettledAt (hk : g'.fs.IsSettledAt k)
    (hfind : g'.fs.find p = .ok (k, .file content executable)) :
    hasDeclaration content = false := by
  obtain ⟨content', executable', hnode, hnone⟩ := hk
  have hfits := h.isTree'.nodeAt_of_find hfind
  obtain ⟨rfl, -⟩ := Node.file.inj (Option.some.inj (hnode.symm.trans hfits))
  exact hnone

/-- A selected file has no declaration any more, unless it is new. -/
lemma hasDeclaration_of_mem (hp : p ∈ selected.map Candidate.path) (hk : g.fs.nodeAt k ≠ none)
    (hfind : g'.fs.find p = .ok (k, .file content executable)) :
    hasDeclaration content = false := by
  obtain ⟨old, executable', hearlier⟩ := h.patchingAll.written.find_of_nodeAt h.isTree hfind hk
  exact h.hasDeclaration_of_isSettledAt (h.patchingAll.isSettledAt_of_find h.isTree h.knowsPresent
    h.feed_notMem hp hearlier) hfind

/-- A reviewed file has no declaration any more. -/
lemma hasDeclaration_of_reviewed {c : Candidate} (hc : c ∈ reviewedCandidates root policy)
    (hread : g'.fs.read c.path = .ok content) : hasDeclaration content = false := by
  obtain ⟨k, executable, hfind⟩ := FileSystem.read_eq_ok_iff.mp hread
  by_cases hk : g.fs.nodeAt k = none
  · obtain ⟨backup, habsolute, -, hlisted, content', executable', hplace⟩ :=
      h.exists_backup_of_new hk hfind
    obtain ⟨key, hkey, rfl⟩ := List.mem_map.mp hc
    obtain ⟨entry, hentry, rfl⟩ := mem_reviewedKeys hkey
    have hinside := h.staysInside entry hentry
    refine absurd ?_ (hlisted entry hentry)
    rw [Path.same_keyUnder_iff h.isAbsolute (Path.staysInside_of_isAbsolute habsolute) hinside,
      Path.join_of_isAbsolute habsolute, ← Path.clean_join_keyUnder h.isAbsolute entry]
    exact FileSystem.clean_eq_of_find h.isLinkFree' habsolute
      (Path.isAbsolute_join_of_isAbsolute h.isAbsolute _) hplace hfind
  · have hmem : c ∈ selected := by
      rw [h.selected_eq]
      exact List.mem_append_left _ hc
    exact h.hasDeclaration_of_mem (List.mem_map_of_mem hmem) hk hfind

/-- A file that the scan would consider has no declaration any more. -/
lemma isPromotable_eq_false (hp : p ∈ Disk.plain.filesBelow g'.fs root)
    (hextension : hasExtension policy.extensions p = true)
    (hleft : isAmong (Path.keyUnder root p)
      (reviewedKeys root policy.allowList ++ policy.denyList.map (Path.keyUnder root)) = false) :
    g'.fs.isPromotable p = false := by
  rw [FileSystem.isPromotable, Disk.isPromotable]
  split
  next content hread =>
    obtain ⟨k, executable, hfind⟩ := FileSystem.read_eq_ok_iff.mp hread
    by_cases hk : g.fs.nodeAt k = none
    · obtain ⟨backup, -, hother, -, content', executable', hplace⟩ :=
        h.exists_backup_of_new hk hfind
      have hname := FileSystem.fileName?_eq_of_find h.isLinkFree' hfind hplace (by simp) (by simp)
      rw [hasExtension, hasExtension_eq _ hname] at hextension
      exact absurd (hextension.symm.trans hother) (by simp)
    obtain ⟨old, executable', hearlier⟩ := h.patchingAll.written.find_of_nodeAt h.isTree hfind hk
    cases hold : hasDeclaration old with
    | true =>
      -- the first scan selected the file
      have hbelow := h.patchingAll.written.mem_filesBelow h.isTree h.isLinkFree h.hasValidNames
        h.isDirectory hp hfind hk
      have hread' := FileSystem.read_eq_ok_iff.mpr ⟨k, executable', hearlier⟩
      have hmem : ⟨p, Path.keyUnder root p, .scan⟩ ∈ selected := by
        rw [h.selected_eq]
        apply List.mem_append_right
        apply List.mem_map_of_mem
        refine List.mem_filter.mpr ⟨hbelow, ?_⟩
        have hpromotable : g.fs.isPromotable p = true :=
          isPromotable_eq_true_iff.mpr ⟨old, hread', hold⟩
        simp [hextension, hleft, hpromotable]
      exact h.hasDeclaration_of_mem (List.mem_map.mpr ⟨_, hmem, rfl⟩) hk hfind
    | false =>
      have hnode := h.isTree.nodeAt_of_find hearlier
      exact h.hasDeclaration_of_isSettledAt
        (h.patchingAll.isSettledAt h.isTree h.knowsPresent ⟨old, executable', hnode, hold⟩) hfind
  next => rfl

/-- After the pass only the reviewed files are selected. -/
theorem selectCandidates_eq :
    selectCandidates g'.fs root policy = .ok (reviewedCandidates root policy) := by
  have hdir : g'.fs.isDirectory root = true := by
    obtain ⟨l, hfind⟩ := FileSystem.isDirectory_iff.mp h.isDirectory
    exact FileSystem.isDirectory_iff.mpr
      ⟨l, (h.patchingAll.written.grows h.isTree).find_directory hfind⟩
  rw [selectCandidates_of_isDirectory hdir, scannedCandidates, List.filter_eq_nil_iff.mpr,
    List.map_nil, List.append_nil]
  intro p hp hkept
  simp only [Bool.and_eq_true, Bool.not_eq_true'] at hkept
  obtain ⟨⟨hextension, hleft⟩, hpromotable⟩ := hkept
  rw [h.isPromotable_eq_false hp hextension hleft] at hpromotable
  simp at hpromotable

end

end IsPromotion

/-! ### Runs -/

namespace Pipeline

variable {c : Config} {verify : Bool} {s s₁ : Progress}

/-- A run that ends well is a pass over the files that it selected. -/
lemma exists_isPromotion (hfs : s.world.fs.IsTree) (hnames : s.world.fs.HasValidNames)
    (hlinks : s.world.fs.IsLinkFree []) (hlibrary : (c.layout root).libraryDir.isAbsolute = true)
    (hinside : ∀ entry ∈ c.selectionPolicy.allowList, entry.StaysInside)
    (hsection : '\n' ∉ c.annotationSection.toList)
    (hrun : (ofConfig c root verify false).patch.run.run s = (.ok report, s₁))
    (hapart : report.KeepsApart (c.layout root).libraryDir c.selectionPolicy) :
    ∃ selected g', g'.fs = s₁.world.fs ∧ IsPromotion (c.layout root).libraryDir c.selectionPolicy
      selected (ofConfig c root verify false).patchOptions
      ⟨s.world.fs, (ofConfig c root verify false).newStore⟩ g' report := by
  rcases (ofConfig c root verify false).patch_cases s with
    ⟨-, e, herror⟩ | ⟨selected, result, g', hselected, hall, hg, hresult⟩
  · simp [hrun] at herror
  rw [hrun] at hg hresult
  rw [hresult report rfl] at hall
  exact ⟨selected, g', hg.symm, hfs, hlinks, hnames, hlibrary, hinside, knowsPresent_newStore _,
    .inr hsection, hselected, hall, hapart⟩

/-- A run that selects settled files only changes nothing. -/
lemma run_patch_of_settled {p : Pipeline} {selected : List Candidate}
    (hselected : selectCandidates s.world.fs p.layout.libraryDir p.config.selectionPolicy =
      .ok selected)
    (hsettled : ∀ candidate ∈ selected, ∀ content,
      s.world.fs.read candidate.path = .ok content → hasDeclaration content = false) :
    ∃ report, p.patch.run.run s = (.ok report, { s with state := .patched }) ∧
      List.Forall₂ (fun candidate f => f.path = candidate.path ∧ f.IsIdle) selected
        report.files := by
  have hall := patchingAll_patchFiles p.patchOptions p.dryRun (selected.map Candidate.path)
    ⟨s.world.fs, p.newStore⟩
  rw [run_patch hselected]
  rcases hpass : (patchFiles p.patchOptions p.dryRun (selected.map Candidate.path)).run.run
    ⟨s.world.fs, p.newStore⟩ with ⟨result, g⟩
  rw [hpass] at hall
  obtain ⟨rfl, files, hfiles, hidle⟩ := hall.isIdle (List.forall_mem_map.mpr hsettled)
  cases result with
  | error e => simp [Except.map] at hfiles
  | ok report =>
    obtain rfl : report.files = files := Except.ok.inj hfiles
    exact ⟨report, rfl, List.forall₂_map_left_iff.mp hidle⟩

/-- After a run that ended well, another one, with or without verification, selects the reviewed
files and nothing by a scan. It finds each of them unchanged or missing, and it changes nothing. The
backups that the first run made must not be taken for source files. -/
theorem patch_of_patch (verify' : Bool) {t : Progress} (hfs : s.world.fs.IsTree)
    (hnames : s.world.fs.HasValidNames) (hlinks : s.world.fs.IsLinkFree [])
    (hlibrary : (c.layout root).libraryDir.isAbsolute = true)
    (hinside : ∀ entry ∈ c.selectionPolicy.allowList, entry.StaysInside)
    (hsection : '\n' ∉ c.annotationSection.toList)
    (hrun : (ofConfig c root verify false).patch.run.run s = (.ok report, s₁))
    (hapart : report.KeepsApart (c.layout root).libraryDir c.selectionPolicy)
    (ht : t.world.fs = s₁.world.fs) :
    let reviewed := reviewedCandidates (c.layout root).libraryDir c.selectionPolicy
    selectCandidates t.world.fs (c.layout root).libraryDir c.selectionPolicy = .ok reviewed ∧
      ∃ report', (ofConfig c root verify' false).patch.run.run t =
          (.ok report', { t with state := .patched }) ∧
        List.Forall₂ (fun candidate f => f.path = candidate.path ∧ f.IsIdle) reviewed
          report'.files := by
  intro reviewed
  obtain ⟨selected, g', hg, h⟩ :=
    exists_isPromotion hfs hnames hlinks hlibrary hinside hsection hrun hapart
  have hselected : selectCandidates t.world.fs (c.layout root).libraryDir c.selectionPolicy =
      .ok reviewed := by
    rw [ht, ← hg]
    exact h.selectCandidates_eq
  constructor
  · exact hselected
  apply run_patch_of_settled (p := ofConfig c root verify' false) hselected
  intro candidate hcandidate content hread
  rw [ht, ← hg] at hread
  exact h.hasDeclaration_of_reviewed hcandidate hread

/-! ### A library with two tables -/

namespace Again

/-- A library that holds a table in a reviewed file, and one in a file that the scan finds. -/
def start : Progress where
  world := {
    fs := ⟨.ofList [(["lib".toList], .directory),
      (["lib".toList, "x.c".toList], .file (bytesOf "static int t[4];\r\n") false),
      (["lib".toList, "y.c".toList], .file (bytesOf "static int u[];") false)], []⟩
    env := .empty }

/-- A configuration for the library. One of the reviewed files is missing. -/
def config : Config := { sourceDir := ".", libraryDir := "lib", allowList := ["x.c", "./z.c"] }

/-- A run without verification promotes both files, and a run with verification finds nothing. -/
theorem patch_of_patch_verified :
    start.world.fs.IsTree ∧ start.world.fs.HasValidNames ∧ start.world.fs.IsLinkFree [] ∧
      ∃ report s₁, (ofConfig config (.ofString "/") false false).patch.run.run start =
          (.ok report, s₁) ∧
        report.patchedFiles = 2 ∧
        report.KeepsApart (config.layout (.ofString "/")).libraryDir config.selectionPolicy ∧
        ∃ report', (ofConfig config (.ofString "/") true false).patch.run.run s₁ =
            (.ok report', { s₁ with state := .patched }) ∧
          List.Forall₂ (fun path f => f.path = path ∧ f.IsIdle)
            [.ofString "/./lib/x.c", .ofString "/./lib/z.c"] report'.files := by
  have htree : start.world.fs.IsTree := FileSystem.isTree_of_forall (by decide +kernel)
  have hnames : start.world.fs.HasValidNames :=
    FileSystem.hasValidNames_of_forall (by decide +kernel)
  have hlinks : start.world.fs.IsLinkFree [] :=
    FileSystem.isLinkFree_of_forall (by decide +kernel) []
  have hfirst : (((ofConfig config (.ofString "/") false false).patch.run.run start).1.map
      fun report => (report.patchedFiles, decide (report.KeepsApart
        (config.layout (.ofString "/")).libraryDir config.selectionPolicy))) = .ok (2, true) := by
    decide +kernel
  rcases hrun : (ofConfig config (.ofString "/") false false).patch.run.run start with
    ⟨e | report, s₁⟩
  all_goals rw [hrun] at hfirst
  · simp [Except.map] at hfirst
  obtain ⟨hcount, hapart⟩ := Prod.mk.inj (Except.ok.inj hfirst)
  refine ⟨htree, hnames, hlinks, report, s₁, rfl, hcount, of_decide_eq_true hapart, ?_⟩
  obtain ⟨-, report', hagain, hidle⟩ := patch_of_patch true htree hnames hlinks
    (by decide) (by decide +kernel) (by decide) hrun (of_decide_eq_true hapart) rfl
  have hreviewed : (reviewedCandidates (config.layout (.ofString "/")).libraryDir
      config.selectionPolicy).map Candidate.path =
        [.ofString "/./lib/x.c", .ofString "/./lib/z.c"] := by
    decide +kernel
  rw [← hreviewed]
  exact ⟨report', hagain, List.forall₂_map_left_iff.mpr hidle⟩

end Again

end Pipeline

end ConstPromotion
