import ConstPromotion.Pipeline.Basic
import ConstPromotion.Proofs.Patch.Files
import ConstPromotion.Proofs.Selection

/-!
# Backups over several runs of a pipeline

A run of a pipeline makes nothing but backups. If their names have none of the extensions that are
scanned, no later run selects them by a scan, and so their contents are kept.
-/

namespace ConstPromotion

/-- No backup has a name with one of the extensions that are scanned. -/
def Config.KeepsBackupsApart (c : Config) : Prop :=
  ∀ source content, hasExtension c.scanExtensions
    (c.backup.policy.path source c.backup.suffix.toList content) = false

/-- The extension of a name is what follows its last dot, if something stands before it. -/
lemma Path.extension?_of_fileName? {p : Path} {start ext : List Char}
    (hname : p.fileName? = some (start ++ '.' :: ext)) (hdot : '.' ∉ ext) :
    p.extension? = if start = [] then none else some ext := by
  have hext : ∀ c ∈ ext.reverse, decide (c ≠ '.') = true := by
    intro c hc
    rw [decide_eq_true_eq]
    rintro rfl
    exact hdot (List.mem_reverse.mp hc)
  have hdrop : (ext.reverse ++ '.' :: start.reverse).dropWhile (· ≠ '.') = '.' :: start.reverse := by
    rw [List.dropWhile_append_of_pos hext, List.dropWhile_cons_of_neg (by simp)]
  have htake : (ext.reverse ++ '.' :: start.reverse).takeWhile (· ≠ '.') = ext.reverse := by
    rw [List.takeWhile_append_of_pos hext, List.takeWhile_cons_of_neg (by simp), List.append_nil]
  rw [extension?, hname]
  simp only [Option.bind_eq_bind, Option.bind_some, List.reverse_append, List.reverse_cons,
    List.append_assoc, List.singleton_append, hdrop, htake, List.reverse_reverse]
  cases hstart : start.reverse with
  | nil => simp_all
  | cons c rest =>
    have hne : start ≠ [] := by
      rintro rfl
      simp at hstart
    simp [hne]

/-- A name with an extension is the name of an entry. -/
lemma Path.isEntryName_of_extension {start ext : List Char} (hslash : '/' ∉ start ++ '.' :: ext)
    (hdot : '.' ∉ ext) (hne : ext ≠ []) : IsEntryName (start ++ '.' :: ext) := by
  have hlast : (start ++ '.' :: ext).getLast? ≠ some '.' := by
    rw [List.getLast?_append, List.getLast?_cons, List.getLast?_eq_some_getLast hne]
    intro h
    have heq : ext.getLast hne = '.' := by simpa using h
    exact hdot (heq ▸ List.getLast_mem hne)
  refine ⟨by simp, hslash, fun h => hlast (by rw [h]; rfl), fun h => hlast (by rw [h]; rfl)⟩

/-- Backups are kept apart by an extension of their own. -/
lemma Config.keepsBackupsApart_of_extension {c : Config} {start ext : List Char}
    (hpolicy : c.backup.policy = .firstWriteWins) (hsuffix : c.backup.suffix.toList = start ++ '.' :: ext)
    (hslash : '/' ∉ start ++ '.' :: ext) (hdot : '.' ∉ ext) (hne : ext ≠ [])
    (hother : ∀ wanted ∈ c.scanExtensions, wanted.toList.map Char.toLower ≠ ext.map Char.toLower) :
    c.KeepsBackupsApart := by
  intro source content
  rw [hpolicy, hsuffix]
  have hname : (backupPath source (start ++ '.' :: ext)).fileName? =
      some (source.fileName?.getD [] ++ start ++ '.' :: ext) := by
    rw [backupPath, ← List.append_assoc]
    refine Path.fileName?_withFileName (Path.isEntryName_of_extension ?_ hdot hne) source
    rw [List.append_assoc, List.mem_append, not_or]
    refine ⟨?_, hslash⟩
    cases hname : source.fileName? with
    | none => simp
    | some n => exact (Path.isEntryName_of_fileName? hname).slash_notMem
  rw [hasExtension, Disk.hasExtension, BackupPolicy.path, Path.extension?_of_fileName? hname hdot]
  split_ifs
  · rfl
  · simpa [Disk.plain, List.any_eq_false] using hother

namespace Pipeline

/-- The files below a root after a pass of the pipeline, with or without verification, for each
member of a list. -/
def patchRuns (c : Config) (root : Path) (s : Progress) (verifies : List Bool) : Progress :=
  verifies.foldl (fun s verify => ((ofConfig c root verify false).patch.run.run s).2) s

variable {c : Config} {root : Path} {s : Progress} {p : Pipeline} {verify : Bool}
  {earlier later : List Bool} {k : Location}

lemma run_ensureSource (p : Pipeline) (s : Progress) :
    p.ensureSource.run.run s = (if s.world.fs.isDirectory p.layout.libraryDir then .ok ()
      else .error (.missingSource p.layout.libraryDir), s) := by
  rw [ensureSource, Attempt.run_bind, Attempt.run_query]
  simp only [HasFiles.files]
  cases s.world.fs.isDirectory p.layout.libraryDir <;> rfl

/-- Selecting files changes nothing. -/
lemma run_candidates (p : Pipeline) (s : Progress) :
    ∃ result, p.candidates.run.run s = (result, s) ∧ ∀ selected, result = .ok selected →
      selectCandidates s.world.fs p.layout.libraryDir p.config.selectionPolicy = .ok selected := by
  rw [candidates, Attempt.run_bind, run_ensureSource]
  by_cases hsource : s.world.fs.isDirectory p.layout.libraryDir = true
  · simp only [hsource, if_true, Attempt.run_bind, Attempt.run_query, HasFiles.files, id_eq]
    cases hselect : selectCandidates s.world.fs p.layout.libraryDir p.config.selectionPolicy with
    | error e =>
      simp only [Attempt.run_throw]
      exact ⟨_, rfl, by simp⟩
    | ok selected =>
      simp only [Attempt.run_pure]
      exact ⟨_, rfl, by simp⟩
  · simp only [hsource]
    exact ⟨_, rfl, by simp⟩

/-- What a run does to the files: nothing, or it promotes those that are selected. -/
lemma patch_cases (p : Pipeline) (s : Progress) :
    ((p.patch.run.run s).2.world.fs = s.world.fs ∧ ∃ e, (p.patch.run.run s).1 = .error e) ∨
      ∃ selected result g, selectCandidates s.world.fs p.layout.libraryDir
          p.config.selectionPolicy = .ok selected ∧
        PatchingAll .plain p.patchOptions p.dryRun (selected.map Candidate.path)
          ⟨s.world.fs, p.newStore⟩ result g ∧
        (p.patch.run.run s).2.world.fs = g.fs ∧
        ∀ report, (p.patch.run.run s).1 = .ok report → result = .ok report.files := by
  obtain ⟨result, hrun, hselected⟩ := p.run_candidates s
  rw [patch, Attempt.run_bind, hrun]
  cases result with
  | error e => exact .inl ⟨rfl, e, rfl⟩
  | ok selected =>
    refine .inr ⟨selected, _, _, hselected selected rfl,
      patchingAll_patchFiles p.patchOptions p.dryRun _ ⟨s.world.fs, p.newStore⟩, ?_⟩
    simp only [Attempt.run_bind, Attempt.run_wrapping, Attempt.onFiles, Attempt.run_onPart,
      patchPaths, HasFiles.files, HasFiles.withFiles]
    rcases (patchFiles p.patchOptions p.dryRun (selected.map Candidate.path)).run.run
      ⟨s.world.fs, p.newStore⟩ with ⟨result, g⟩
    cases result with
    | error e => exact ⟨rfl, by simp [Except.mapError]⟩
    | ok report =>
      refine ⟨rfl, fun report' h => ?_⟩
      obtain rfl : report = report' := Except.ok.inj h
      rfl

lemma written_patch (p : Pipeline) (s : Progress) :
    FileSystem.Written s.world.fs (p.patch.run.run s).2.world.fs := by
  rcases p.patch_cases s with ⟨hsame, -⟩ | ⟨selected, result, g, -, hall, hg, -⟩
  · rw [hsame]
    exact .refl
  · rw [hg]
    exact hall.written

lemma knowsPresent_newStore (p : Pipeline) : p.newStore.KnowsPresent := by
  intro q
  simp [newStore, BackupStore.lookup]

/-- What is new after a run is a backup. -/
lemma find_of_new_patch (hfs : s.world.fs.IsTree) (hk : s.world.fs.nodeAt k = none)
    (hnew : (p.patch.run.run s).2.world.fs.nodeAt k ≠ none) :
    ∃ source content old executable, (p.patch.run.run s).2.world.fs.find
      (p.config.backup.policy.path source p.config.backup.suffix.toList content) =
        .ok (k, .file old executable) := by
  rcases p.patch_cases s with ⟨hsame, -⟩ | ⟨selected, result, g, -, hall, hg, -⟩
  · rw [hsame] at hnew
    exact absurd hk hnew
  · rw [hg] at hnew ⊢
    obtain ⟨source, -, hfind⟩ := hall.find_of_new hfs p.knowsPresent_newStore hk hnew
    exact ⟨source, hfind⟩

lemma patchRuns_append : patchRuns c root s (earlier ++ later) =
    patchRuns c root (patchRuns c root s earlier) later := List.foldl_append ..

lemma patchRuns_concat : patchRuns c root s (earlier ++ [verify]) =
    ((ofConfig c root verify false).patch.run.run (patchRuns c root s earlier)).2 := by
  rw [patchRuns_append]
  rfl

lemma written_patchRuns (c : Config) (root : Path) (s : Progress) (verifies : List Bool) :
    FileSystem.Written s.world.fs (patchRuns c root s verifies).world.fs := by
  induction verifies using List.reverseRecOn with
  | nil => exact .refl
  | append_singleton earlier verify ih =>
    rw [patchRuns_concat]
    exact ih.trans (written_patch _ _)

/-- What is new after several runs is a backup. -/
theorem find_of_new_patchRuns (hfs : s.world.fs.IsTree) (hk : s.world.fs.nodeAt k = none)
    (hnew : (patchRuns c root s earlier).world.fs.nodeAt k ≠ none) :
    ∃ source content old executable, (patchRuns c root s earlier).world.fs.find
      (c.backup.policy.path source c.backup.suffix.toList content) = .ok (k, .file old executable) := by
  induction earlier using List.reverseRecOn with
  | nil => exact absurd hk hnew
  | append_singleton earlier verify ih =>
    have hfs' := (written_patchRuns c root s earlier).isTree hfs
    rw [patchRuns_concat] at hnew ⊢
    by_cases hbefore : (patchRuns c root s earlier).world.fs.nodeAt k = none
    · exact find_of_new_patch hfs' hbefore hnew
    · obtain ⟨source, content, old, executable, hfind⟩ := ih hbefore
      exact ⟨source, content, ((written_patch _ _).grows hfs').find_file hfind⟩

/-- A scan does not select a backup. -/
lemma find_ne_of_scan {fs : FileSystem} {library source : Path} {selected : List Candidate}
    {candidate : Candidate} {content old : Bytes} {executable : Bool} (hlinks : fs.IsLinkFree [])
    (hapart : c.KeepsBackupsApart)
    (hselected : selectCandidates fs library c.selectionPolicy = .ok selected)
    (hcandidate : candidate ∈ selected) (hscan : candidate.origin = .scan)
    (hfind : fs.find (c.backup.policy.path source c.backup.suffix.toList content) =
      .ok (k, .file old executable)) (node : Node) : fs.find candidate.path ≠ .ok (k, node) := by
  intro hpath
  rcases mem_selectCandidatesOn hselected hcandidate with
    ⟨horigin, -⟩ | ⟨-, hextension, hpromotable⟩
  · simp [hscan] at horigin
  · obtain ⟨l, content', executable', hfile⟩ := exists_find_of_isPromotable hpromotable
    obtain ⟨rfl, rfl⟩ := FileSystem.find_inj hfile hpath
    have hname := FileSystem.fileName?_eq_of_find hlinks hpath hfind (by simp) (by simp)
    rw [hasExtension_eq _ hname] at hextension
    exact Bool.eq_false_iff.mp (hapart source content) hextension

/-- A run does not change a backup that was there before. -/
lemma nodeAt_patch {source : Path} {content old : Bytes} {executable : Bool}
    (hfs : s.world.fs.IsTree) (hlinks : s.world.fs.IsLinkFree []) (hapart : p.config.KeepsBackupsApart)
    (hallow : ∀ entry ∈ p.config.selectionPolicy.allowList, ∀ node,
      (p.patch.run.run s).2.world.fs.find
        (p.layout.libraryDir.join (Path.keyUnder p.layout.libraryDir entry)) ≠ .ok (k, node))
    (hfind : s.world.fs.find (p.config.backup.policy.path source p.config.backup.suffix.toList
      content) = .ok (k, .file old executable)) :
    (p.patch.run.run s).2.world.fs.nodeAt k = s.world.fs.nodeAt k := by
  have hnode := hfs.nodeAt_of_find hfind
  rcases p.patch_cases s with ⟨hsame, -⟩ | ⟨selected, result, g, hselected, hall, hg, -⟩
  · rw [hsame]
  rw [hg] at hallow ⊢
  refine hall.nodeAt_eq hfs p.knowsPresent_newStore (by simp [hnode]) fun path hpath node => ?_
  obtain ⟨candidate, hcandidate, rfl⟩ := List.mem_map.mp hpath
  rcases mem_selectCandidatesOn hselected hcandidate with
    ⟨-, entry, hentry, heq⟩ | ⟨hscan, -, hpromotable⟩
  · rw [heq]
    exact hallow entry hentry node
  · -- the file was there when it was selected, so it is still where it was
    intro hend
    obtain ⟨l, content', executable', hstart⟩ := exists_find_of_isPromotable hpromotable
    obtain ⟨node', hlater, -⟩ := (hall.written.grows hfs).find hstart
    obtain ⟨rfl, -⟩ := FileSystem.find_inj hlater hend
    exact find_ne_of_scan hlinks hapart hselected hcandidate hscan hfind _ hstart

/-- Every backup that is reported as made by a run of a pipeline is new. What is new after several
runs is not selected by the scan of another run, and no number of further runs changes it, if the
names of backups have none of the extensions that are scanned and the reviewed files were all there
at the start, as far as they are there at all. -/
theorem backups_of_patchRuns (hfs : s.world.fs.IsTree) (hlinks : s.world.fs.IsLinkFree [])
    (hapart : c.KeepsBackupsApart)
    (hallow : ∀ entry ∈ c.allowList, ∀ k node,
      (patchRuns c root s (earlier ++ later)).world.fs.find ((c.layout root).libraryDir.join
        (Path.keyUnder (c.layout root).libraryDir (.ofString entry))) = .ok (k, node) →
      s.world.fs.nodeAt k ≠ none) :
    (∀ before verify after report f backup, earlier = before ++ verify :: after →
      ((ofConfig c root verify false).patch.run.run (patchRuns c root s before)).1 = .ok report →
      f ∈ report.files → f.backup = some backup → backup.created = true →
      ∃ k content executable, s.world.fs.nodeAt k = none ∧
        (patchRuns c root s earlier).world.fs.find backup.path = .ok (k, .file content executable)) ∧
    ∀ k, s.world.fs.nodeAt k = none → (patchRuns c root s earlier).world.fs.nodeAt k ≠ none →
      (∀ selected, selectCandidates (patchRuns c root s earlier).world.fs (c.layout root).libraryDir
          c.selectionPolicy = .ok selected →
        ∀ candidate ∈ selected, candidate.origin = .scan → ∀ node,
          (patchRuns c root s earlier).world.fs.find candidate.path ≠ .ok (k, node)) ∧
      (patchRuns c root s (earlier ++ later)).world.fs.nodeAt k =
        (patchRuns c root s earlier).world.fs.nodeAt k := by
  have hwritten := written_patchRuns c root s
  refine ⟨?made, fun k hk hnew => ⟨?selected, ?kept⟩⟩
  case made =>
    rintro before verify after report f backup rfl hreport hf hbackup hcreated
    have hfs' := (hwritten before).isTree hfs
    rcases (ofConfig c root verify false).patch_cases (patchRuns c root s before) with
      ⟨-, e, herror⟩ | ⟨selected, result, g, -, hall, hg, hresult⟩
    · rw [hreport] at herror
      simp at herror
    · rw [hresult report hreport] at hall
      obtain ⟨k, content, executable, hfree, hfind⟩ :=
        hall.new_of_created hfs' (knowsPresent_newStore _) hf hbackup hcreated
      rw [← hg, ← patchRuns_concat] at hfind
      have hsplit : before ++ verify :: after = (before ++ [verify]) ++ after := by simp
      rw [hsplit, patchRuns_append]
      have hgrows := (written_patchRuns c root _ after).grows ((hwritten (before ++ [verify])).isTree hfs)
      obtain ⟨content', executable', hfind'⟩ := hgrows.find_file hfind
      exact ⟨k, content', executable', ((hwritten before).grows hfs).nodeAt_eq_none hfree, hfind'⟩
  case selected =>
    intro selected hselected candidate hcandidate hscan
    obtain ⟨source, content, old, executable, hfind⟩ := find_of_new_patchRuns hfs hk hnew
    exact find_ne_of_scan ((hwritten earlier).isLinkFree hfs hlinks) hapart hselected hcandidate
      hscan hfind
  case kept =>
    induction later using List.reverseRecOn with
    | nil => rw [List.append_nil]
    | append_singleton later verify ih =>
      have hstep : patchRuns c root s (earlier ++ (later ++ [verify])) =
          ((ofConfig c root verify false).patch.run.run
            (patchRuns c root s (earlier ++ later))).2 := by
        rw [← List.append_assoc, patchRuns_concat]
      have hfs' := (hwritten (earlier ++ later)).isTree hfs
      rw [hstep] at hallow ⊢
      have hsame := ih fun entry hentry k node hfind => by
        obtain ⟨node', hfind', -⟩ := ((written_patch _ _).grows hfs').find hfind
        exact hallow entry hentry k node' hfind'
      obtain ⟨source, content, old, executable, hfind⟩ :=
        find_of_new_patchRuns hfs hk (hsame ▸ hnew)
      rw [← hsame]
      refine nodeAt_patch hfs' ((hwritten (earlier ++ later)).isLinkFree hfs hlinks) hapart
        (fun entry hentry node hpath => ?_) hfind
      obtain ⟨text, htext, rfl⟩ := List.mem_map.mp hentry
      exact hallow text htext k node hpath hk

/-! ### A library with one table -/

namespace Rescan

/-- A library that holds a table. -/
def start : Progress where
  world := {
    fs := ⟨.ofList [(["lib".toList], .directory),
      (["lib".toList, "x.c".toList], .file (bytesOf "static int t[4];\n") false)], []⟩
    env := .empty }

/-- A configuration for the library, with a suffix of backups. -/
def config (suffix : String) : Config :=
  { sourceDir := ".", libraryDir := "lib", allowList := ["x.c"], backup := { suffix } }

/-- The backup that the first run makes is kept by the second one. -/
theorem backups_of_patchRuns_twice :
    start.world.fs.IsTree ∧ start.world.fs.IsLinkFree [] ∧
      (config ".orig").KeepsBackupsApart ∧
      (patchRuns (config ".orig") (.ofString "/") start [false, true]).world.fs.nodeAt
        ["lib".toList, "x.c.orig".toList] = some (.file (bytesOf "static int t[4];\n") false) := by
  have htree : start.world.fs.IsTree := FileSystem.isTree_of_forall (by decide +kernel)
  have hlinks : start.world.fs.IsLinkFree [] := FileSystem.isLinkFree_of_forall (by decide +kernel) []
  have hsuffix : (config ".orig").backup.suffix.toList = [] ++ '.' :: "orig".toList := rfl
  have hapart : (config ".orig").KeepsBackupsApart :=
    Config.keepsBackupsApart_of_extension rfl hsuffix (by decide) (by decide) (by decide) (by decide)
  have hallow : ∀ entry ∈ (config ".orig").allowList, ∀ k node,
      (patchRuns (config ".orig") (.ofString "/") start ([false] ++ [true])).world.fs.find
        (((config ".orig").layout (.ofString "/")).libraryDir.join (Path.keyUnder
          ((config ".orig").layout (.ofString "/")).libraryDir (.ofString entry))) = .ok (k, node) →
      start.world.fs.nodeAt k ≠ none := by
    intro entry hentry k node hfind
    obtain rfl : entry = "x.c" := List.mem_singleton.mp hentry
    have hplace : ((patchRuns (config ".orig") (.ofString "/") start ([false] ++ [true])).world.fs.find
        (((config ".orig").layout (.ofString "/")).libraryDir.join (Path.keyUnder
          ((config ".orig").layout (.ofString "/")).libraryDir (.ofString "x.c")))).map Prod.fst =
        .ok ["lib".toList, "x.c".toList] := by
      decide +kernel
    rw [hfind] at hplace
    obtain rfl : k = ["lib".toList, "x.c".toList] := Except.ok.inj hplace
    decide +kernel
  refine ⟨htree, hlinks, hapart, ?_⟩
  obtain ⟨-, hkept⟩ := backups_of_patchRuns htree hlinks hapart hallow
  have hmade : (patchRuns (config ".orig") (.ofString "/") start [false]).world.fs.nodeAt
      ["lib".toList, "x.c.orig".toList] = some (.file (bytesOf "static int t[4];\n") false) := by
    decide +kernel
  rw [← hmade]
  exact (hkept ["lib".toList, "x.c.orig".toList] (by decide +kernel) (by rw [hmade]; simp)).2

/-- With a suffix that has the extension of the scanned files, the second run takes the backup of
the first one for a source file and promotes it. -/
theorem backup_promoted :
    start.world.fs.IsTree ∧ start.world.fs.IsLinkFree [] ∧ (config ".c").fault? = none ∧
      (patchRuns (config ".c") (.ofString "/") start [false]).world.fs.nodeAt
        ["lib".toList, "x.c.c".toList] = some (.file (bytesOf "static int t[4];\n") false) ∧
      (patchRuns (config ".c") (.ofString "/") start [false, false]).world.fs.nodeAt
        ["lib".toList, "x.c.c".toList] = some (.file (bytesOf "static const int t[4];\n") false) :=
  ⟨FileSystem.isTree_of_forall (by decide +kernel),
    FileSystem.isLinkFree_of_forall (by decide +kernel) [], by decide, by decide +kernel,
    by decide +kernel⟩

end Rescan

end Pipeline
end ConstPromotion
