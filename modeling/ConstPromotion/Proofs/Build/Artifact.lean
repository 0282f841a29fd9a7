import ConstPromotion.Build.Artifact
import ConstPromotion.Proofs.Attempt
import ConstPromotion.Proofs.FileSystem.Writing

/-!
# What collecting an archive does to it

Collecting leaves the archive of a build where it is, and copies it into the output directory unless
the output path is spelled like that of the archive (`collecting_collectArtifact`). An output path
that leads to the archive under another spelling goes unnoticed, and there the copy empties the
archive. Everywhere else the archive is kept, and what is collected is the same
(`read_of_collectArtifact`).
-/

namespace ConstPromotion

variable {r : BuildRequest} {fs fs' : FileSystem} {content : Bytes}

/-! ### What collecting can do -/

/-- All that collecting an archive can do. -/
inductive Collecting (r : BuildRequest) (fs : FileSystem) :
    Except BuildError BuildArtifact → FileSystem → Prop where
  /-- The build left no archive. -/
  | missing (hfile : fs.isFile r.builtArchive = false) :
    Collecting r fs (.error (.missingArtifact r.builtArchive)) fs
  /-- The archive is spelled like the place where it is to be copied. -/
  | inPlace (content : Bytes) (hsame : r.archive.same r.builtArchive = true)
    (hread : fs.read r.builtArchive = .ok content) :
    Collecting r fs (.ok ⟨r.builtArchive, content.length⟩) fs
  /-- The output directory cannot be made. -/
  | unmade (e : OsError) (made : FileSystem)
    (hmake : fs.createDirectories r.outputDir = (.error e, made)) :
    Collecting r fs (.error (.copy r.outputDir e)) made
  /-- The archive cannot be copied. -/
  | uncopied (e : OsError) (made : FileSystem)
    (hmake : fs.createDirectories r.outputDir = (.ok (), made))
    (hcopy : made.copy r.builtArchive r.archive = .error e) :
    Collecting r fs (.error (.copy r.archive e)) made
  /-- The archive is copied. -/
  | copied (size : Nat) (made fs' : FileSystem) (hsame : r.archive.same r.builtArchive = false)
    (hmake : fs.createDirectories r.outputDir = (.ok (), made))
    (hcopy : made.copy r.builtArchive r.archive = .ok (size, fs')) :
    Collecting r fs (.ok ⟨r.archive, size⟩) fs'

theorem collecting_collectArtifact (r : BuildRequest) (fs : FileSystem) :
    Collecting r fs ((collectArtifact r).run.run fs).1 ((collectArtifact r).run.run fs).2 := by
  rw [collectArtifact, Attempt.run_bind, Attempt.run_get]
  cases hfile : fs.isFile r.builtArchive with
  | false =>
    simp only [hfile, Bool.not_false, if_true, Attempt.run_bind, Attempt.run_throw]
    exact .missing hfile
  | true =>
    cases hsame : r.archive.same r.builtArchive with
    | true =>
      obtain ⟨l, content, executable, hfind⟩ := FileSystem.isFile_iff.mp hfile
      have hartifact : fs.artifact r.builtArchive = .ok ⟨r.builtArchive, content.length⟩ := by
        rw [FileSystem.artifact, hfind]
      simp only [hfile, hartifact, Bool.not_true, Bool.false_eq_true, if_false, if_true,
        Attempt.run_pure]
      exact .inPlace content hsame (FileSystem.read_eq_ok_iff.mpr ⟨l, executable, hfind⟩)
    | false =>
      rcases hmake : fs.createDirectories r.outputDir with ⟨e | _, made⟩
      · simp only [hfile, Bool.not_true, Bool.false_eq_true, if_false, Attempt.run_bind,
          Attempt.run_wrapping, Attempt.run_createDirectories, HasFiles.files, HasFiles.withFiles,
          id, hmake, Except.mapError]
        exact .unmade e made hmake
      · cases hcopy : made.copy r.builtArchive r.archive with
        | error e =>
          simp only [hfile, Bool.not_true, Bool.false_eq_true, if_false, Attempt.run_bind,
            Attempt.run_wrapping, Attempt.run_createDirectories, Attempt.run_copyBytes,
            HasFiles.files, HasFiles.withFiles, id, hmake, hcopy, Except.mapError]
          exact .uncopied e made hmake hcopy
        | ok copied =>
          simp only [hfile, Bool.not_true, Bool.false_eq_true, if_false, Attempt.run_bind,
            Attempt.run_wrapping, Attempt.run_createDirectories, Attempt.run_copyBytes,
            Attempt.run_pure, HasFiles.files, HasFiles.withFiles, id, hmake, hcopy, Except.mapError]
          exact .copied copied.1 made copied.2 hsame hmake hcopy

/-! ### The archive afterwards -/

/-- The output path leads to the archive of the build, once the output directory is made, and is not
spelled like it. -/
def BuildRequest.IsAliased (r : BuildRequest) (fs : FileSystem) : Prop :=
  r.archive.same r.builtArchive = false ∧
    (fs.createDirectories r.outputDir).2.SamePlace r.builtArchive r.archive

instance (r : BuildRequest) (fs : FileSystem) : Decidable (r.IsAliased fs) :=
  inferInstanceAs (Decidable (_ ∧ _))

namespace Collecting

/-- Where collecting fails, the archive is kept. -/
lemma read_of_error {e : BuildError} (h : Collecting r fs (.error e) fs') (hfs : fs.IsTree)
    (hread : fs.read r.builtArchive = .ok content) : fs'.read r.builtArchive = .ok content := by
  have hmade := (hfs.createDirectories r.outputDir).2.read hread
  cases h with
  | missing => exact hread
  | unmade e made hmake => rwa [hmake] at hmade
  | uncopied e made hmake => rwa [hmake] at hmade

/-- Where collecting succeeds, the archive and what is collected have the same content. -/
lemma read_of_ok {a : BuildArtifact} (h : Collecting r fs (.ok a) fs') (hfs : fs.IsTree)
    (hread : fs.read r.builtArchive = .ok content) :
    let collected := if r.IsAliased fs then [] else content
    a.size = collected.length ∧ fs'.read a.path = .ok collected ∧
      fs'.read r.builtArchive = .ok collected := by
  intro collected
  cases h with
  | inPlace content' hsame hread' =>
    obtain rfl := Except.ok.inj (hread'.symm.trans hread)
    have hnot : ¬ r.IsAliased fs := by
      rintro ⟨hdiffer, -⟩
      simp [hsame] at hdiffer
    rw [show collected = content' from if_neg hnot]
    exact ⟨rfl, hread, hread⟩
  | copied size made fs' hsame hmake hcopy =>
    obtain ⟨htree, hextends⟩ := hfs.createDirectories r.outputDir
    have haliased : r.IsAliased fs ↔ made.SamePlace r.builtArchive r.archive := by
      rw [BuildRequest.IsAliased, hmake]
      exact and_iff_right hsame
    rw [hmake] at htree hextends
    have hcopied := FileSystem.read_of_copy htree (hextends.read hread) hcopy
    rwa [← if_congr haliased rfl rfl] at hcopied

end Collecting

/-- Collecting keeps the archive of a build, and what is collected has its content and its size,
unless the output path leads to the archive under another spelling: then both are the same file,
which is empty afterwards. Where collecting fails, the archive is kept in any case. -/
theorem read_of_collectArtifact (hfs : fs.IsTree) (hread : fs.read r.builtArchive = .ok content) :
    (∀ e fs', (collectArtifact r).run.run fs = (.error e, fs') →
      fs'.read r.builtArchive = .ok content) ∧
    ∀ a fs', (collectArtifact r).run.run fs = (.ok a, fs') →
      (¬ r.IsAliased fs → a.size = content.length ∧ fs'.read a.path = .ok content ∧
        fs'.read r.builtArchive = .ok content) ∧
      (r.IsAliased fs → a.size = 0 ∧ fs'.read a.path = .ok [] ∧
        fs'.read r.builtArchive = .ok []) := by
  have hcollecting := collecting_collectArtifact r fs
  constructor
  · intro e fs' hrun
    rw [hrun] at hcollecting
    exact hcollecting.read_of_error hfs hread
  · intro a fs' hrun
    rw [hrun] at hcollecting
    have hcollected := hcollecting.read_of_ok hfs hread
    constructor
    · intro hnot
      rwa [if_neg hnot] at hcollected
    · intro haliased
      rwa [if_pos haliased] at hcollected

/-! ### An archive of six bytes -/

namespace Collected

/-- A directory that holds an archive. -/
def tree : FileSystem :=
  ⟨.ofList [(["lib".toList], .directory),
    (["lib".toList, "libx.a".toList], .file (bytesOf "!<ar>\n") false)], []⟩

/-- A build below the root, with an output directory. -/
def config (outputDir : String) : Config :=
  { sourceDir := ".", libraryDir := "lib", archiveName := "libx.a", outputDir }

/-- The request of such a build. -/
def request (outputDir : String) : BuildRequest :=
  .ofConfig (config outputDir) ((config outputDir).layout (.ofString "/"))

/-- The archive is copied into a directory that is made for it. -/
theorem read_of_collectArtifact_made :
    tree.IsTree ∧ tree.read (request "out/new").builtArchive = .ok (bytesOf "!<ar>\n") ∧
      ¬ (request "out/new").IsAliased tree ∧
      ∃ a fs', (collectArtifact (request "out/new")).run.run tree = (.ok a, fs') ∧
        a = ⟨.ofString "/out/new/libx.a", 6⟩ ∧ fs'.read a.path = .ok (bytesOf "!<ar>\n") ∧
        fs'.read (request "out/new").builtArchive = .ok (bytesOf "!<ar>\n") := by
  have htree : tree.IsTree := FileSystem.isTree_of_forall (by decide)
  have hread : tree.read (request "out/new").builtArchive = .ok (bytesOf "!<ar>\n") := by decide
  have hnot : ¬ (request "out/new").IsAliased tree := by decide
  have hresult : ((collectArtifact (request "out/new")).run.run tree).1 =
      .ok ⟨.ofString "/out/new/libx.a", 6⟩ := by decide
  obtain ⟨-, hpath, hbuilt⟩ :=
    ((read_of_collectArtifact htree hread).2 _ _ (Prod.fst_eq_iff.mp hresult)).1 hnot
  exact ⟨htree, hread, hnot, _, _, Prod.fst_eq_iff.mp hresult, rfl, hpath, hbuilt⟩

/-- An output directory that is the directory of the library, spelled with `..`: the archive is
reported with no bytes, and nothing is left of it. -/
theorem emptied_under_other_spelling :
    tree.IsTree ∧ tree.read (request "lib/../lib").builtArchive = .ok (bytesOf "!<ar>\n") ∧
      ((collectArtifact (request "lib/../lib")).run.run tree).1 =
        .ok ⟨.ofString "/lib/../lib/libx.a", 0⟩ ∧
      ((collectArtifact (request "lib/../lib")).run.run tree).2.read
        (request "lib/../lib").builtArchive = .ok [] :=
  ⟨FileSystem.isTree_of_forall (by decide), by decide, by decide, by decide⟩

end Collected

end ConstPromotion
