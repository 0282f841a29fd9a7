import ConstPromotion.Proofs.Pipeline.Backups

/-!
# The stages of a run

A run of a pipeline that was just made stops at its first failure, in the state of the last stage
that it completed. It hands the request to the backend once, after all files were promoted, and what
it makes of the answer is a function of that answer alone (`Pipeline.afterBuild`): so the backend is
called once or not at all, and so is the inspector for the archive (`Pipeline.stages_of_freshRun`).
-/

namespace ConstPromotion.Pipeline

variable {p : Pipeline} {w : World} {report : PatchReport} {inspector : SectionInspector}
  {result : Except PipelineError PipelineOutcome} {s : Progress}

/-- A run of a pipeline that was just made. -/
def freshRun (p : Pipeline) (backend : BuildBackend) (inspector : SectionInspector) (w : World) :
    Except PipelineError PipelineOutcome × Progress :=
  (p.run backend inspector).run.run ⟨w, .notStarted⟩

/-! ### After the build -/

/-- What a run makes of the end of a verification. -/
def afterVerify (report : PatchReport) (artifact : BuildArtifact) :
    Except VerifyError VerificationResult × World →
      Except PipelineError PipelineOutcome × Progress
  | (.error e, w) => (.error (.verify e), ⟨w, .built⟩)
  | (.ok r, w) =>
    (.ok ⟨w.clock, .verified r.verdict, report, some artifact, some r⟩, ⟨w, .verified r.verdict⟩)

/-- What a run makes of the end of a build. -/
def afterBuild (p : Pipeline) (inspector : SectionInspector) (report : PatchReport) :
    Except BuildError BuildArtifact × World → Except PipelineError PipelineOutcome × Progress
  | (.error e, w) => (.error (.build e), ⟨w, .patched⟩)
  | (.ok artifact, w) =>
    if p.verify then
      afterVerify report artifact
        ((verifyArchive inspector p.config.annotationSection none artifact.path).run.run w)
    else (.ok ⟨w.clock, .built, report, some artifact, none⟩, ⟨w, .built⟩)

lemma run_inWorld {ε α : Type} (wrap : ε → PipelineError) (a : Action ε α) (s : Progress) :
    (inWorld wrap a).run.run s =
      ((a.run.run s.world).1.mapError wrap, { s with world := (a.run.run s.world).2 }) := rfl

lemma run_build (p : Pipeline) (backend : BuildBackend) (w : World) :
    (p.build backend).run.run ⟨w, .patched⟩ =
      match (backend.build p.request).run.run w with
      | (.ok artifact, w) => (.ok artifact, ⟨w, .built⟩)
      | (.error e, w) => (.error (.build e), ⟨w, .patched⟩) := by
  rw [build, Attempt.run_bind, run_inWorld]
  rcases (backend.build p.request).run.run w with ⟨_ | artifact, w⟩ <;> rfl

lemma run_verifyArtifact (p : Pipeline) (inspector : SectionInspector) (archive : Path)
    (w : World) :
    (p.verifyArtifact inspector archive).run.run ⟨w, .built⟩ =
      match (verifyArchive inspector p.config.annotationSection none archive).run.run w with
      | (.ok r, w) => (.ok r, ⟨w, .verified r.verdict⟩)
      | (.error e, w) => (.error (.verify e), ⟨w, .built⟩) := by
  rw [verifyArtifact, Attempt.run_bind, run_inWorld]
  rcases (verifyArchive inspector p.config.annotationSection none archive).run.run w with
    ⟨_ | r, w⟩ <;> rfl

/-- All that a run can come to once the files are promoted. -/
lemma afterBuild_cases {built : Except BuildError BuildArtifact × World}
    (h : p.afterBuild inspector report built = (result, s)) :
    (∃ e w, built = (.error e, w) ∧ result = .error (.build e) ∧ s = ⟨w, .patched⟩) ∨
      (∃ artifact w, built = (.ok artifact, w) ∧ p.verify = false ∧
        result = .ok ⟨w.clock, .built, report, some artifact, none⟩ ∧ s = ⟨w, .built⟩) ∨
      (∃ e w, p.verify = true ∧ result = .error (.verify e) ∧ s = ⟨w, .built⟩) ∨
      ∃ artifact r w, p.verify = true ∧
        result = .ok ⟨w.clock, .verified r.verdict, report, some artifact, some r⟩ ∧
        s = ⟨w, .verified r.verdict⟩ := by
  rcases built with ⟨e | artifact, w⟩
  · obtain ⟨rfl, rfl⟩ := Prod.mk.inj h
    exact .inl ⟨e, w, rfl, rfl, rfl⟩
  rw [afterBuild] at h
  by_cases hverify : p.verify = true
  · rw [if_pos hverify] at h
    rcases hverified : (verifyArchive inspector p.config.annotationSection none
      artifact.path).run.run w with ⟨e | r, w₁⟩
    all_goals rw [hverified] at h
    · obtain ⟨rfl, rfl⟩ := Prod.mk.inj h
      exact .inr (.inr (.inl ⟨e, w₁, hverify, rfl, rfl⟩))
    · obtain ⟨rfl, rfl⟩ := Prod.mk.inj h
      exact .inr (.inr (.inr ⟨artifact, r, w₁, hverify, rfl, rfl⟩))
  · rw [if_neg hverify] at h
    obtain ⟨rfl, rfl⟩ := Prod.mk.inj h
    exact .inr (.inl ⟨artifact, w, rfl, by simpa using hverify, rfl, rfl⟩)

/-- An outcome is turned into an error exactly if the verdict is a failure. -/
lemma exists_violation?_iff {o : PipelineOutcome} {r : VerificationResult}
    (h : o.verification = some r) : (∃ e, o.violation? = some e) ↔ r.verdict = .fail := by
  simp only [PipelineOutcome.violation?, h, Option.bind_some, VerificationResult.violation?,
    VerificationResult.verdict]
  split <;> simp
  split <;> simp

/-! ### Up to the build -/

/-- Each of the selected files was handled, in order, and not only in a dry run. -/
def Handles (selected : List Candidate) (report : PatchReport) : Prop :=
  List.Forall₂ (fun c f => f.path = c.path ∧ f.status ≠ .dryRun) selected report.files

/-- All that can happen before a build, whatever the backend and the inspector are. -/
inductive Opening (p : Pipeline) (w : World) : Prop where
  /-- The directory of the library is missing. -/
  | missing (hsource : w.fs.isDirectory p.layout.libraryDir = false)
    (hrun : ∀ backend inspector, p.freshRun backend inspector w =
      (.error (.missingSource p.layout.libraryDir), ⟨w, .notStarted⟩))
  /-- A file cannot be promoted. -/
  | unpatched (cause : PatchError) (w₁ : World)
    (hsource : w.fs.isDirectory p.layout.libraryDir = true)
    (hrun : ∀ backend inspector, p.freshRun backend inspector w =
      (.error (.patch cause), ⟨w₁, .notStarted⟩))
  /-- Nothing is to be written. -/
  | dry (report : PatchReport) (hsource : w.fs.isDirectory p.layout.libraryDir = true)
    (hdry : p.dryRun = true)
    (hrun : ∀ backend inspector, p.freshRun backend inspector w =
      (.ok ⟨w.clock, .patched, report, none, none⟩, ⟨w, .patched⟩))
  /-- All files are promoted. -/
  | ready (selected : List Candidate) (report : PatchReport) (g : Guarded)
    (hsource : w.fs.isDirectory p.layout.libraryDir = true) (hdry : p.dryRun = false)
    (hselected : selectCandidates w.fs p.layout.libraryDir p.config.selectionPolicy = .ok selected)
    (hhandled : Handles selected report)
    (hpass : (patchFiles p.patchOptions false (selected.map Candidate.path)).run.run
      ⟨w.fs, p.newStore⟩ = (.ok report, g))
    (hpatch : p.patch.run.run ⟨w, .notStarted⟩ = (.ok report, ⟨{ w with fs := g.fs }, .patched⟩))
    (hrun : ∀ backend inspector, p.freshRun backend inspector w =
      p.afterBuild inspector report ((backend.build p.request).run.run { w with fs := g.fs }))

/-- Selection does not fail where the directory of the library is. -/
lemma exists_run_candidates {s : Progress}
    (hsource : s.world.fs.isDirectory p.layout.libraryDir = true) :
    ∃ selected, selectCandidates s.world.fs p.layout.libraryDir p.config.selectionPolicy =
      .ok selected ∧ p.candidates.run.run s = (.ok selected, s) := by
  obtain ⟨selected, hselect⟩ : ∃ selected, selectCandidates s.world.fs p.layout.libraryDir
      p.config.selectionPolicy = .ok selected :=
    exists_selectCandidatesOn ((Disk.isDirectory_eq rfl).trans hsource)
  have hensure := run_ensureSource p s
  rw [if_pos hsource] at hensure
  refine ⟨selected, hselect, ?_⟩
  rw [candidates, Attempt.run_bind_ok hensure, Attempt.run_bind, Attempt.run_query]
  simp only [HasFiles.files, id_eq, hselect]
  rfl

/-- What a run makes of the end of a pass over files. -/
def afterPatch (s : Progress) : Except PatchError PatchReport × Guarded →
    Except PipelineError PatchReport × Progress
  | (.error e, g) => (.error (.patch e), { s with world := { s.world with fs := g.fs } })
  | (.ok report, g) => (.ok report, ⟨{ s.world with fs := g.fs }, .patched⟩)

/-- Promotion is a pass over the selected files. -/
lemma run_patch {s : Progress} {selected : List Candidate}
    (hselected : selectCandidates s.world.fs p.layout.libraryDir p.config.selectionPolicy =
      .ok selected) :
    p.patch.run.run s = afterPatch s ((patchFiles p.patchOptions p.dryRun
      (selected.map Candidate.path)).run.run ⟨s.world.fs, p.newStore⟩) := by
  obtain ⟨selected', hselected', hcandidates⟩ :=
    exists_run_candidates (isDirectory_of_selectCandidatesOn hselected)
  obtain rfl := Except.ok.inj (hselected'.symm.trans hselected)
  rw [patch, Attempt.run_bind_ok hcandidates]
  simp only [Attempt.run_bind, Attempt.run_wrapping, Attempt.onFiles, Attempt.run_onPart,
    patchPaths, HasFiles.files, HasFiles.withFiles]
  rcases (patchFiles p.patchOptions p.dryRun (selected'.map Candidate.path)).run.run
    ⟨s.world.fs, p.newStore⟩ with ⟨cause | report, g⟩ <;> rfl

/-- Promotion where the directory of the library is there. -/
lemma run_patch_cases (hsource : w.fs.isDirectory p.layout.libraryDir = true) :
    (∃ cause w₁, p.patch.run.run ⟨w, .notStarted⟩ = (.error (.patch cause), ⟨w₁, .notStarted⟩)) ∨
      ∃ selected report g,
        p.patch.run.run ⟨w, .notStarted⟩ = (.ok report, ⟨{ w with fs := g.fs }, .patched⟩) ∧
        selectCandidates w.fs p.layout.libraryDir p.config.selectionPolicy = .ok selected ∧
        (patchFiles p.patchOptions p.dryRun (selected.map Candidate.path)).run.run
          ⟨w.fs, p.newStore⟩ = (.ok report, g) ∧
        (p.dryRun = false → Handles selected report) ∧ (p.dryRun = true → g.fs = w.fs) := by
  obtain ⟨selected, hselected, -⟩ :=
    exists_run_candidates (p := p) (s := ⟨w, .notStarted⟩) hsource
  have hall := patchingAll_patchFiles p.patchOptions p.dryRun (selected.map Candidate.path)
    ⟨w.fs, p.newStore⟩
  rw [run_patch hselected]
  rcases hrun : (patchFiles p.patchOptions p.dryRun (selected.map Candidate.path)).run.run
    ⟨w.fs, p.newStore⟩ with ⟨cause | report, g⟩
  · exact .inl ⟨cause, _, rfl⟩
  rw [hrun] at hall
  refine .inr ⟨selected, report, g, rfl, hselected, hrun, ?_, ?_⟩
  · intro hdry
    have hfiles := List.forall₂_map_left_iff.mp hall.forall₂_files
    exact hfiles.imp fun _ _ hf => ⟨hf.1, hf.2 hdry⟩
  · intro hdry
    rw [hdry] at hall
    have hsame : g = _ := hall.eq_of_dryRun
    rw [hsame]

/-- A run begins in one of these ways. -/
theorem opening (p : Pipeline) (w : World) : p.Opening w := by
  have hensure := run_ensureSource p ⟨w, .notStarted⟩
  by_cases hsource : w.fs.isDirectory p.layout.libraryDir = true
  · rw [if_pos hsource] at hensure
    rcases run_patch_cases hsource with
      ⟨cause, w₁, hpatch⟩ | ⟨selected, report, g, hpatch, hselected, hpass, hhandled, hdry⟩
    · apply Opening.unpatched cause w₁ hsource
      intro backend inspector
      rw [freshRun, run, Attempt.run_bind_ok hensure, Attempt.run_bind_error hpatch]
    cases hdryRun : p.dryRun with
    | true =>
      rw [hdry hdryRun] at hpatch
      apply Opening.dry report hsource hdryRun
      intro backend inspector
      rw [freshRun, run, Attempt.run_bind_ok hensure, Attempt.run_bind_ok hpatch, if_pos hdryRun]
      rfl
    | false =>
      rw [hdryRun] at hpass
      apply Opening.ready selected report g hsource hdryRun hselected (hhandled hdryRun) hpass hpatch
      intro backend inspector
      rw [freshRun, run, Attempt.run_bind_ok hensure, Attempt.run_bind_ok hpatch,
        if_neg (by simp [hdryRun]), Attempt.run_bind, run_build]
      rcases (backend.build p.request).run.run { w with fs := g.fs } with ⟨e | artifact, w₂⟩
      · rfl
      simp only [afterBuild]
      by_cases hverify : p.verify = true
      · rw [if_pos hverify, if_pos hverify, Attempt.run_bind, run_verifyArtifact]
        rcases (verifyArchive inspector p.config.annotationSection none artifact.path).run.run w₂
          with ⟨e | r, w₃⟩ <;> rfl
      · rw [if_neg hverify, if_neg hverify]
        rfl
  · rw [if_neg hsource] at hensure
    apply Opening.missing (by simpa using hsource)
    intro backend inspector
    rw [freshRun, run, Attempt.run_bind_error hensure]

/-! ### Runs -/

/-- A run stops at its first failure. It ends in the state of the last stage that it completed, with
the results of the stages up to there, and with the files as that stage left them; the backend is
called once if all files were promoted and the run is no dry one, and not at all otherwise, and the
inspector only after a build that ended well. -/
theorem stages_of_freshRun (p : Pipeline) (backend : BuildBackend) (inspector : SectionInspector)
    (w : World) :
    ∃ result s, p.freshRun backend inspector w = (result, s) ∧
      -- the run is the same with any backend and inspector, so none is called
      let Uncalled := ∀ backend' inspector', p.freshRun backend' inspector' w = (result, s)
      ((∃ path, result = .error (.missingSource path)) ↔
        w.fs.isDirectory p.layout.libraryDir = false) ∧
      (∀ path, result = .error (.missingSource path) →
        s = ⟨w, .notStarted⟩ ∧ Uncalled) ∧
      (∀ e, result ≠ .error (.selection e)) ∧
      (∀ e, result = .error (.patch e) → s.state = .notStarted ∧ Uncalled) ∧
      (p.dryRun = true → ∀ o, result = .ok o →
        o.state = .patched ∧ o.artifact = none ∧ o.verification = none ∧ s = ⟨w, .patched⟩ ∧
          Uncalled) ∧
      (p.dryRun = false → w.fs.isDirectory p.layout.libraryDir = true →
        (∀ e, result ≠ .error (.patch e)) →
        ∃ selected report g,
          selectCandidates w.fs p.layout.libraryDir p.config.selectionPolicy = .ok selected ∧
          (patchFiles p.patchOptions false (selected.map Candidate.path)).run.run
            ⟨w.fs, p.newStore⟩ = (.ok report, g) ∧
          p.patch.run.run ⟨w, .notStarted⟩ = (.ok report, ⟨{ w with fs := g.fs }, .patched⟩) ∧
          Handles selected report ∧
          ∀ backend' inspector', p.freshRun backend' inspector' w =
            p.afterBuild inspector' report
              ((backend'.build p.request).run.run { w with fs := g.fs })) ∧
      (∀ e, result = .error (.build e) → s.state = .patched ∧
        (∀ inspector', p.freshRun backend inspector' w = (result, s)) ∧
        ∃ report w₁, p.patch.run.run ⟨w, .notStarted⟩ = (.ok report, ⟨w₁, .patched⟩) ∧
          (backend.build p.request).run.run w₁ = (.error e, s.world)) ∧
      (p.dryRun = false → p.verify = false → ∀ o, result = .ok o →
        o.state = .built ∧ s.state = .built ∧ o.artifact.isSome ∧ o.verification = none ∧
          ∀ inspector', p.freshRun backend inspector' w = (result, s)) ∧
      (∀ e, result = .error (.verify e) → s.state = .built) ∧
      (p.dryRun = false → p.verify = true → ∀ o, result = .ok o →
        ∃ r, o.artifact.isSome ∧ o.verification = some r ∧ o.state = .verified r.verdict ∧
          s.state = .verified r.verdict ∧
          ((∃ e, o.violation? = some e) ↔ r.verdict = .fail)) := by
  cases p.opening w with
  | missing hsource hrun =>
    refine ⟨_, _, hrun backend inspector, ?_⟩
    simp [hsource, hrun]
  | unpatched cause w₁ hsource hrun =>
    refine ⟨_, _, hrun backend inspector, ?_⟩
    simp [hsource, hrun]
  | dry report hsource hdry hrun =>
    refine ⟨_, _, hrun backend inspector, ?_⟩
    simp [hsource, hdry, hrun]
  | ready selected report g hsource hdry hselected hhandled hpass hpatch hrun =>
    rcases hbuilt : p.afterBuild inspector report
      ((backend.build p.request).run.run { w with fs := g.fs }) with ⟨result, s⟩
    refine ⟨result, s, (hrun backend inspector).trans hbuilt, ?_⟩
    have hcalled := And.intro hselected (And.intro hpass (And.intro hpatch
      (And.intro hhandled hrun)))
    rcases afterBuild_cases hbuilt with ⟨e, w₂, hanswer, rfl, rfl⟩ |
      ⟨artifact, w₂, hanswer, hverify, rfl, rfl⟩ | ⟨e, w₂, hverify, rfl, rfl⟩ |
      ⟨artifact, r, w₂, hverify, rfl, rfl⟩
    · refine ⟨by simp [hsource], by simp, by simp, by simp, by simp [hdry],
        fun _ _ _ => ⟨_, _, _, hcalled⟩, ?_, by simp, by simp, by simp⟩
      rintro _ ⟨⟩
      exact ⟨rfl, fun _ => by rw [hrun, hanswer, afterBuild], report, _, hpatch, hanswer⟩
    · refine ⟨by simp [hsource], by simp, by simp, by simp, by simp [hdry],
        fun _ _ _ => ⟨_, _, _, hcalled⟩, by simp, ?_, by simp, by simp [hverify]⟩
      rintro _ _ _ ⟨⟩
      exact ⟨rfl, rfl, rfl, rfl, fun _ => by simp [hrun, hanswer, afterBuild, hverify]⟩
    · exact ⟨by simp [hsource], by simp, by simp, by simp, by simp [hdry],
        fun _ _ _ => ⟨_, _, _, hcalled⟩, by simp, by simp, by simp, by simp⟩
    · refine ⟨by simp [hsource], by simp, by simp, by simp, by simp [hdry],
        fun _ _ _ => ⟨_, _, _, hcalled⟩, by simp, by simp [hverify], by simp, ?_⟩
      rintro _ _ _ ⟨⟩
      exact ⟨r, rfl, rfl, rfl, rfl, exists_violation?_iff rfl⟩

end ConstPromotion.Pipeline
