import ConstPromotion.Command.Perform
import ConstPromotion.Proofs.Pipeline.Stages
import ConstPromotion.Proofs.Toolchain

/-!
# Runs that lack a tool

A run asks for tools twice: for those that it requires, before anything else, and for the listing
tool when its inspector is made. It fails for want of a tool just where one of the two does not find
what it asks for, and then nothing was changed (`isMissingTool_perform_run_iff`). The listing tool
is asked for whenever it is selected, also where no archive is going to be verified.
-/

namespace ConstPromotion

/-- A command failed because a tool is missing. -/
inductive CommandError.IsMissingTool : CommandError → Prop where
  | environment (cause : ToolchainError) : IsMissingTool (.pipeline (.environment cause))
  | inspector (tool : String) : IsMissingTool (.missingInspector tool)

/-- The tools that a run requires: those of a build, if it builds, and those of its verification. -/
def RunOptions.requirements (options : RunOptions) (c : Config) (kind : InspectorKind) :
    List ToolRequirement :=
  c.requirements options.verify (!options.noBuild && !options.dryRun) kind

variable {w w' : World} {c : Config} {file : Option Path} {kind : InspectorKind} {root : Path}
  {json : Bool} {options : RunOptions} {e : CommandError}

/-! ### The two checks -/

lemma run_fromStart {α : Type} (step : Step α) (w : World) :
    (fromStart step).run.run w =
      ((step.run.run ⟨w, .notStarted⟩).1.mapError .pipeline,
        (step.run.run ⟨w, .notStarted⟩).2.world) := rfl

/-- The first check asks for the tools that the run requires. -/
lemma run_checkRequirements (c : Config) (root : Path) (options : RunOptions)
    (kind : InspectorKind) (w : World) :
    (fromStart ((Pipeline.ofConfig c root options.verify options.dryRun).checkEnvironment
      (!options.noBuild && !options.dryRun) kind)).run.run w =
      ((w.checkTools (options.requirements c kind)).mapError fun e => .pipeline (.environment e),
        w) := by
  rw [run_fromStart, run_checkEnvironment]
  change (((w.checkTools (options.requirements c kind)).mapError _).mapError _, w) = _
  cases w.checkTools (options.requirements c kind) <;> rfl

lemma run_inspectorKind {name : String} (h : InspectorKind.ofName? name = some kind) :
    (inspectorKind name).run.run w = (.ok kind, w) := by
  rw [inspectorKind, h]
  rfl

lemma run_inspectorOf_of_missing (h : w.resolveTool c.tools.readelf = none) :
    (inspectorOf .readelf c).run.run w = (.error (.missingInspector c.tools.readelf), w) := by
  rw [inspectorOf, Attempt.run_bind, Attempt.run_get]
  simp only [h]
  rfl

lemma exists_run_inspectorOf (h : kind = .readelf → w.resolveTool c.tools.readelf ≠ none) :
    ∃ inspector, (inspectorOf kind c).run.run w = (.ok inspector, w) := by
  cases kind with
  | builtin => exact ⟨elfInspector, rfl⟩
  | readelf =>
    obtain ⟨tool, htool⟩ := Option.ne_none_iff_exists'.mp (h rfl)
    refine ⟨listingInspector tool, ?_⟩
    rw [inspectorOf, Attempt.run_bind, Attempt.run_get]
    simp only [htool]
    rfl

/-! ### After the checks -/

lemma raises_printOutput {ε : Type} (P : ε → Prop) (lines : List OutputLine) :
    Attempt.Raises P (printOutput lines : Action ε Unit) := by
  rw [printOutput]
  induction lines with
  | nil => exact .pure _
  | cons line lines ih =>
    refine .bind (.of_run_ok fun w => ?_) fun _ => ih
    cases line <;> exact ⟨_, _, rfl⟩

/-- What comes after the check of the environment finds no tool missing. -/
lemma Pipeline.freshRun_ne_environment (p : Pipeline) (backend : BuildBackend)
    (inspector : SectionInspector) (w : World) (cause : ToolchainError) :
    (p.freshRun backend inspector w).1 ≠ .error (.environment cause) := by
  cases p.opening w with
  | missing _ hrun | unpatched _ _ _ hrun | dry _ _ _ hrun => simp [hrun]
  | ready selected report g _ _ _ _ _ _ hrun =>
    rw [hrun]
    rcases hbuilt : p.afterBuild inspector report
      ((backend.build p.request).run.run { w with fs := g.fs }) with ⟨result, s⟩
    rcases afterBuild_cases hbuilt with ⟨e, _, _, rfl, _⟩ | ⟨_, _, _, _, rfl, _⟩ |
      ⟨e, _, _, rfl, _⟩ | ⟨_, _, _, _, rfl, _⟩
    all_goals simp

/-- A pipeline finds no tool missing, and neither does what is made of its outcome. -/
lemma raises_run (p : Pipeline) (backend : BuildBackend) (inspector : SectionInspector)
    {report : PipelineOutcome → Action CommandError Unit}
    (hreport : ∀ o, Attempt.Raises (¬ ·.IsMissingTool) (report o)) :
    Attempt.Raises (¬ ·.IsMissingTool) (do
      let outcome ← fromStart (p.run backend inspector)
      report outcome
      if let some e := outcome.violation? then throw (.pipeline e)) := by
  refine .bind ?_ fun outcome => .bind (hreport outcome) fun _ => ?_
  · -- the pipeline has no errors of the environment; the check for tools was before it
    intro w e w' hrun hmissing
    rw [run_fromStart] at hrun
    have hkind := p.freshRun_ne_environment backend inspector w
    rw [Pipeline.freshRun] at hkind
    rcases hpipeline : (p.run backend inspector).run.run ⟨w, .notStarted⟩ with ⟨cause | o, s⟩
    · rw [hpipeline] at hrun hkind
      cases hrun
      cases hmissing with
      | environment cause => exact hkind cause rfl
    · rw [hpipeline] at hrun
      cases hrun
  · split
    next cause hcause =>
      refine .throw ?_
      rintro ⟨cause⟩
      obtain ⟨r, -, hviolation⟩ := Option.bind_eq_some_iff.mp hcause
      rw [VerificationResult.violation?] at hviolation
      split_ifs at hviolation
      cases hviolation
    next => exact .pure _

/-! ### Runs -/

section Run

variable (hconfig : (effectiveConfig root).run.run w = (.ok (c, file), w))
  (hkind : InspectorKind.ofName? options.inspector = some kind)

include hconfig hkind

/-- A run that lacks a required tool ends there. -/
lemma run_performRun_of_missing {cause : ToolchainError}
    (h : w.checkTools (options.requirements c kind) = .error cause) :
    (performRun root json options).run.run w = (.error (.pipeline (.environment cause)), w) := by
  have hcheck := run_checkRequirements c root options kind w
  rw [h] at hcheck
  rw [performRun, Attempt.run_bind_ok hconfig, Attempt.run_bind_ok (run_inspectorKind hkind),
    Attempt.run_bind_error hcheck]

/-- A run whose required tools are there ends where its listing tool is not. -/
lemma run_performRun_of_missingInspector {tools : List ResolvedTool} (hreadelf : kind = .readelf)
    (htools : w.checkTools (options.requirements c kind) = .ok tools)
    (h : w.resolveTool c.tools.readelf = none) :
    (performRun root json options).run.run w = (.error (.missingInspector c.tools.readelf), w) := by
  subst hreadelf
  have hcheck := run_checkRequirements c root options .readelf w
  rw [htools] at hcheck
  rw [performRun, Attempt.run_bind_ok hconfig, Attempt.run_bind_ok (run_inspectorKind hkind),
    Attempt.run_bind_ok hcheck, Attempt.run_bind_error (run_inspectorOf_of_missing h)]

/-- A run that has the tools it asks for does not fail for want of one. -/
lemma not_isMissingTool_of_run_performRun {tools : List ResolvedTool}
    (htools : w.checkTools (options.requirements c kind) = .ok tools)
    (h : kind = .readelf → w.resolveTool c.tools.readelf ≠ none)
    (hrun : (performRun root json options).run.run w = (.error e, w')) : ¬ e.IsMissingTool := by
  obtain ⟨inspector, hinspector⟩ := exists_run_inspectorOf (c := c) h
  have hcheck := run_checkRequirements c root options kind w
  rw [htools] at hcheck
  rw [performRun, Attempt.run_bind_ok hconfig, Attempt.run_bind_ok (run_inspectorKind hkind),
    Attempt.run_bind_ok hcheck, Attempt.run_bind_ok hinspector] at hrun
  cases json with
  | false =>
    exact Attempt.Raises.bind (raises_printOutput _ _)
      (fun _ => raises_run _ _ _ fun _ => raises_printOutput _ _) hrun
  | true => exact raises_run _ _ _ (fun _ => .of_run_ok fun w => ⟨_, _, rfl⟩) hrun

/-- A run fails for want of a tool just where one of the checks finds one missing, and then leaves
everything as it was. -/
theorem isMissingTool_performRun_iff (json : Bool) :
    let result := (performRun root json options).run.run w
    ((∃ e, result.1 = .error e ∧ e.IsMissingTool) ↔
      (∃ tool ∈ options.requirements c kind, w.resolveTool tool.name = none) ∨
        kind = .readelf ∧ w.resolveTool c.tools.readelf = none) ∧
      ((∃ e, result.1 = .error e ∧ e.IsMissingTool) → result.2 = w) := by
  intro result
  rcases w.checkTools_cases (options.requirements c kind) with
    ⟨tools, htools, -⟩ | ⟨tool, hmem, hnone, herror⟩
  · have hfound : ¬ ∃ tool ∈ options.requirements c kind, w.resolveTool tool.name = none := by
      rintro ⟨tool, hmem, hnone⟩
      obtain ⟨_, -, -, hpath⟩ := World.exists_mem_of_checkTools htools hmem
      rw [hnone] at hpath
      cases hpath
    -- the tools of the build are there, so only the inspector can be missing
    by_cases hreadelf : kind = .readelf ∧ w.resolveTool c.tools.readelf = none
    · have hrun : result = _ :=
        run_performRun_of_missingInspector hconfig hkind hreadelf.1 htools hreadelf.2
      rw [hrun]
      exact ⟨iff_of_true ⟨_, rfl, .inspector _⟩ (.inr hreadelf), fun _ => rfl⟩
    · have hother : ¬ ∃ e, result.1 = .error e ∧ e.IsMissingTool := by
        rintro ⟨e, he, hmissing⟩
        refine not_isMissingTool_of_run_performRun hconfig hkind htools ?_
          (Prod.ext he rfl : result = (_, result.2)) hmissing
        exact fun hreadelf' hnone => hreadelf ⟨hreadelf', hnone⟩
      exact ⟨iff_of_false hother (not_or.mpr ⟨hfound, hreadelf⟩), fun h => absurd h hother⟩
  · have hrun : result = _ := run_performRun_of_missing hconfig hkind herror
    rw [hrun]
    exact ⟨iff_of_true ⟨_, rfl, .environment _⟩ (.inl ⟨tool, hmem, hnone⟩), fun _ => rfl⟩

/-- A run fails for want of a tool just where one that it requires is missing, or where the listing
tool is selected and missing. These are the required tools alone unless the listing tool is selected
by a run that does not verify. Such a failure leaves everything as it was. -/
theorem isMissingTool_perform_run_iff {name : String} (json : Bool)
    (hroot : (resolveRoot name).run.run w = (.ok root, w)) :
    let result := (Command.perform ⟨name, json, .run options⟩).run.run w
    let failed := ∃ e, result.1 = .error e ∧ e.IsMissingTool
    let lacking := ∃ tool ∈ options.requirements c kind, w.resolveTool tool.name = none
    (failed ↔ lacking ∨ kind = .readelf ∧ w.resolveTool c.tools.readelf = none) ∧
      ((kind = .readelf → options.verify = true ∨ w.resolveTool c.tools.readelf ≠ none) →
        (failed ↔ lacking)) ∧
      (failed → result.2 = w) := by
  intro result failed lacking
  have hresult : result = (performRun root json options).run.run w := Attempt.run_bind_ok hroot
  obtain ⟨hiff, hsame⟩ := isMissingTool_performRun_iff hconfig hkind json
  rw [← hresult] at hiff hsame
  refine ⟨hiff, fun hverify => hiff.trans (or_iff_left_of_imp ?_), hsame⟩
  -- where the run verifies, the listing tool is one of those that it requires
  rintro ⟨hreadelf, hnone⟩
  have hverify := (hverify hreadelf).resolve_right (not_not.mpr hnone)
  exact ⟨⟨"section inspection tool", c.tools.readelf⟩,
    by simp [RunOptions.requirements, Config.requirements, hverify, hreadelf], hnone⟩

end Run

/-! ### A listing tool that is selected and not needed -/

namespace Unneeded

/-- A world with an empty archive and no tools. -/
def world : World where
  fs := ⟨.ofList [(["IntelRDFPMathLib20U2".toList], .directory),
    (["IntelRDFPMathLib20U2".toList, "LIBRARY".toList], .directory),
    (["IntelRDFPMathLib20U2".toList, "LIBRARY".toList, "libbid.a".toList],
      .file (bytesOf "!<arch>\n") false)], []⟩
  env := .empty

lemma run_resolveRoot : (resolveRoot "/").run.run world = (.ok (.ofString "/"), world) := rfl

lemma run_effectiveConfig :
    (effectiveConfig (.ofString "/")).run.run world = (.ok ({}, none), world) := rfl

/-- A run that verifies by a listing tool fails without it, and nothing is changed. -/
theorem isMissingTool_perform_run_verify :
    let options : RunOptions := { verify := true, inspector := "readelf", noBuild := true }
    let result := (Command.perform ⟨"/", false, .run options⟩).run.run world
    (resolveRoot "/").run.run world = (.ok (.ofString "/"), world) ∧
      (effectiveConfig (.ofString "/")).run.run world = (.ok ({}, none), world) ∧
      InspectorKind.ofName? options.inspector = some .readelf ∧
      (∃ e, result.1 = .error e ∧ e.IsMissingTool) ∧ result.2 = world := by
  intro options result
  have hkind : InspectorKind.ofName? options.inspector = some .readelf := by decide
  have hlacking : ∃ tool ∈ options.requirements {} .readelf, world.resolveTool tool.name = none :=
    ⟨⟨"section inspection tool", "arm-none-eabi-readelf"⟩, by decide, by decide +kernel⟩
  obtain ⟨hiff, -, hsame⟩ :=
    isMissingTool_perform_run_iff run_effectiveConfig hkind false run_resolveRoot
  have hfailed := hiff.mpr (.inl hlacking)
  exact ⟨run_resolveRoot, run_effectiveConfig, hkind, hfailed, hsame hfailed⟩

/-- A run that neither builds nor verifies requires no tool, and fails because of the listing tool
that is selected. With the other inspector it ends well. -/
theorem missingInspector_without_verification :
    let run (inspector : String) : Except CommandError Unit :=
      ((Command.perform ⟨"/", false, .run { inspector, noBuild := true }⟩).run.run world).1
    RunOptions.requirements { inspector := "readelf", noBuild := true } {} .readelf = [] ∧
      run "readelf" = .error (.missingInspector "arm-none-eabi-readelf") ∧
      run "builtin" = .ok () := by
  refine ⟨rfl, ?_, ?_⟩
  all_goals decide +kernel

end Unneeded

end ConstPromotion
