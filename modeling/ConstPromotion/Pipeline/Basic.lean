import ConstPromotion.Build.Backend
import ConstPromotion.Patch.Files
import ConstPromotion.Pipeline.Requirements
import ConstPromotion.Pipeline.State
import ConstPromotion.Selection
import ConstPromotion.Verification.Archive

/-!
# The pipeline

Promotion, build and verification, one after the other and no further than the first failure. What
was done before a failure stays done: promoted files and their backups are left for whoever looks
into it.
-/

namespace ConstPromotion

/-- Why a pipeline stopped. -/
inductive PipelineError where
  | environment (cause : ToolchainError)
  | missingSource (path : Path)
  | selection (cause : SelectionError)
  | patch (cause : PatchError)
  | build (cause : BuildError)
  | verify (cause : VerifyError)
  /-- Annotated sections can be written. -/
  | violation (count : Nat) (lines : List String)
deriving DecidableEq

/-- The wording of an error. -/
def PipelineError.message : PipelineError → String
  | .environment e => e.message
  | .missingSource p => "Upstream source tree not found at " ++ p.toString
  | .selection e => e.message
  | .patch e => e.message
  | .build e => e.message
  | .verify e => e.message
  | .violation count lines =>
    toString count ++ " annotated section(s) ended up writable:\n  " ++ "\n  ".intercalate lines

/-- What a pipeline works on and how. -/
structure Pipeline where
  config : Config
  layout : Layout
  /-- Whether declarations are annotated, and the archive is verified. -/
  verify : Bool := false
  /-- Whether nothing is written. -/
  dryRun : Bool := false

/-- A world in which a pipeline has come some way. -/
structure Progress where
  world : World
  state : PipelineState := .notStarted

instance : HasFiles Progress :=
  ⟨fun p => p.world.fs, fun p fs => { p with world := { p.world with fs } }⟩

/-- A step of a pipeline. -/
abbrev Step (α : Type) := Attempt Progress PipelineError α

/-- The violations that a verification found as an error. -/
def VerificationResult.violation? (r : VerificationResult) : Option PipelineError :=
  if r.violations > 0 then some (.violation r.violations r.lines) else none

/-- What a run of a pipeline came to. -/
structure PipelineOutcome where
  generatedAt : String
  state : PipelineState
  patch : PatchReport
  artifact : Option BuildArtifact
  verification : Option VerificationResult

namespace PipelineOutcome

/-- The violations of an outcome as an error. -/
def violation? (o : PipelineOutcome) : Option PipelineError :=
  o.verification.bind VerificationResult.violation?

/-- The JSON form of an outcome. -/
def toJson (o : PipelineOutcome) : Json :=
  .record [("generated_at", .text o.generatedAt), ("state", o.state.toJson),
    ("patch", o.patch.toJson), ("artifact", (o.artifact.map BuildArtifact.toJson).getD .null),
    ("verification", (o.verification.map VerificationResult.toJson).getD .null)]

end PipelineOutcome

namespace Pipeline

/-- The pipeline of a configuration below a root. -/
def ofConfig (c : Config) (root : Path) (verify dryRun : Bool) : Pipeline :=
  ⟨c, c.layout root, verify, dryRun⟩

/-- Does something in the world of the pipeline. -/
def inWorld {ε α : Type} (wrap : ε → PipelineError) (a : Action ε α) : Step α :=
  (a.onPart Progress.world fun p world => { p with world }).wrapping wrap

/-- Records how far the pipeline has come. -/
def reach (state : PipelineState) : Step Unit := modify fun p => { p with state }

/-- Checks that the directory of the library is there. -/
def ensureSource (p : Pipeline) : Step Unit := do
  if !(← Attempt.query (·.isDirectory p.layout.libraryDir)) then
    throw (.missingSource p.layout.libraryDir)

/-- Checks that the tools are there. -/
def checkEnvironment (p : Pipeline) (build : Bool) (kind : InspectorKind) :
    Step (List ResolvedTool) := do
  match (← get).world.checkTools (p.config.requirements p.verify build kind) with
  | .ok tools => return tools
  | .error e => throw (.environment e)

/-- Selects the files to promote. -/
def candidates (p : Pipeline) : Step (List Candidate) := do
  p.ensureSource
  let fs ← Attempt.query id
  match selectCandidates fs p.layout.libraryDir p.config.selectionPolicy with
  | .ok selected => return selected
  | .error e => throw (.selection e)

/-- How the pipeline promotes declarations. -/
def patchOptions (p : Pipeline) : PatchOptions :=
  { annotate := p.verify, sectionName := p.config.annotationSection }

/-- The store of backups that a pass starts with. -/
def newStore (p : Pipeline) : BackupStore :=
  { suffix := p.config.backup.suffix.toList, policy := p.config.backup.policy }

/-- Promotes files with a store of backups of its own. -/
def patchPaths (p : Pipeline) (paths : List Path) : Attempt FileSystem PatchError PatchReport :=
  (patchFiles p.patchOptions p.dryRun paths).onPart (⟨·, p.newStore⟩) fun _ g => g.fs

/-- Promotes the selected files. -/
def patch (p : Pipeline) : Step PatchReport := do
  let selected ← p.candidates
  let report ← (p.patchPaths (selected.map Candidate.path)).onFiles.wrapping .patch
  reach .patched
  return report

/-- What the build is asked for. -/
def request (p : Pipeline) : BuildRequest := .ofConfig p.config p.layout

/-- Builds the archive. -/
def build (p : Pipeline) (backend : BuildBackend) : Step BuildArtifact := do
  let artifact ← inWorld .build (backend.build p.request)
  reach .built
  return artifact

/-- Verifies an archive. -/
def verifyArtifact (p : Pipeline) (inspector : SectionInspector) (archive : Path) :
    Step VerificationResult := do
  let result ←
    inWorld .verify (verifyArchive inspector p.config.annotationSection none archive)
  reach (.verified result.verdict)
  return result

/-- What has come of a run so far. -/
def outcome (patch : PatchReport) (artifact : Option BuildArtifact)
    (verification : Option VerificationResult) : Step PipelineOutcome := do
  let p ← get
  return ⟨p.world.clock, p.state, patch, artifact, verification⟩

/-- Promotes, builds and verifies. Violations are part of the outcome and no error. -/
def run (p : Pipeline) (backend : BuildBackend) (inspector : SectionInspector) :
    Step PipelineOutcome := do
  p.ensureSource
  let report ← p.patch
  if p.dryRun then outcome report none none
  else
    let artifact ← p.build backend
    if p.verify then
      let result ← p.verifyArtifact inspector artifact.path
      outcome report (some artifact) (some result)
    else outcome report (some artifact) none

end Pipeline

end ConstPromotion
