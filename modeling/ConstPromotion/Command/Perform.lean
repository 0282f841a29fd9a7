import ConstPromotion.Backup.Restore
import ConstPromotion.Command.Basic
import ConstPromotion.Command.Error
import ConstPromotion.Command.Output
import ConstPromotion.Inspection.Listing
import ConstPromotion.Json.Printer
import ConstPromotion.Yaml.Printer

/-!
# Performing commands

A command loads the configuration of its root first, and lets two environment variables replace the
compiler and the listing tool. A run makes sure that all tools are there before it changes anything.
-/

namespace ConstPromotion

/-! ### Preparations -/

/-- The directory in which the program runs. -/
def currentDirectory : Action CommandError Path :=
  (Attempt.inspect (·.currentDir)).wrapping .workingDirectory

/-- The root that a name stands for: its path without links if it exists. -/
def resolveRoot (name : String) : Action CommandError Path := do
  let p := Path.ofString name
  if p.same (.ofString ".") then currentDirectory
  else
    match ← Attempt.query (·.canonical p) with
    | .ok root => return root
    | .error _ => return (← currentDirectory).join p

/-- The configuration in effect below a root, with the file it was read from. -/
def effectiveConfig (root : Path) : Action CommandError (Config × Option Path) := do
  match ← Attempt.query (·.loadConfig root) with
  | .error e => throw (.config e)
  | .ok (c, file) =>
    return (c.withTools (← envVar? "CONSTPATCH_CC") (← envVar? "CONSTPATCH_READELF"), file)

/-- The kind of section inspector with a name. -/
def inspectorKind (name : String) : Action CommandError InspectorKind :=
  match InspectorKind.ofName? name with
  | some kind => return kind
  | none => throw (.invalidInspector name)

/-- The section inspector of a kind. A listing tool has to be there. -/
def inspectorOf (kind : InspectorKind) (c : Config) : Action CommandError SectionInspector := do
  match kind with
  | .builtin => return elfInspector
  | .readelf =>
    match (← get).resolveTool c.tools.readelf with
    | some tool => return listingInspector tool
    | none => throw (.missingInspector c.tools.readelf)

/-- Takes a step of a pipeline that has just started. -/
def fromStart {α : Type} (step : Step α) : Action CommandError α :=
  (step.onPart (⟨·, .notStarted⟩) fun _ p => p.world).wrapping .pipeline

/-- Writes a value as JSON. -/
def printJson {ε : Type} (v : Json) : Action ε Unit := printLine v.pretty

/-! ### Jobs -/

/-- Promotes, builds and verifies. -/
def performRun (root : Path) (json : Bool) (options : RunOptions) : Action CommandError Unit := do
  let (c, file) ← effectiveConfig root
  let kind ← inspectorKind options.inspector
  let pipeline := Pipeline.ofConfig c root options.verify options.dryRun
  let tools ←
    fromStart (pipeline.checkEnvironment (!options.noBuild && !options.dryRun) kind)
  let inspector ← inspectorOf kind c
  let backend := if options.noBuild then prebuiltArchive else makeBuild
  if !json then printOutput (announcement file tools backend options.verify inspector)
  let outcome ← fromStart (pipeline.run backend inspector)
  if json then printJson outcome.toJson else printOutput (outcome.outputLines pipeline)
  if let some e := outcome.violation? then throw (.pipeline e)

/-- Promotes only. -/
def performPatch (root : Path) (json verify dryRun : Bool) : Action CommandError Unit := do
  let (c, _) ← effectiveConfig root
  let pipeline := Pipeline.ofConfig c root verify dryRun
  let report ← fromStart pipeline.patch
  if json then
    printJson (.record [("generated_at", .text (← get).clock), ("annotate", .bool verify),
      ("dry_run", .bool dryRun), ("section", .text c.annotationSection),
      ("report", report.toJson)])
  else
    printOutput (report.outputLines pipeline.layout.libraryDir)
    if dryRun then printLine "(dry run: no files were written)"

/-- Lists the files that would be looked at. -/
def performSelect (root : Path) (json : Bool) : Action CommandError Unit := do
  let (c, _) ← effectiveConfig root
  let selected ← fromStart (Pipeline.ofConfig c root false false).candidates
  if json then printJson (.array (selected.map Candidate.toJson))
  else printOutput (candidateLines (← get).fs selected)

/-- Verifies an archive that is there. -/
def performVerify (root : Path) (json : Bool) (options : VerifyOptions) :
    Action CommandError Unit := do
  let (c, _) ← effectiveConfig root
  let kind ← inspectorKind options.inspector
  let inspector ← inspectorOf kind c
  let archive := match options.archive with
    | some p => root.join (.ofString p)
    | none => (c.layout root).archive
  let artifact ← match ← Attempt.query (·.artifact archive) with
    | .ok a => pure a
    | .error e => throw (.noArchive archive e)
  let sectionName := options.sectionName.getD c.annotationSection
  let result ← (verifyArchive inspector sectionName none artifact.path).wrapping
    fun e => .pipeline (.verify e)
  if json then
    printJson (.record [("generated_at", .text (← get).clock),
      ("archive", artifact.path.toJson), ("archive_size", .nat artifact.size),
      ("section", .text sectionName), ("inspector", .text kind.name),
      ("verdict", .text result.verdict.name), ("result", result.toJson)])
  else printOutput (result.outputLines sectionName artifact.path)
  if let some e := result.violation? then throw (.pipeline e)

/-- Puts the backups back. -/
def performRestore (root : Path) (json : Bool) : Action CommandError Unit := do
  let (c, _) ← effectiveConfig root
  let pipeline := Pipeline.ofConfig c root false false
  fromStart pipeline.ensureSource
  let library := pipeline.layout.libraryDir
  let restored ← (restoreTree library c.backup.suffix.toList).onFiles.wrapping .restore
  if json then printJson (.array (restored.map Path.toJson))
  else printOutput (restoredLines library restored)

/-- Writes the default configuration. -/
def performInitConfig (root : Path) (force : Bool) : Action CommandError Unit := do
  let file := root.join (.ofString (configFileNames.headD ""))
  if (← Attempt.query (·.exists? file)) && !force then throw (.configExists file)
  (writeBytes file (bytesOf (Yaml.render (Config.toJson {})))).wrapping (.writeConfig file)
  printLine ("Wrote default config: " ++ file.toString)

/-- Shows the configuration in effect. -/
def performShowConfig (root : Path) (json : Bool) : Action CommandError Unit := do
  let (c, file) ← effectiveConfig root
  if json then printJson c.toJson
  else printOutput (c.outputLines (← get).fs root file)

/-- Performs a command. -/
def Command.perform (c : Command) : Action CommandError Unit := do
  let root ← resolveRoot c.root
  match c.job with
  | .run options => performRun root c.json options
  | .patch verify dryRun => performPatch root c.json verify dryRun
  | .select => performSelect root c.json
  | .verify options => performVerify root c.json options
  | .restore => performRestore root c.json
  | .initConfig force => performInitConfig root force
  | .showConfig => performShowConfig root c.json

end ConstPromotion
