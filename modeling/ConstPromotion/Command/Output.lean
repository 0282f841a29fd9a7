import ConstPromotion.Path.Clean
import ConstPromotion.Pipeline.Basic
import ConstPromotion.Version

/-!
# Output of commands

What commands tell their user, line by line. Results go to the standard output, and what the user
should look at twice goes to the standard error.
-/

namespace ConstPromotion

/-- A line of output. -/
inductive OutputLine where
  | result (text : String)
  | notice (text : String)
deriving DecidableEq

/-- Writes a line to the stream it belongs to. -/
def OutputLine.print {ε : Type} : OutputLine → Action ε Unit
  | .result text => printLine text
  | .notice text => printErrorLine text

/-- Writes lines in order. -/
def printOutput {ε : Type} (lines : List OutputLine) : Action ε Unit := lines.forM (·.print)

/-- A list below its title, one item a line. -/
def itemized (items : List String) : List OutputLine :=
  items.map fun item => .result ("  - " ++ item)

/-- What stands in place of the items of an empty list. -/
def emptyNote {α : Type} (items : List α) : List OutputLine :=
  if items.isEmpty then [.result "  (none)"] else []

/-- A title with the number of items below it. -/
def countedTitle {α : Type} (title : String) (items : List α) : OutputLine :=
  .result (title ++ " (" ++ toString items.length ++ "):")

/-! ### Promotion -/

/-- The line of a promoted declaration. -/
def PatchedDeclaration.outputLine (d : PatchedDeclaration) : OutputLine :=
  .result ("      line " ++ toString d.line ++ ": " ++ d.declaration.elementType ++ " "
    ++ d.declaration.name ++ "[" ++ d.declaration.size.getD "" ++ "]"
    ++ if d.annotated then " (annotated)" else "")

/-- The lines of a file that was changed or would be. -/
def FileOutcome.changeLines (base : Path) (label : String) (f : FileOutcome) : List OutputLine :=
  .result ("  - " ++ Path.shownUnder base f.path ++ " [" ++ label ++ ", "
      ++ toString f.declarations.length ++ " declaration(s)]")
    :: f.declarations.map PatchedDeclaration.outputLine
    ++ (f.backup.toList.filter (!·.created)).map fun b =>
      .notice ("Warning: kept existing backup " ++ Path.shownUnder base b.path
        ++ " (it may predate the current rules)")

/-- The lines of a file, whose path is shown relative to `base`. -/
def FileOutcome.outputLines (base : Path) (f : FileOutcome) : List OutputLine :=
  match f.status with
  | .patched => f.changeLines base "patched"
  | .dryRun => f.changeLines base "would patch"
  | .unchanged => [.result ("  - " ++ Path.shownUnder base f.path ++ " [unchanged]")]
  | .skipped .missing => [.notice ("Skipping " ++ Path.shownUnder base f.path ++ ": missing")]

/-- The lines of a report, whose paths are shown relative to `base`. -/
def PatchReport.outputLines (base : Path) (r : PatchReport) : List OutputLine :=
  countedTitle "Patched files" r.files :: emptyNote r.files
    ++ r.files.flatMap (FileOutcome.outputLines base)
    ++ [.result ("Summary: " ++ toString r.patchedFiles ++ " file(s) patched, "
      ++ toString r.declarations ++ " declaration(s), " ++ toString r.skippedFiles ++ " skipped")]

/-! ### Verification -/

/-- The lines of the verdict on an archive. -/
def VerificationResult.verdictLines (sectionName : String) (archive : Path)
    (r : VerificationResult) : List OutputLine :=
  match r.verdict with
  | .pass => [.result "  Verdict: PASS"]
  | .skippedWarning =>
    [.result "  Verdict: SKIPPED",
      .notice ("Warning: no '" ++ sectionName ++ "' sections found in " ++ archive.toString
        ++ "; nothing was verified")]
  | .fail => .result "  Verdict: FAIL" :: r.lines.map fun line => .notice ("Violation: " ++ line)

/-- The lines of the verification of an archive. -/
def VerificationResult.outputLines (sectionName : String) (archive : Path)
    (r : VerificationResult) : List OutputLine :=
  .result ("Verification of " ++ archive.toString ++ " (section " ++ sectionName ++ "):")
    :: .result ("  Annotated sections: " ++ toString r.sections)
    :: .result ("  Writable violations: " ++ toString r.violations)
    :: r.verdictLines sectionName archive

/-! ### Selection -/

/-- How an origin is shown. -/
def CandidateOrigin.label : CandidateOrigin → String
  | .allowList => "allow-list"
  | .scan => "scan"

/-- The lines of selected files, some of which may be missing. -/
def candidateLines (fs : FileSystem) (selected : List Candidate) : List OutputLine :=
  countedTitle "Candidates" selected :: emptyNote selected
    ++ itemized (selected.map fun c =>
      c.relative.toString ++ " [" ++ c.origin.label ++ "]"
        ++ if fs.isFile c.path then "" else " (missing)")

/-! ### Restored files -/

/-- The lines of restored files. -/
def restoredLines (base : Path) (restored : List Path) : List OutputLine :=
  countedTitle "Restored files" restored :: emptyNote restored
    ++ itemized (restored.map (Path.shownUnder base))

/-! ### Configurations -/

/-- How a policy is shown. -/
def BackupPolicy.label : BackupPolicy → String
  | .firstWriteWins => "FirstWriteWins"
  | .versioned => "Versioned"

/-- Whether a directory is there. -/
def directoryLine (fs : FileSystem) (label : String) (dir : Path) : OutputLine :=
  .result ("- " ++ label ++ ": " ++ (if fs.isDirectory dir then "OK" else "MISSING")
    ++ " (" ++ dir.toString ++ ")")

/-- The lines of a configuration below a root, with the file it was read from. -/
def Config.outputLines (fs : FileSystem) (root : Path) (file : Option Path) (c : Config) :
    List OutputLine :=
  let layout := c.layout root
  [.result "constpatch Config", .result "=================",
    .result ("Config file: " ++ ((file.map Path.toString).getD "(none, using defaults)")),
    .result ("Annotation section: " ++ c.annotationSection),
    .result ("Backup: suffix " ++ c.backup.suffix ++ " (" ++ c.backup.policy.label ++ ")"),
    .result ("Compiler: " ++ c.tools.cc),
    .result ("Target flags: " ++ " ".intercalate c.targetFlags),
    countedTitle "Allow-list" c.allowList]
    ++ itemized c.allowList
    ++ (if c.denyList.isEmpty then []
      else countedTitle "Deny-list" c.denyList :: itemized c.denyList)
    ++ [.result "", .result "Directories:", directoryLine fs "Upstream tree" layout.sourceDir,
      directoryLine fs "Library dir" layout.libraryDir,
      directoryLine fs "Output dir" layout.outputDir,
      .result ("Archive: " ++ layout.archive.toString)]

/-! ### Runs -/

/-- The lines that announce a run. -/
def announcement (file : Option Path) (tools : List ResolvedTool) (backend : BuildBackend)
    (verify : Bool) (inspector : SectionInspector) : List OutputLine :=
  .result (programName ++ " v" ++ version)
    :: .result ("Config: " ++ ((file.map Path.toString).getD "(defaults)"))
    :: tools.map (fun t => .result ("Using " ++ t.role ++ ": " ++ t.path.toString))
    ++ [.result ("Build: " ++ backend.name)]
    ++ if verify then
      [.result ("Verification: on (inspector " ++ inspector.name ++ ")")]
    else []

/-- The lines that say what a run came to. -/
def PipelineOutcome.outputLines (p : Pipeline) (o : PipelineOutcome) : List OutputLine :=
  o.patch.outputLines p.layout.libraryDir
    ++ match o.artifact with
      | none => []
      | some a =>
        .result ("Archive: " ++ Path.shownUnder p.layout.root a.path ++ " (" ++ toString a.size
            ++ " bytes)")
          :: match o.verification with
            | none => []
            | some r => r.outputLines p.config.annotationSection a.path

end ConstPromotion
