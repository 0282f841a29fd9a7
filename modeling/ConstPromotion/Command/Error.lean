import ConstPromotion.Config.Load
import ConstPromotion.Pipeline.Basic

/-!
# Errors of commands

Why a command failed, with the causes behind it. An error that wraps another one and adds no words
of its own is not repeated among its causes; one whose words quote a cause is followed by it.
-/

namespace ConstPromotion

/-! ### Causes behind errors -/

/-- The causes behind an error, the nearest first. -/
def BackupError.causes : BackupError → List String
  | .write _ e | .restore _ _ e => [e.message]
  | .emptySuffix | .sameAsSource _ => []

/-- The causes behind an error, the nearest first. -/
def PatchError.causes : PatchError → List String
  | .read _ e | .write _ e => [e.message]
  | .backup e => e.causes

/-- The causes behind an error, the nearest first. -/
def BuildError.causes : BuildError → List String
  | .spawn _ e | .copy _ e => [e.message]
  | .failed .. | .missingArtifact _ => []

/-- The causes behind an error, the nearest first. -/
def InspectError.causes : InspectError → List String
  | .read _ e => [e.message]
  | .parse .. | .tool _ => []

/-- The causes behind an error, the nearest first. -/
def VerifyError.causes : VerifyError → List String
  | .readArchive _ e => [e.message]
  | .inspect e => e.causes
  | .parseArchive .. | .scratch _ => []

/-- The causes behind an error, the nearest first. -/
def ConfigError.causes : ConfigError → List String
  | .read _ e => [e.message]
  | .yaml _ detail | .json _ detail => [detail]
  | .invalid .. => []

/-- The causes behind an error, the nearest first. -/
def PipelineError.causes : PipelineError → List String
  | .patch e => e.causes
  | .build e => e.causes
  | .verify e => e.causes
  | .environment _ | .missingSource _ | .selection _ | .violation .. => []

/-! ### Commands -/

/-- Why a command failed. -/
inductive CommandError where
  | workingDirectory (cause : OsError)
  | config (cause : ConfigError)
  | invalidInspector (name : String)
  /-- The listing tool that was asked for is missing. -/
  | missingInspector (tool : String)
  | pipeline (cause : PipelineError)
  | noArchive (path : Path) (cause : BuildError)
  | restore (cause : BackupError)
  | configExists (path : Path)
  | writeConfig (path : Path) (cause : OsError)
deriving DecidableEq

namespace CommandError

/-- The wording of an error. -/
def message : CommandError → String
  | .workingDirectory _ => "Failed to get current directory"
  | .config _ => "Failed to load pipeline config"
  | .invalidInspector name =>
    "Invalid inspector '" ++ name ++ "'. Allowed: "
      ++ ", ".intercalate ([InspectorKind.builtin, .readelf].map InspectorKind.name)
  | .missingInspector tool =>
    "Required section inspection tool '" ++ tool
      ++ "' not found (install it or set CONSTPATCH_READELF)"
  | .pipeline e => e.message
  | .noArchive p _ => "No archive to verify at " ++ p.toString
  | .restore e => e.message
  | .configExists p => "Config already exists at " ++ p.toString ++ " (use --force to overwrite)"
  | .writeConfig p _ => "Failed to write config: " ++ p.toString

/-- The causes behind an error, the nearest first. -/
def causes : CommandError → List String
  | .workingDirectory e | .writeConfig _ e => [e.message]
  | .config e => e.message :: e.causes
  | .noArchive _ e => e.message :: e.causes
  | .pipeline e => e.causes
  | .restore e => e.causes
  | .invalidInspector _ | .missingInspector _ | .configExists _ => []

/-- A text whose first line starts with `first` and every other line with `other`. -/
def marginal (first other : String) (text : String) : String :=
  first ++ ("\n" ++ other).intercalate ((text.toList.splitOn '\n').map String.ofList)

/-- The number of a cause, in a column of five. -/
def causeNumber (n : Nat) : String := String.ofList ((Decimal.render n).leftpad 5 ' ') ++ ": "

/-- Causes below each other, the first of them with the given number. -/
def numbered (n : Nat) : List String → String
  | [] => ""
  | cause :: rest => "\n" ++ marginal (causeNumber n) "       " cause ++ numbered (n + 1) rest

/-- An error with its causes. Only if there are several causes, they are numbered. -/
def report (e : CommandError) : String :=
  "Error: " ++ e.message ++ match e.causes with
    | [] => ""
    | [cause] => "\n\nCaused by:\n" ++ marginal "    " "    " cause
    | causes => "\n\nCaused by:" ++ numbered 0 causes

end CommandError

end ConstPromotion
