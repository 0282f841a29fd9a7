import ConstPromotion.Backup.Naming
import ConstPromotion.Json.Decode
import ConstPromotion.Patch.Line

/-!
# Patch reports

What promotion did to each file of a list, and the JSON form of such a report. Paths are written as
they are spelled.
-/

namespace ConstPromotion

/-- Why a file was left out. -/
inductive SkipReason where
  /-- There is no such file. -/
  | missing
deriving DecidableEq

/-- What promotion did to a file. -/
inductive PatchStatus where
  | patched
  /-- It would have been changed, and nothing was written. -/
  | dryRun
  | unchanged
  | skipped (reason : SkipReason)
deriving DecidableEq

/-- What promotion did to a file, with the declarations it found. -/
structure FileOutcome where
  path : Path
  status : PatchStatus
  declarations : List PatchedDeclaration
  /-- The backup, if the file was changed. -/
  backup : Option BackupOutcome
deriving DecidableEq

/-- What promotion did to a list of files. -/
structure PatchReport where
  files : List FileOutcome
deriving DecidableEq

namespace PatchReport

/-- How many files were changed or would have been. -/
def patchedFiles (r : PatchReport) : Nat :=
  r.files.countP fun f => f.status = .patched ∨ f.status = .dryRun

/-- How many files were left out. -/
def skippedFiles (r : PatchReport) : Nat :=
  r.files.countP fun f => match f.status with
    | .skipped _ => true
    | _ => false

/-- How many declarations were promoted. -/
def declarations (r : PatchReport) : Nat := (r.files.flatMap (·.declarations)).length

end PatchReport

/-! ### Written forms -/

namespace ArrayDeclaration

/-- The JSON form of a declaration. -/
def toJson (d : ArrayDeclaration) : Json :=
  .record [("element_type", .text d.elementType), ("name", .text d.name),
    ("size", .textOrNull d.size)]

/-- Reads a declaration. -/
def ofJson? (v : Json) : Option ArrayDeclaration := do
  let given ← v.fieldsOf? ["element_type", "name", "size"]
  return {
    elementType := ← (given "element_type").required Json.text?
    name := ← (given "name").required Json.text?
    size := ← Json.optional Json.text? (given "size") }

end ArrayDeclaration

namespace PatchedDeclaration

/-- The JSON form of a promoted declaration. -/
def toJson (d : PatchedDeclaration) : Json :=
  .record [("line", .nat d.line), ("declaration", d.declaration.toJson),
    ("annotated", .bool d.annotated)]

/-- Reads a promoted declaration. -/
def ofJson? (v : Json) : Option PatchedDeclaration := do
  let given ← v.fieldsOf? ["line", "declaration", "annotated"]
  return {
    line := ← (given "line").required (Json.nat? Decimal.word64)
    declaration := ← (given "declaration").required ArrayDeclaration.ofJson?
    annotated := ← (given "annotated").required Json.bool? }

end PatchedDeclaration

/-- The JSON form of a path. -/
def Path.toJson (p : Path) : Json := .text p.toString

/-- Reads a path. -/
def Path.ofJson? (v : Json) : Option Path := v.text?.map Path.ofString

namespace BackupOutcome

/-- The JSON form of what happened to a backup. -/
def toJson (b : BackupOutcome) : Json :=
  .record [("path", b.path.toJson), ("created", .bool b.created)]

/-- Reads what happened to a backup. -/
def ofJson? (v : Json) : Option BackupOutcome := do
  let given ← v.fieldsOf? ["path", "created"]
  return {
    path := ← (given "path").required Path.ofJson?
    created := ← (given "created").required Json.bool? }

end BackupOutcome

namespace PatchStatus

/-- The JSON form of a status: its name, with the reason as the value of a field if it has one. -/
def toJson : PatchStatus → Json
  | .patched => .text "patched"
  | .dryRun => .text "dry_run"
  | .unchanged => .text "unchanged"
  | .skipped .missing => .record [("skipped", .text "missing")]

/-- Reads a status. -/
def ofJson? (v : Json) : Option PatchStatus :=
  match v with
  | .object [(some "skipped", reason)] =>
    if reason.name? = some "missing" then some (.skipped .missing) else none
  | v =>
    match v.name? with
    | some "patched" => some .patched
    | some "dry_run" => some .dryRun
    | some "unchanged" => some .unchanged
    | _ => none

end PatchStatus

namespace FileOutcome

/-- The JSON form of what happened to a file. A missing backup is not mentioned. -/
def toJson (f : FileOutcome) : Json :=
  .record ([("path", f.path.toJson), ("status", f.status.toJson),
    ("declarations", .array (f.declarations.map PatchedDeclaration.toJson))]
    ++ (f.backup.map fun b => ("backup", b.toJson)).toList)

/-- Reads a backup that may be null. -/
def backupOfJson? : Json → Option (Option BackupOutcome)
  | .null => some none
  | v => (BackupOutcome.ofJson? v).map some

/-- Reads what happened to a file. -/
def ofJson? (v : Json) : Option FileOutcome := do
  let given ← v.fieldsOf? ["path", "status", "declarations", "backup"]
  return {
    path := ← (given "path").required Path.ofJson?
    status := ← (given "status").required PatchStatus.ofJson?
    declarations := ← (given "declarations").required (Json.list? PatchedDeclaration.ofJson?)
    backup := ← (given "backup").orDefault backupOfJson? none }

end FileOutcome

namespace PatchReport

/-- The JSON form of a report. -/
def toJson (r : PatchReport) : Json :=
  .record [("files", .array (r.files.map FileOutcome.toJson))]

/-- Reads a report. -/
def ofJson? (v : Json) : Option PatchReport := do
  let given ← v.fieldsOf? ["files"]
  return { files := ← (given "files").required (Json.list? FileOutcome.ofJson?) }

end PatchReport

end ConstPromotion
