import ConstPromotion.Config.Basic
import ConstPromotion.Json.Decode

/-!
# Configurations as documents

A document overlays the defaults field by field, also inside `backup` and `toolchain`; a list or
map that is given replaces the whole default. Fields that no configuration has do not matter.
-/

namespace ConstPromotion

variable {ν : Type}

/-- Reads how backups are kept. -/
def BackupConfig.read? (r : Reader ν) (v : ν) : Option BackupConfig := do
  let given ← r.fields? ["suffix", "policy"] v
  let default : BackupConfig := {}
  return {
    suffix := ← (given "suffix").orDefault r.text? default.suffix
    policy := ← (given "policy").orDefault (fun v => (r.name? v).bind BackupPolicy.ofName?)
      default.policy }

/-- Reads the names of the tools. -/
def ToolNames.read? (r : Reader ν) (v : ν) : Option ToolNames := do
  let given ← r.fields? ["cc", "ar", "make", "readelf"] v
  let default : ToolNames := {}
  return {
    cc := ← (given "cc").orDefault r.text? default.cc
    ar := ← (given "ar").orDefault r.text? default.ar
    make := ← (given "make").orDefault r.text? default.make
    readelf := ← (given "readelf").orDefault r.text? default.readelf }

/-- Reads variables; of a repeated name the last value counts. -/
def readVariables? (r : Reader ν) (v : ν) : Option Variables :=
  (r.textEntries? v).map SortedMap.ofList

namespace Config

/-- The names of the fields of a configuration in their order. -/
def fieldNames : List String :=
  ["upstream_dir", "library_dir", "allow_list", "deny_list", "scan_extensions", "backup",
    "annotation_section", "toolchain", "target_flags", "build_vars", "archive_name", "output_dir"]

/-- Reads a configuration. -/
def read? (r : Reader ν) (v : ν) : Option Config := do
  let given ← r.fields? fieldNames v
  let default : Config := {}
  return {
    sourceDir := ← (given "upstream_dir").orDefault r.text? default.sourceDir
    libraryDir := ← (given "library_dir").orDefault r.text? default.libraryDir
    allowList := ← (given "allow_list").orDefault r.texts? default.allowList
    denyList := ← (given "deny_list").orDefault r.texts? default.denyList
    scanExtensions := ← (given "scan_extensions").orDefault r.texts? default.scanExtensions
    backup := ← (given "backup").orDefault (BackupConfig.read? r) default.backup
    annotationSection := ← (given "annotation_section").orDefault r.text? default.annotationSection
    tools := ← (given "toolchain").orDefault (ToolNames.read? r) default.tools
    targetFlags := ← (given "target_flags").orDefault r.texts? default.targetFlags
    buildVars := ← (given "build_vars").orDefault (readVariables? r) default.buildVars
    archiveName := ← (given "archive_name").orDefault r.text? default.archiveName
    outputDir := ← (given "output_dir").orDefault r.text? default.outputDir }

end Config

/-! ### Written form -/

/-- The JSON form of a list of texts. -/
def Json.texts (items : List String) : Json := .array (items.map Json.text)

/-- The JSON form of variables. -/
def Variables.toJson (vars : Variables) : Json :=
  .record (vars.entries.map fun (name, value) => (name, .text value))

/-- The JSON form of how backups are kept. -/
def BackupConfig.toJson (b : BackupConfig) : Json :=
  .record [("suffix", .text b.suffix), ("policy", .text b.policy.name)]

/-- The JSON form of the names of the tools. -/
def ToolNames.toJson (t : ToolNames) : Json :=
  .record [("cc", .text t.cc), ("ar", .text t.ar), ("make", .text t.make),
    ("readelf", .text t.readelf)]

/-- The JSON form of a configuration, with every field. -/
def Config.toJson (c : Config) : Json :=
  .record [("upstream_dir", .text c.sourceDir), ("library_dir", .text c.libraryDir),
    ("allow_list", .texts c.allowList), ("deny_list", .texts c.denyList),
    ("scan_extensions", .texts c.scanExtensions), ("backup", c.backup.toJson),
    ("annotation_section", .text c.annotationSection), ("toolchain", c.tools.toJson),
    ("target_flags", .texts c.targetFlags), ("build_vars", c.buildVars.toJson),
    ("archive_name", .text c.archiveName), ("output_dir", .text c.outputDir)]

end ConstPromotion
