import ConstPromotion.Backup.Naming
import ConstPromotion.Patch.Line
import ConstPromotion.SortedMap

/-!
# Configurations

What is promoted, how the archive is built, and where things lie. Every field has a default, which
fits the layout of the Intel decimal floating-point library.
-/

namespace ConstPromotion

/-- The names or paths of the tools of the target. -/
structure ToolNames where
  cc : String := "arm-none-eabi-gcc"
  ar : String := "arm-none-eabi-ar"
  make : String := "make"
  readelf : String := "arm-none-eabi-readelf"
deriving DecidableEq

/-- How backups are kept. -/
structure BackupConfig where
  suffix : String := defaultBackupSuffix
  policy : BackupPolicy := .firstWriteWins
deriving DecidableEq

/-- Variables with their values, ordered by name. -/
abbrev Variables := SortedMap String String

/-- The variables of the build unless others are configured. -/
def defaultVariables : Variables :=
  .ofList [("CALL_BY_REF", "0"), ("GLOBAL_RND", "0"), ("GLOBAL_FLAGS", "0"),
    ("UNCHANGED_BINARY_FLAGS", "0")]

/-- What is promoted, how the archive is built, and where things lie. -/
structure Config where
  /-- The source tree, relative to the root of the build. -/
  sourceDir : String := "IntelRDFPMathLib20U2"
  /-- The directory of the library, relative to the source tree. -/
  libraryDir : String := "LIBRARY"
  /-- The files known to hold tables, relative to the directory of the library. -/
  allowList : List String :=
    ["src/bid_decimal_data.c", "src/bid_binarydecimal.c", "src/bid_convert_data.c",
      "src/bid128_2_str_tables.c", "src/bid_dpd.c"]
  /-- The files that the scan must not pick up, relative to the directory of the library. -/
  denyList : List String := []
  /-- The extensions of the files that are scanned. -/
  scanExtensions : List String := ["c"]
  backup : BackupConfig := {}
  /-- The section that promoted declarations are annotated with. -/
  annotationSection : String := defaultSection
  tools : ToolNames := {}
  /-- The flags that the compiler is given for the target. -/
  targetFlags : List String :=
    ["-mcpu=cortex-m33", "-mthumb", "-mfloat-abi=hard", "-mfpu=fpv5-sp-d16",
      "-ffunction-sections", "-fdata-sections", "-Os"]
  buildVars : Variables := defaultVariables
  /-- The file name of the archive. -/
  archiveName : String := "libbid.a"
  /-- The directory that the archive is copied into, relative to the root of the build. -/
  outputDir : String := "build"

/-- Why a configuration cannot be used. -/
inductive ConfigFault where
  | emptySuffix
  | emptySection
deriving DecidableEq

/-- The wording of a fault. -/
def ConfigFault.message : ConfigFault → String
  | .emptySuffix => "backup.suffix must not be empty"
  | .emptySection => "annotation_section must not be empty"

namespace Config

/-- What makes a configuration unusable, if anything does: with either of these values empty, the
inputs of a run would be destroyed. -/
def fault? (c : Config) : Option ConfigFault :=
  if c.backup.suffix = "" then some .emptySuffix
  else if c.annotationSection = "" then some .emptySection
  else none

/-- Replaces the compiler and the listing tool by the given ones. An empty name replaces nothing. -/
def withTools (c : Config) (cc readelf : Option String) : Config :=
  let chosen (given : Option String) (current : String) : String :=
    match given with
    | some name => if name = "" then current else name
    | none => current
  { c with tools :=
    { c.tools with cc := chosen cc c.tools.cc, readelf := chosen readelf c.tools.readelf } }

end Config

end ConstPromotion
