import ConstPromotion.Config.Document
import ConstPromotion.Layout
import ConstPromotion.Patch.Report

/-!
# Build requests

What a build is asked for, and the arguments that the build tool is given for it.
-/

namespace ConstPromotion

/-- What a build is asked for. -/
structure BuildRequest where
  /-- The directory that is built in, where the archive is expected. -/
  libraryDir : Path
  make : String
  cc : String
  ar : String
  targetFlags : List String
  buildVars : Variables
  archiveName : String
  outputDir : Path

namespace BuildRequest

/-- The request that a configuration makes. -/
def ofConfig (c : Config) (layout : Layout) : BuildRequest where
  libraryDir := layout.libraryDir
  make := c.tools.make
  cc := c.tools.cc
  ar := c.tools.ar
  targetFlags := c.targetFlags
  buildVars := c.buildVars
  archiveName := c.archiveName
  outputDir := layout.outputDir

/-- Where the build puts the archive. -/
def builtArchive (r : BuildRequest) : Path := r.libraryDir.join (.ofString r.archiveName)

/-- Where the archive is copied to. -/
def archive (r : BuildRequest) : Path := r.outputDir.join (.ofString r.archiveName)

/-- The arguments of the build tool: compiler, archiver and flags, then the variables by name. -/
def arguments (r : BuildRequest) : List String :=
  ["CC=" ++ r.cc, "AR=" ++ r.ar, "CFLAGS_OPT=" ++ " ".intercalate r.targetFlags]
    ++ r.buildVars.entries.map fun (name, value) => name ++ "=" ++ value

/-- The JSON form of a request. -/
def toJson (r : BuildRequest) : Json :=
  .record [("library_dir", r.libraryDir.toJson), ("make", .text r.make), ("cc", .text r.cc),
    ("ar", .text r.ar), ("target_flags", .texts r.targetFlags),
    ("build_vars", r.buildVars.toJson), ("archive_name", .text r.archiveName),
    ("output_dir", r.outputDir.toJson)]

end BuildRequest

end ConstPromotion
