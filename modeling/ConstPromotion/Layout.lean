import ConstPromotion.Config.Basic

/-!
# Layout of a build

Where the parts of a build lie below its root. An absolute path in the configuration is taken as it
is.
-/

namespace ConstPromotion

/-- Where the parts of a build lie. -/
structure Layout where
  root : Path
  /-- The source tree. -/
  sourceDir : Path
  /-- The directory of the library, where it is built. -/
  libraryDir : Path
  /-- Where the build puts the archive. -/
  builtArchive : Path
  /-- The directory that the archive is copied into. -/
  outputDir : Path
  /-- Where the archive is copied to. -/
  archive : Path
deriving DecidableEq

/-- The layout of a build below a root. -/
def Config.layout (c : Config) (root : Path) : Layout :=
  let sourceDir := root.join (.ofString c.sourceDir)
  let libraryDir := sourceDir.join (.ofString c.libraryDir)
  let outputDir := root.join (.ofString c.outputDir)
  { root, sourceDir, libraryDir
    builtArchive := libraryDir.join (.ofString c.archiveName)
    outputDir
    archive := outputDir.join (.ofString c.archiveName) }

end ConstPromotion
