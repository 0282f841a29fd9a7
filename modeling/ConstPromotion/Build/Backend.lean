import ConstPromotion.Build.Artifact
import ConstPromotion.Child

/-!
# Ways to build

A backend makes the archive that a request asks for. The pipeline is handed one, so that it does not
matter how the archive comes about.
-/

namespace ConstPromotion

/-- A way to build. -/
structure BuildBackend where
  name : String
  build : BuildRequest → Action BuildError BuildArtifact

/-- Runs the build tool in the directory of the library. -/
def makeBuild : BuildBackend where
  name := "make"
  build r := do
    let call : Invocation :=
      { program := r.make, arguments := r.arguments, directory := some r.libraryDir }
    let ended ← call.run.wrapping (.spawn r.make)
    if !ended.isSuccess then throw (.failed r.make ended.message)
    (collectArtifact r).onFiles

/-- Takes the archive that an earlier build left. -/
def prebuiltArchive : BuildBackend where
  name := "prebuilt"
  build r := (collectArtifact r).onFiles

end ConstPromotion
