import ConstPromotion.Attempt
import ConstPromotion.Build.Request

/-!
# Build artifacts

The archive that a build leaves in the directory of the library is copied into the output directory,
unless that is where it is.
-/

namespace ConstPromotion

/-- Why there is no archive. -/
inductive BuildError where
  | spawn (tool : String) (cause : OsError)
  | failed (tool status : String)
  | missingArtifact (path : Path)
  | copy (path : Path) (cause : OsError)
deriving DecidableEq

/-- The wording of an error. -/
def BuildError.message : BuildError → String
  | .spawn tool e => "Failed to spawn " ++ tool ++ ": " ++ e.message
  | .failed tool status => "Build command " ++ tool ++ " exited with " ++ status
  | .missingArtifact p => "Build did not produce expected archive " ++ p.toString
  | .copy p e => "Failed to copy archive to " ++ p.toString ++ ": " ++ e.message

/-- An archive with its size in bytes. -/
structure BuildArtifact where
  path : Path
  size : Nat
deriving DecidableEq

/-- The JSON form of an archive. -/
def BuildArtifact.toJson (a : BuildArtifact) : Json :=
  .record [("path", a.path.toJson), ("size", .nat a.size)]

/-- Describes an archive that is there. -/
def FileSystem.artifact (fs : FileSystem) (p : Path) : Except BuildError BuildArtifact :=
  match fs.find p with
  | .ok (_, .file content _) => .ok ⟨p, content.length⟩
  | _ => .error (.missingArtifact p)

/-- Copies the archive of a build into the output directory. -/
def collectArtifact (r : BuildRequest) : Attempt FileSystem BuildError BuildArtifact := do
  let fs ← get
  if !fs.isFile r.builtArchive then throw (.missingArtifact r.builtArchive)
  if r.archive.same r.builtArchive then
    match fs.artifact r.builtArchive with
    | .ok a => return a
    | .error e => throw e
  (createDirectories r.outputDir).wrapping (.copy r.outputDir)
  let size ← (copyBytes r.builtArchive r.archive).wrapping (.copy r.archive)
  return ⟨r.archive, size⟩

end ConstPromotion
