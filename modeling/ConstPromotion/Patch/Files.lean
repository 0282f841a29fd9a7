import ConstPromotion.Backup.Store
import ConstPromotion.Patch.Report

/-!
# Promotion of files

A file is changed only after there is a backup of it. A file that is missing is left out of the
pass, and one without declarations is left as it is. Any other failure ends the pass.

A promotion reads a file, keeps a backup of it and writes it, and the disk that holds the files may
refuse each of these steps.
-/

namespace ConstPromotion

/-- Why a file could not be promoted. -/
inductive PatchError where
  | read (path : Path) (cause : OsError)
  | write (path : Path) (cause : OsError)
  | backup (cause : BackupError)
deriving DecidableEq

/-- The wording of an error. -/
def PatchError.message : PatchError → String
  | .read p e => "Failed to read " ++ p.toString ++ ": " ++ e.message
  | .write p e => "Failed to write patched file " ++ p.toString ++ ": " ++ e.message
  | .backup e => e.message

/-- Promotes the declarations of a file on a disk. A dry run only says what would be done. -/
def patchFileOn (disk : Disk) (options : PatchOptions) (dryRun : Bool) (path : Path) :
    Attempt Guarded PatchError FileOutcome := do
  if !(← Attempt.query (disk.isFile · path)) then
    return ⟨path, .skipped .missing, [], none⟩
  let content ← (Attempt.inspect (disk.read · path)).wrapping (.read path)
  let patched := patchBytes options content
  if patched.declarations = [] then
    return ⟨path, .unchanged, [], none⟩
  if dryRun then
    return ⟨path, .dryRun, patched.declarations, none⟩
  let backup ← (ensureBackupOn disk path content).wrapping .backup
  (Attempt.change (disk.write · path patched.content)).wrapping (.write path)
  return ⟨path, .patched, patched.declarations, some backup⟩

/-- Promotes the declarations of a file. -/
def patchFile (options : PatchOptions) (dryRun : Bool) (path : Path) :
    Attempt Guarded PatchError FileOutcome :=
  patchFileOn .plain options dryRun path

/-- Promotes files of a disk in order. -/
def patchFilesOn (disk : Disk) (options : PatchOptions) (dryRun : Bool) (paths : List Path) :
    Attempt Guarded PatchError PatchReport := do
  return ⟨← paths.mapM (patchFileOn disk options dryRun)⟩

/-- Promotes files in order. -/
def patchFiles (options : PatchOptions) (dryRun : Bool) (paths : List Path) :
    Attempt Guarded PatchError PatchReport :=
  patchFilesOn .plain options dryRun paths

end ConstPromotion
