import ConstPromotion.Backup.Store

/-!
# Putting backups back

A file is restored by copying its backup over it. A tree is restored file by file in the order of a
walk: every regular file whose name is some name and the suffix is taken as the backup of the file
with that name beside it. Versioned backups have other names and are left alone, and so is what the
walk does not get to: what a disk does not list, and names that are no text.
-/

namespace ConstPromotion

/-- Copies the backup of a file of a disk over it, and tells whether there was one. -/
def restoreFileOn (disk : Disk) (source : Path) (suffix : List Char) :
    Attempt FileSystem BackupError Bool := do
  let backup := backupPath source suffix
  if backup.same source then throw (.sameAsSource backup)
  if !(← Attempt.query (disk.isFile · backup)) then return false
  let _ ← (copyBytesOn disk backup source).wrapping (.restore backup source)
  return true

/-- Copies the backup of a file over it, and tells whether there was one. -/
def restoreFile (source : Path) (suffix : List Char) : Attempt FileSystem BackupError Bool :=
  restoreFileOn .plain source suffix

/-- The file that the one at `backup` is the backup of, by their names. A name that is no text is
not taken apart. -/
def Disk.protectedPath? (disk : Disk) (backup : Path) (suffix : List Char) : Option Path :=
  let name := backup.fileName?.getD backup.chars
  if disk.isText name then
    match suffix.isSuffixOf? name with
    | some (c :: name) => some (backup.withFileName (c :: name))
    | _ => none
  else none

/-- Restores the file that the one at `backup` is the backup of, if it is one, and gives its path.
-/
def restoreFromOn (disk : Disk) (suffix : List Char) (backup : Path) :
    Attempt FileSystem BackupError (List Path) := do
  match disk.protectedPath? backup suffix with
  | none => return []
  | some source => return if ← restoreFileOn disk source suffix then [source] else []

/-- Restores every file below a root on a disk that has a backup, and gives their paths in the order
of the walk. -/
def restoreTreeOn (disk : Disk) (root : Path) (suffix : List Char) :
    Attempt FileSystem BackupError (List Path) := do
  if suffix = [] then throw .emptySuffix
  let fs ← get
  disk.walk fs (fun dir => do return disk.entriesOf (← get) dir) (restoreFromOn disk suffix) root

/-- Restores every file below a root that has a backup, and gives their paths in the order of the
walk. -/
def restoreTree (root : Path) (suffix : List Char) :
    Attempt FileSystem BackupError (List Path) :=
  restoreTreeOn .plain root suffix

end ConstPromotion
