import ConstPromotion.Attempt
import ConstPromotion.Backup.Naming

/-!
# Keeping backups

A store remembers which backups exist, so that the file system is asked at most once for each path
and never overwritten: a backup is written only where the store knows of none. Paths that denote the
same components are the same to a store.
-/

namespace ConstPromotion

/-- Why a backup could not be made or put back. -/
inductive BackupError where
  | write (path : Path) (cause : OsError)
  | restore (backup target : Path) (cause : OsError)
  | emptySuffix
  /-- The backup would be the file itself. -/
  | sameAsSource (path : Path)
deriving DecidableEq

/-- The wording of an error. -/
def BackupError.message : BackupError → String
  | .write p e => "Failed to write backup " ++ p.toString ++ ": " ++ e.message
  | .restore b t e =>
    "Failed to restore " ++ t.toString ++ " from " ++ b.toString ++ ": " ++ e.message
  | .emptySuffix => "Backup suffix must not be empty"
  | .sameAsSource p => "Backup path " ++ p.toString ++ " is the file it should protect"

/-- Which backups are known to exist or to be missing. -/
structure BackupStore where
  suffix : List Char
  policy : BackupPolicy
  known : List (List Component × Bool) := []

namespace BackupStore

/-- Where the backup of a file with a content belongs. -/
def path (store : BackupStore) (source : Path) (content : Bytes) : Path :=
  store.policy.path source store.suffix content

/-- What is known of a path. -/
def lookup (store : BackupStore) (p : Path) : Option Bool := store.known.lookup p.components

/-- Remembers whether there is a backup at a path. -/
def remember (store : BackupStore) (p : Path) (present : Bool) : BackupStore :=
  { store with known := (p.components, present) :: store.known }

end BackupStore

/-- Files together with a store of backups. -/
structure Guarded where
  fs : FileSystem
  store : BackupStore

instance : HasFiles Guarded := ⟨Guarded.fs, fun g fs => { g with fs }⟩

/-- Whether there is something at the path of a backup on a disk. The files are asked only if nothing
is known of the path. -/
def backupExistsOn {ε : Type} (disk : Disk) (backup : Path) : Attempt Guarded ε Bool := do
  let g ← get
  match g.store.lookup backup with
  | some present => return present
  | none =>
    let present := disk.exists? g.fs backup
    set { g with store := g.store.remember backup present }
    return present

/-- Whether there is something at the path of a backup. -/
def backupExists {ε : Type} (backup : Path) : Attempt Guarded ε Bool :=
  backupExistsOn .plain backup

/-- Keeps a content as the backup of a file on a disk unless there is one already. -/
def ensureBackupOn (disk : Disk) (source : Path) (content : Bytes) :
    Attempt Guarded BackupError BackupOutcome := do
  let backup := (← get).store.path source content
  if backup.same source then throw (.sameAsSource backup)
  if ← backupExistsOn disk backup then return ⟨backup, false⟩
  (Attempt.change (disk.write · backup content)).wrapping (.write backup)
  modify fun g => { g with store := g.store.remember backup true }
  return ⟨backup, true⟩

/-- Keeps a content as the backup of a file unless there is one already. -/
def ensureBackup (source : Path) (content : Bytes) : Attempt Guarded BackupError BackupOutcome :=
  ensureBackupOn .plain source content

end ConstPromotion
