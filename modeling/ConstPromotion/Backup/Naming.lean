import ConstPromotion.Digest.Sha256
import ConstPromotion.Path.Basic

/-!
# Names of backups

A backup lies next to the file it protects. Its name is the name of the file and a suffix, and a
versioned backup has the start of the digest of its content after that.
-/

namespace ConstPromotion

/-- The suffix of backups unless another one is configured. -/
def defaultBackupSuffix : String := ".orig"

/-- Which contents of a file are kept. -/
inductive BackupPolicy where
  /-- The first backup of a file is kept and never overwritten. -/
  | firstWriteWins
  /-- Each content of a file has a backup of its own. -/
  | versioned
deriving DecidableEq

/-- The name of a policy in configurations. -/
def BackupPolicy.name : BackupPolicy → String
  | .firstWriteWins => "first-write-wins"
  | .versioned => "versioned"

/-- The policy of a name. -/
def BackupPolicy.ofName? (name : String) : Option BackupPolicy :=
  [.firstWriteWins, .versioned].find? (·.name = name)

/-- The path of the backup of `source` with a suffix. -/
def backupPath (source : Path) (suffix : List Char) : Path :=
  source.withFileName (source.fileName?.getD [] ++ suffix)

/-- How many digits of the digest a versioned backup has in its name. -/
def versionDigits : Nat := 8

/-- The path of the backup of `source` that keeps a content under the versioned policy. -/
def versionedBackupPath (source : Path) (suffix : List Char) (content : Bytes) : Path :=
  backupPath source (suffix ++ '.' :: (Sha256.hexDigest content).take versionDigits)

/-- The path of the backup of `source` that keeps a content under a policy. -/
def BackupPolicy.path (policy : BackupPolicy) (source : Path) (suffix : List Char)
    (content : Bytes) : Path :=
  match policy with
  | .firstWriteWins => backupPath source suffix
  | .versioned => versionedBackupPath source suffix content

/-- Where the backup of a file is, and whether it was made now or was there already. -/
structure BackupOutcome where
  path : Path
  created : Bool
deriving DecidableEq

end ConstPromotion
