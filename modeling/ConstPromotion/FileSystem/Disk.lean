import ConstPromotion.FileSystem.Walk

/-!
# Disks

Files are used through a disk, and a disk may stand in the way for reasons that no file shows: it
may be full, or the user may not be allowed what he asks for. What is refused leaves everything as it
is. On the plain disk nothing stands in the way.
-/

namespace ConstPromotion

/-- What stands in the way of those who use files. -/
structure Disk where
  /-- Whether the bytes of a name are text. All names are written in characters here. Those that are
  no text are written in some that stand in for their bytes. -/
  isText : List Char → Bool := fun _ => true
  /-- Whether an entry comes up when the directory that it is in is listed. -/
  lists : (dir : Path) → Name → Bool := fun _ _ => true
  /-- Why a path cannot be followed. -/
  pathError? : Path → Option OsError := fun _ => none
  /-- Why a file cannot be read. -/
  readError? : FileSystem → Path → Option OsError := fun _ _ => none
  /-- Why a file cannot be written. -/
  writeError? : FileSystem → Path → Bytes → Option OsError := fun _ _ _ => none
  /-- Why a file cannot be copied over another one. -/
  copyError? : FileSystem → (source target : Path) → Option OsError := fun _ _ _ => none

/-- The result of an operation, unless there is a reason to refuse it. -/
def refusing {α : Type} (reason : Option OsError) (result : Except OsError α) : Except OsError α :=
  match reason with
  | some e => .error e
  | none => result

namespace Disk

/-- The disk on which nothing stands in the way. -/
def plain : Disk := {}

variable (disk : Disk) (fs : FileSystem)

/-- Whether a path leads to a regular file, as far as it can be followed. -/
def isFile (p : Path) : Bool := (disk.pathError? p).isNone && fs.isFile p

/-- Whether a path leads to a directory, as far as it can be followed. -/
def isDirectory (p : Path) : Bool := (disk.pathError? p).isNone && fs.isDirectory p

/-- Whether a path leads to anything, as far as it can be followed. -/
def exists? (p : Path) : Bool := (disk.pathError? p).isNone && fs.exists? p

/-- The content of the file that a path leads to. -/
def read (p : Path) : Except OsError Bytes :=
  refusing ((disk.pathError? p).or (disk.readError? fs p)) (fs.read p)

/-- Writes a file, which is made if it does not exist. -/
def write (p : Path) (content : Bytes) : Except OsError FileSystem :=
  refusing ((disk.pathError? p).or (disk.writeError? fs p content)) (fs.write p content)

/-- Copies a file over another one, which is made if it does not exist, and gives the number of
bytes copied. -/
def copy (source target : Path) : Except OsError (Nat × FileSystem) :=
  refusing ((disk.pathError? source).or ((disk.pathError? target).or
    (disk.copyError? fs source target))) (fs.copy source target)

/-- The entries of a directory that come up when it is listed, none if it cannot be listed. -/
def entriesOf (dir : Path) : List (Name × Node) :=
  if (disk.pathError? dir).isNone then (fs.entriesOf dir).filter (disk.lists dir ·.1) else []

/-- Walks the tree at `root`, if it can be followed there. -/
def walk {m : Type → Type} [Monad m] {β : Type} (list : Path → m (List (Name × Node)))
    (visit : Path → m (List β)) (root : Path) : m (List β) :=
  if (disk.pathError? root).isNone then fs.walk list visit root else pure []

/-- The regular files of the tree at `root` that a walk gets to, in its order. -/
def filesBelow (root : Path) : List Path :=
  Id.run (disk.walk fs (fun dir => pure (disk.entriesOf fs dir)) (fun p => pure [p]) root)

end Disk

end ConstPromotion
