import ConstPromotion.FileSystem.Resolve

/-!
# Reading and changing files

Each operation answers with the file system after it, or with the error that kept it from changing
anything. Only making a directory with its parents can fail halfway, so it gives both.
-/

namespace ConstPromotion.FileSystem

/-! ### Reading -/

/-- The content of the file that a path leads to. -/
def read (fs : FileSystem) (p : Path) : Except OsError Bytes := do
  match ← fs.find p with
  | (_, .file content _) => return content
  | _ => .error .isDirectory

/-- The content of a file as text. -/
def readText (fs : FileSystem) (p : Path) : Except OsError String := do
  match Utf8.decode? (← fs.read p) with
  | some text => return String.ofList text
  | none => .error .notUtf8

/-- The entries of the directory that a path leads to, in the order of their names. -/
def children (fs : FileSystem) (p : Path) : Except OsError (List (Name × Node)) := do
  match ← fs.find p with
  | (l, .directory) => return fs.childrenAt l
  | _ => .error .notDirectory

/-! ### Writing -/

/-- Where a file is to be written: the location, and whether the file that is there can be
executed. -/
def writePlace (fs : FileSystem) (p : Path) : Except OsError (Location × Bool) := do
  match ← fs.resolve .file p with
  | .found l (.file _ executable) => return (l, executable)
  | .found _ _ => .error .isDirectory
  | .free l => return (l, false)

/-- Writes a file, which is made if it does not exist. -/
def write (fs : FileSystem) (p : Path) (content : Bytes) : Except OsError FileSystem := do
  let (l, executable) ← fs.writePlace p
  return fs.put l (.file content executable)

/-- Copies a file over another one, which is made if it does not exist, and gives the number of
bytes copied. The target is emptied before anything is read, so a file that is copied over itself
ends up empty. -/
def copy (fs : FileSystem) (source target : Path) : Except OsError (Nat × FileSystem) := do
  match ← fs.find source with
  | (_, .file _ executable) =>
    let (l, _) ← fs.writePlace target
    let emptied := fs.put l (.file [] executable)
    let content ← emptied.read source
    return (content.length, emptied.put l (.file content executable))
  | _ => .error .isDirectory

/-- A path without the slashes it ends in. -/
def dropSlashes (p : Path) : Path :=
  match (p.chars.reverse.dropWhile (· = '/')).reverse with
  | [] => p
  | chars => ⟨chars⟩

/-- Makes a directory. The path may end in slashes, and a link that lies there is in the way. -/
def createDirectory (fs : FileSystem) (p : Path) : Except OsError FileSystem := do
  match ← fs.resolve .link (dropSlashes p) with
  | .found _ _ => .error .exists
  | .free l => return fs.put l .directory

/-- Makes a directory after the `parents` levels above it, as far as they are missing. -/
def createDirectoriesWithin (fs : FileSystem) (p : Path) :
    (parents : Nat) → Except OsError Unit × FileSystem
  | 0 => (.error .notFound, fs)
  | parents + 1 =>
    if p.chars = [] then (.ok (), fs)
    else
      match fs.createDirectory p with
      | .ok fs => (.ok (), fs)
      | .error e =>
        if e = .notFound then
          match p.parent? with
          | none => (.error e, fs)
          | some parent =>
            match createDirectoriesWithin fs parent parents with
            | (.error e, fs) => (.error e, fs)
            | (.ok (), fs) =>
              match fs.createDirectory p with
              | .ok fs => (.ok (), fs)
              | .error e => if fs.isDirectory p then (.ok (), fs) else (.error e, fs)
        else if fs.isDirectory p then (.ok (), fs)
        else (.error e, fs)

/-- Makes a directory and its parents, as far as they are missing. -/
def createDirectories (fs : FileSystem) (p : Path) : Except OsError Unit × FileSystem :=
  fs.createDirectoriesWithin p (p.spans.length + 1)

/-- Makes a link. -/
def createLink (fs : FileSystem) (target : List Char) (p : Path) : Except OsError FileSystem := do
  match ← fs.resolve .link p with
  | .found _ _ => .error .exists
  | .free l => return fs.put l (.link target)

/-- Removes a file, a link or a directory with all that is in it. -/
def removeTree (fs : FileSystem) (p : Path) : Except OsError FileSystem := do
  match ← fs.resolve .link p with
  | .found l _ => return fs.removeAt l
  | .free _ => .error .notFound

/-- Lets a file be executed or not. -/
def setExecutable (fs : FileSystem) (p : Path) (executable : Bool) :
    Except OsError FileSystem := do
  match ← fs.find p with
  | (l, .file content _) => return fs.put l (.file content executable)
  | _ => return fs

end ConstPromotion.FileSystem
