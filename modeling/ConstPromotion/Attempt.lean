import ConstPromotion.FileSystem.Disk

/-!
# Attempts

An attempt runs on a state and gives a result or an error; what it did before an error stays done.
Many states hold a file system among other things, and the operations on files work on all of them.
-/

namespace ConstPromotion

/-- What runs on a state, and gives a result or an error. -/
abbrev Attempt (σ ε α : Type) := ExceptT ε (StateM σ) α

/-- A state that holds a file system. -/
class HasFiles (σ : Type) where
  files : σ → FileSystem
  withFiles : σ → FileSystem → σ

instance : HasFiles FileSystem := ⟨id, fun _ fs => fs⟩

namespace Attempt

variable {σ τ ε ε' α : Type}

/-- Reports the errors of an attempt in other words. -/
def wrapping (wrap : ε → ε') (a : Attempt σ ε α) : Attempt σ ε' α := a.adapt wrap

/-- Runs an attempt to its end, error or not. -/
def outcome (a : Attempt σ ε α) : Attempt σ ε' (Except ε α) :=
  ExceptT.mk (do return .ok (← a.run))

/-- Runs an attempt to its end and drops what comes of it, error or not. -/
def settle (a : Attempt σ ε α) : Attempt σ ε' Unit :=
  ExceptT.mk (do
    let _ ← a.run
    return .ok ())

/-- Runs an attempt on a part of the state. -/
def onPart (part : σ → τ) (withPart : σ → τ → σ) (a : Attempt τ ε α) : Attempt σ ε α :=
  ExceptT.mk fun s =>
    let (result, t) := a.run.run (part s)
    (result, withPart s t)

variable [HasFiles σ]

/-- Runs an attempt on the files of the state. -/
def onFiles (a : Attempt FileSystem ε α) : Attempt σ ε α :=
  a.onPart HasFiles.files HasFiles.withFiles

/-- Asks the files something that always has an answer. -/
def query (ask : FileSystem → α) : Attempt σ ε α := do return ask (HasFiles.files (← get))

/-- Asks the files something that can fail. -/
def inspect (ask : FileSystem → Except OsError α) : Attempt σ OsError α := do
  match ask (HasFiles.files (← get)) with
  | .ok a => return a
  | .error e => throw e

/-- Changes the files, or leaves them as they are and fails. -/
def change (act : FileSystem → Except OsError FileSystem) : Attempt σ OsError Unit := do
  let s ← get
  match act (HasFiles.files s) with
  | .ok fs => set (HasFiles.withFiles s fs)
  | .error e => throw e

end Attempt

/-! ### Files -/

section Files

variable {σ ε : Type} [HasFiles σ]

/-- Reads a file. -/
def readBytes (p : Path) : Attempt σ OsError Bytes := Attempt.inspect (·.read p)

/-- Writes a file. -/
def writeBytes (p : Path) (content : Bytes) : Attempt σ OsError Unit :=
  Attempt.change (·.write p content)

/-- Makes a directory. -/
def createDirectory (p : Path) : Attempt σ OsError Unit := Attempt.change (·.createDirectory p)

/-- Makes a directory and its parents, as far as they are missing. -/
def createDirectories (p : Path) : Attempt σ OsError Unit := do
  let s ← get
  let (result, fs) := (HasFiles.files s).createDirectories p
  set (HasFiles.withFiles s fs)
  match result with
  | .ok () => return ()
  | .error e => throw e

/-- Copies a file of a disk over another one and gives the number of bytes copied. -/
def copyBytesOn (disk : Disk) (source target : Path) : Attempt σ OsError Nat := do
  let s ← get
  match disk.copy (HasFiles.files s) source target with
  | .ok (size, fs) =>
    set (HasFiles.withFiles s fs)
    return size
  | .error e => throw e

/-- Copies a file over another one and gives the number of bytes copied. -/
def copyBytes (source target : Path) : Attempt σ OsError Nat := copyBytesOn .plain source target

/-- Removes a file, a link or a directory with all that is in it. -/
def removeTree (p : Path) : Attempt σ OsError Unit := Attempt.change (·.removeTree p)

end Files

end ConstPromotion
