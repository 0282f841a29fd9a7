import ConstPromotion.World

/-!
# Programs

Where a program is found by its name, and what the system starts for it. A name with a slash is a
path; any other name is looked for in the directories of the search path, from the working directory
of the process that is started. The file of a script names an interpreter, which is started in its
place and may be a script in turn. The utilities of the system are files that hold the name of the
utility after the mark of machine code.
-/

namespace ConstPromotion

/-! ### What files of programs hold -/

/-- The names of the utilities that are programs, shells included. -/
def utilityNames : List String :=
  ["sh", "dash", "bash", "env", "true", "false", "sleep", "echo", "printf", "test", "head", "ls",
    "ln", "rmdir", "cat", "cp", "mkdir", "rm", "mv", "touch", "chmod", "readelf"]

/-- The content of the file of a utility. -/
def utilityImage (name : String) : Bytes := [0x7F, 0x45, 0x4C, 0x46] ++ bytesOf name

/-- The utility whose file has a content. -/
def utilityOf? (content : Bytes) : Option String :=
  (([0x7F, 0x45, 0x4C, 0x46].isPrefixOf? content).map lossyString).filter utilityNames.contains

/-- The interpreter that a script names, with the argument that stands after it. -/
structure Interpreter where
  name : Bytes
  argument : Option Bytes
deriving DecidableEq

namespace Interpreter

/-- How many bytes of a file are looked at to tell what kind of program it is. -/
def headSize : Nat := 256

/-- Bytes that separate an interpreter from its argument. -/
def isBlankByte (b : UInt8) : Bool := b = 0x20 || b = 0x09

/-- The interpreter and argument that a line names. -/
def ofLine (line : Bytes) : Interpreter :=
  let line := line.dropWhile isBlankByte
  let name := line.takeWhile (!isBlankByte ·)
  let rest := line.drop name.length
  ⟨name, if rest = [] then none else some (rest.dropWhile isBlankByte)⟩

/-- The interpreter and argument that a line names whose trailing blanks do not count, if it names
one. -/
def ofTrimmedLine? (line : Bytes) : Option Interpreter :=
  let line := (line.reverse.dropWhile isBlankByte).reverse
  if line = [] then none else some (ofLine line)

/-- The interpreter that a file names. Its line ends at a line feed; a line without one may end at a
NUL or where the file ends. A longer line is cut, unless the name itself may have been cut. -/
def ofContent? (content : Bytes) : Option Interpreter :=
  match [0x23, 0x21].isPrefixOf? (content.take headSize) with
  | none => none
  | some body =>
    let line := body.takeWhile fun b => b ≠ 0x0A && b ≠ 0
    match body.drop line.length with
    | 0x0A :: _ => ofTrimmedLine? line
    | [] =>
      if content.length < headSize then some (ofLine line)
      else if (line.dropWhile isBlankByte).any isBlankByte then ofTrimmedLine? line.dropLast
      else none
    | _ => some (ofLine line)

end Interpreter

/-! ### Starting -/

/-- What the system starts for a program: a utility with its arguments. -/
structure Image where
  utility : String
  arguments : List String
deriving DecidableEq

namespace FileSystem

/-- The content of a file that can be executed. -/
def executable (fs : FileSystem) (p : Path) : Except OsError Bytes := do
  match ← fs.find p with
  | (_, .file content true) => return content
  | _ => .error .permissionDenied

/-- What is started for the file of a program, if at most `depth` files are looked at. -/
def imageWithin (fs : FileSystem) : (depth : Nat) → Path → (arguments : List String) →
    Except OsError Image
  | 0, _, _ => .error .tooManyLinks
  | depth + 1, p, arguments => do
    let content ← fs.executable p
    match Interpreter.ofContent? content, utilityOf? content with
    | some i, _ =>
      imageWithin fs depth (.ofString (lossyString i.name))
        (i.argument.toList.map lossyString ++ p.toString :: arguments)
    | none, some utility => return ⟨utility, arguments⟩
    | none, none => .error .execFormat

/-- How many files are looked at: the program, and interpreters of interpreters. -/
def maxInterpreters : Nat := 6

/-- What is started for the file of a program. -/
def image (fs : FileSystem) (p : Path) (arguments : List String) : Except OsError Image :=
  fs.imageWithin maxInterpreters p arguments

end FileSystem

/-! ### Looking programs up -/

/-- The directories that are searched without a search path. -/
def defaultSearchPath : String := "/bin:/usr/bin"

/-- The directories of a search path; an empty one is the working directory. -/
def searchDirectories (path : String) : List Path := (path.toList.splitOn ':').map Path.mk

/-- The path under which a program is tried in a directory. -/
def candidate (dir : Path) (name : String) : Path :=
  if dir.chars = [] then .ofString name else ⟨dir.chars ++ '/' :: name.toList⟩

/-- Tries paths in order. One that cannot be started because it or its interpreter is missing or may
not be executed is passed over; if nothing can be started, a file that may not be executed is what
the search fails with, else the last path. Any other failure ends the search. -/
def firstStarted {α : Type} (start : Path → Except OsError α) :
    (failure : OsError) → List Path → Except OsError α
  | failure, [] => .error failure
  | failure, p :: ps =>
    match start p with
    | .ok a => .ok a
    | .error e =>
      if e = .permissionDenied ∨ e = .notFound ∨ e = .notDirectory then
        firstStarted start (if failure = .permissionDenied then failure else e) ps
      else .error e

/-- Starts the program with a name in one way. -/
def World.startNamed {α : Type} (w : World) (start : Path → Except OsError α) (name : String) :
    Except OsError α :=
  if name = "" then .error .notFound
  else if name.toList.contains '/' then start (.ofString name)
  else
    firstStarted start .notFound
      ((searchDirectories ((w.env.get? "PATH").getD defaultSearchPath)).map (candidate · name))

/-- What is started for the program with a name. -/
def World.image (w : World) (name : String) (arguments : List String) : Except OsError Image :=
  w.startNamed (w.fs.image · arguments) name

/-- What a shell starts for the program with a name: a file that is no program is run as a script of
the shell. -/
def World.shellImage (w : World) (name : String) (arguments : List String) :
    Except OsError Image :=
  w.startNamed (fun p =>
    match w.fs.image p arguments with
    | .error .execFormat => .ok ⟨"sh", p.toString :: arguments⟩
    | result => result) name

end ConstPromotion
