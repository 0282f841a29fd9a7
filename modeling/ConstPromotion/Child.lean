import ConstPromotion.Shell.Run

/-!
# Child processes

Starting a program in a directory and waiting for its end. A program that cannot be started is told
apart from one that ends badly.
-/

namespace ConstPromotion

/-- A program with its arguments, and the directory to start it in. -/
structure Invocation where
  program : String
  arguments : List String
  directory : Option Path := none

namespace Invocation

/-- How deep commands, substitutions and scripts of a child may be nested. -/
def nesting : Nat := 10000

/-- The world as a child sees it that starts in the directory. -/
def inDirectory (i : Invocation) (w : World) : Except OsError World :=
  match i.directory with
  | none => .ok w
  | some dir => do
    match ← w.fs.find dir with
    | (l, .directory) => return { w with fs := { w.fs with workingDir := l } }
    | _ => .error .notDirectory

/-- Whether a NUL stands in what the program is given. -/
def holdsNul (i : Invocation) : Bool :=
  (i.program :: i.arguments ++ (i.directory.map Path.toString).toList).any fun s =>
    s.toList.contains '\x00'

/-- The world as the child sees it, and what is started in it. -/
def image (i : Invocation) (w : World) : Except OsError (World × Image) := do
  if i.holdsNul then throw .nulInArgument
  let started ← i.inDirectory w
  return (started, ← started.image i.program i.arguments)

/-- Runs the program to its end. -/
def run (i : Invocation) : Action OsError ExitStatus := ExceptT.mk fun w =>
  match i.image w with
  | .error e => (.error e, w)
  | .ok (started, image) =>
    let (ended, after) := (Shell.execute nesting {} image).run started
    (.ok ended, { after with fs := { after.fs with workingDir := w.fs.workingDir } })

/-- Runs the program to its end and gives what it wrote to the standard output. -/
def runForOutput (i : Invocation) : Action OsError (ExitStatus × Bytes) := do
  let before ← get
  set { before with stdout := [], stderr := [] }
  let result ← i.run.outcome
  let after ← get
  set { after with stdout := before.stdout, stderr := before.stderr }
  match result with
  | .ok ended => return (ended, after.stdout)
  | .error e => throw e

end Invocation

end ConstPromotion
