import ConstPromotion.Shell.Program
import ConstPromotion.Shell.Status
import ConstPromotion.Shell.Syntax

/-!
# Running scripts: the state

A script runs in a world, with its arguments, its variables and the places where its output goes. It
ends early when it is told to exit or when a signal ends it.
-/

namespace ConstPromotion

/-- Where output goes. -/
inductive Sink where
  | stdout
  | stderr
  | file (location : Location)
  | nowhere
deriving DecidableEq

/-- Adds output to where it goes. -/
def World.write (w : World) (sink : Sink) (b : Bytes) : World :=
  match sink with
  | .stdout => { w with stdout := w.stdout ++ b }
  | .stderr => { w with stderr := w.stderr ++ b }
  | .nowhere => w
  | .file l =>
    match w.fs.nodeAt l with
    | some (.file content executable) =>
      { w with fs := w.fs.put l (.file (content ++ b) executable) }
    | _ => w

namespace Shell

/-- Where the input of a process comes from and its output goes. -/
structure Streams where
  input : Bytes := []
  out : Sink := .stdout
  err : Sink := .stderr

/-- The state of a running script. -/
structure State extends Streams where
  world : World
  /-- The name of the script. -/
  name : String
  arguments : List String
  vars : SortedMap String String
  /-- The status of the last command. -/
  status : Nat := 0
  /-- How many lines the script has. -/
  lines : Nat := 0
  /-- Whether the script ends at the first failure. -/
  stopsAtFailure : Bool := false

/-- What a script does; it may end early. -/
abbrev Run (α : Type) := ExceptT ExitStatus (StateM State) α

/-- Changes the world. -/
def onWorld (f : World → World) : Run Unit := modify fun s => { s with world := f s.world }

/-- The files. -/
def files : Run FileSystem := do return (← get).world.fs

/-- Writes to the output. -/
def put (b : Bytes) : Run Unit := do
  let out := (← get).out
  onWorld (·.write out b)

/-- Writes text to the output. -/
def say (s : String) : Run Unit := put (bytesOf s)

/-- Writes a line to the error stream. -/
def complain (s : String) : Run Unit := do
  let err := (← get).err
  onWorld (·.write err (bytesOf (s ++ "\n")))

/-- Changes the files, or says what failed. -/
def change (subject : String) (act : FileSystem → Except OsError FileSystem) : Run Nat := do
  let s ← get
  match act s.world.fs with
  | .ok fs =>
    set { s with world := { s.world with fs } }
    return 0
  | .error e =>
    complain (subject ++ ": " ++ e.description)
    return 1

/-- Gives a variable a value, which is passed on if the variable is exported. -/
def assign (name value : String) : Run Unit := modify fun s =>
  let env := if (s.world.env.get? name).isSome then s.world.env.insert name value else s.world.env
  { s with vars := s.vars.insert name value, world := { s.world with env } }

/-- Runs something in a subshell, whose variables, directory and exit are its own. A signal that a
subshell sends to the script ends the script. -/
def inSubshell (body : Run Unit) : Run Unit := do
  let s ← get
  let (result, after) := body.run.run s
  let fs := { after.world.fs with workingDir := s.world.fs.workingDir }
  let s := { s with world := { after.world with fs, env := s.world.env } }
  match result with
  | .ok () => set { s with status := after.status }
  | .error (.exited code) => set { s with status := code }
  | .error (.killed signal) =>
    set s
    throw (.killed signal)

/-- Runs something in a subshell and gives what it wrote to its output. -/
def capturing (body : Run Unit) : Run Bytes := do
  let s ← get
  set { s with world := { s.world with stdout := [] }, out := .stdout }
  inSubshell body
  let after ← get
  set { after with out := s.out, world := { after.world with stdout := s.world.stdout } }
  return after.world.stdout

/-- Runs a condition, whose failure does not end the script. -/
def asCondition (body : Run Unit) : Run Unit := do
  let s ← get
  set { s with stopsAtFailure := false }
  body
  modify fun after => { after with stopsAtFailure := s.stopsAtFailure }

/-- Ends the script after a failure, if it is told to. -/
def checkFailure : Run Unit := do
  let s ← get
  if s.stopsAtFailure ∧ s.status ≠ 0 then throw (.exited s.status)

/-- Adds up the statuses of one action for each of several things. -/
def eachOf {α : Type} (things : List α) (act : α → Run Nat) : Run Nat :=
  things.foldlM (fun status thing => do return max status (← act thing)) 0

end Shell

end ConstPromotion
