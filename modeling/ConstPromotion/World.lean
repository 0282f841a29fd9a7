import ConstPromotion.Attempt

/-!
# The world of a run

What a run can see and change: files, environment variables, and what is written to the two output
streams. An `Action` is an attempt that runs in a world, and works on every state that holds one.
-/

namespace ConstPromotion

/-- What a run can see and change. -/
structure World where
  fs : FileSystem
  /-- The environment variables. -/
  env : SortedMap String String
  /-- What was written to the standard output. -/
  stdout : Bytes := []
  /-- What was written to the standard error. -/
  stderr : Bytes := []
  /-- The time that reports are dated with. -/
  clock : String := ""

instance : HasFiles World := ⟨World.fs, fun w fs => { w with fs }⟩

/-- What runs in a world, and gives a result or an error. -/
abbrev Action (ε α : Type) := Attempt World ε α

/-- A state that holds a world. -/
class HasWorld (σ : Type) extends HasFiles σ where
  world : σ → World
  withWorld : σ → World → σ

instance : HasWorld World where
  world := id
  withWorld _ w := w

/-- Runs an action on the world of the state. -/
def Attempt.onWorld {σ ε α : Type} [HasWorld σ] (a : Action ε α) : Attempt σ ε α :=
  a.onPart HasWorld.world HasWorld.withWorld

variable {ε : Type}

/-- Writes to the standard output. -/
def printBytes (b : Bytes) : Action ε Unit := modify fun w => { w with stdout := w.stdout ++ b }

/-- Writes to the standard error. -/
def printErrorBytes (b : Bytes) : Action ε Unit :=
  modify fun w => { w with stderr := w.stderr ++ b }

/-- Writes a line to the standard output. -/
def printLine (s : String) : Action ε Unit := printBytes (bytesOf (s ++ "\n"))

/-- Writes a line to the standard error. -/
def printErrorLine (s : String) : Action ε Unit := printErrorBytes (bytesOf (s ++ "\n"))

/-- The value of an environment variable. -/
def envVar? (name : String) : Action ε (Option String) := do return (← get).env.get? name

end ConstPromotion
