import ConstPromotion.Text.Decimal
import ConstPromotion.Text.Hidden
import ConstPromotion.World

/-!
# Scratch directories

A scratch directory has a name that no other entry of its parent has. It is removed with all that is
in it when the work in it ends, also when the work fails.
-/

namespace ConstPromotion

/-- Why there is no scratch directory, with its path if it could not be made or removed. -/
structure ScratchError where
  cause : OsError
  path : Option Path := none
deriving DecidableEq

/-- How a character stands between the double quotes around a path. -/
def quotedPathChar (c : Char) : List Char :=
  match c with
  | '"' => ['\\', '"']
  | '\\' => ['\\', '\\']
  | '\n' => ['\\', 'n']
  | '\r' => ['\\', 'r']
  | '\t' => ['\\', 't']
  | '\x00' => ['\\', '0']
  | c =>
    if isHidden c then
      "\\u\x7b".toList ++ Nat.toDigits 16 c.toNat ++ ['\x7d']
    else [c]

/-- The wording of an error. -/
def ScratchError.message (e : ScratchError) : String :=
  e.cause.message ++ match e.path with
    | none => ""
    | some p => " at path \"" ++ String.ofList (p.chars.flatMap quotedPathChar) ++ "\""

/-- What the names of scratch directories start with. -/
def scratchStem : String := "constcheck-"

/-- The name of a scratch directory with a number. -/
def scratchName (n : Nat) : Name := scratchStem.toList ++ Decimal.renderPadded 6 n

variable {σ ε : Type}

/-- Makes the first scratch directory in `parent` that is not there yet, trying `tries` names from
number `n` on. -/
def createScratchFrom [HasFiles σ] (wrap : ScratchError → ε) (parent : Path) (n : Nat) :
    (tries : Nat) → Attempt σ ε Path
  | 0 => throw (wrap ⟨.exists, some (parent.child (scratchName n))⟩)
  | tries + 1 => do
    let p := parent.child (scratchName n)
    match ← (createDirectory p).outcome with
    | .ok () => return p
    | .error .exists => createScratchFrom wrap parent (n + 1) tries
    | .error e => throw (wrap ⟨e, some p⟩)

/-- Where scratch directories are made unless a place is given. -/
def temporaryDirectory : Action ε Path := do
  return .ofString ((← envVar? "TMPDIR").getD "/tmp")

variable [HasWorld σ]

/-- Makes a scratch directory at a place. A relative place is taken from the working directory. -/
def createScratch (wrap : ScratchError → ε) (place : Option Path) : Attempt σ ε Path := do
  let parent ← match place with
    | some p => pure p
    | none => temporaryDirectory.onWorld
  let parent ←
    if parent.isAbsolute then pure parent
    else do
      let here ← (Attempt.inspect (·.currentDir)).wrapping fun e => wrap ⟨e, none⟩
      pure (here.join parent)
  createScratchFrom wrap parent 0 ((← Attempt.query (·.nodes.entries.length)) + 1)

/-- Does work in a scratch directory. -/
def withScratch {α : Type} (wrap : ScratchError → ε) (place : Option Path)
    (work : Path → Attempt σ ε α) : Attempt σ ε α := do
  let scratch ← createScratch wrap place
  match ← (work scratch).outcome with
  | .ok a =>
    (removeTree scratch).wrapping fun e => wrap ⟨e, some scratch⟩
    return a
  | .error e =>
    (removeTree scratch).settle
    throw e

end ConstPromotion
