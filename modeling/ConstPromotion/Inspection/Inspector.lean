import ConstPromotion.Elf
import ConstPromotion.Inspection.Kind
import ConstPromotion.World

/-!
# Section inspectors

An inspector lists the sections of an object file. Whoever verifies an archive is handed one, so
that it does not matter how the sections are found.
-/

namespace ConstPromotion

/-- Why the sections of a file could not be listed. -/
inductive InspectError where
  | read (path : Path) (cause : OsError)
  | parse (path : Path) (cause : ElfError)
  | tool (message : String)
deriving DecidableEq

/-- The wording of an error. -/
def InspectError.message : InspectError → String
  | .read p e => "Failed to read object " ++ p.toString ++ ": " ++ e.message
  | .parse p e => "Failed to parse object " ++ p.toString ++ ": " ++ e.message
  | .tool m => "Section inspection tool error: " ++ m

/-- A way to list the sections of an object file. -/
structure SectionInspector where
  name : String
  inspect : Path → Action InspectError (List SectionRecord)

/-- How an object file is called in records. -/
def objectName (p : Path) : String :=
  match p.fileName? with
  | some n => String.ofList n
  | none => p.toString

/-- The records of the sections of an object file. -/
def elfRecords (object : String) (e : ElfFile) : List SectionRecord :=
  e.named.map fun (name, flags) => ⟨object, name, String.ofList (flagLetters flags)⟩

/-- Reads object files itself. -/
def elfInspector : SectionInspector where
  name := InspectorKind.builtin.name
  inspect p := do
    let bytes ← (readBytes p).wrapping (.read p)
    match ElfFile.parse? bytes with
    | .ok e => return elfRecords (objectName p) e
    | .error e => throw (.parse p e)

end ConstPromotion
