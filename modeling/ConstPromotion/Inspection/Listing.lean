import ConstPromotion.Child
import ConstPromotion.Inspection.Inspector
import ConstPromotion.Section.Table

/-!
# Inspection by a listing tool
-/

namespace ConstPromotion

/-- Runs a section listing tool on object files and reads the table it prints. -/
def listingInspector (tool : Path) : SectionInspector where
  name := InspectorKind.readelf.name
  inspect p := do
    let call : Invocation :=
      { program := tool.toString, arguments := ["-S", "-W", p.toString] }
    let (ended, output) ← call.runForOutput.wrapping fun e =>
      .tool ("failed to spawn " ++ tool.toString ++ ": " ++ e.message)
    if !ended.isSuccess then
      throw (.tool (tool.toString ++ " exited with " ++ ended.message ++ " for " ++ p.toString))
    return (sectionTable (Utf8.decodeLossy output)).map fun (name, flags) =>
      ⟨objectName p, name, flags⟩

end ConstPromotion
