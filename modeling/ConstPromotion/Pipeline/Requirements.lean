import ConstPromotion.Config.Basic
import ConstPromotion.Inspection.Kind
import ConstPromotion.Toolchain

/-!
# Tools that a run needs

A build needs the compiler, the archiver and the build tool. A verification by a listing tool needs
that tool.
-/

namespace ConstPromotion

/-- The tools that a run needs, given whether it verifies, whether it builds and how sections are
inspected. -/
def Config.requirements (c : Config) (verify build : Bool) (kind : InspectorKind) :
    List ToolRequirement :=
  (if build then
    [⟨"compiler", c.tools.cc⟩, ⟨"archiver", c.tools.ar⟩, ⟨"build tool", c.tools.make⟩]
  else [])
    ++ (if verify ∧ kind = .readelf then [⟨"section inspection tool", c.tools.readelf⟩] else [])

end ConstPromotion
