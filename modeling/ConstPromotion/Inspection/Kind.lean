/-!
# Kinds of section inspectors

The two ways to list the sections of an object file, with the names they are chosen by.
-/

namespace ConstPromotion

/-- A way to list the sections of an object file. -/
inductive InspectorKind where
  /-- The file is read as ELF. -/
  | builtin
  /-- A listing tool is run on the file. -/
  | readelf
deriving DecidableEq

/-- The name an inspector is chosen by. -/
def InspectorKind.name : InspectorKind → String
  | .builtin => "builtin"
  | .readelf => "readelf"

/-- The inspector of a name. -/
def InspectorKind.ofName? (name : String) : Option InspectorKind :=
  [.builtin, .readelf].find? (·.name = name)

end ConstPromotion
