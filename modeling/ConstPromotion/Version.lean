/-!
# Version
-/

namespace ConstPromotion

/-- The name of the program. -/
def programName : String := "constpatch"

/-- The version of the program. -/
def version : String := "0.1.0"

end ConstPromotion
