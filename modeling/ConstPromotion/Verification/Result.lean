import ConstPromotion.Json.Decode
import ConstPromotion.Section.Flags

/-!
# Verification results

What the sections found in an archive amount to. A section that was annotated and can still be
written is a violation. The verdict is a failure if there is a violation, a warning if there was no
section to look at, and a pass otherwise.
-/

namespace ConstPromotion

/-- What a verification concludes. -/
inductive Verdict where
  | pass
  | fail
  /-- No member has an annotated section: reported, and not fatal. -/
  | skippedWarning
deriving DecidableEq

/-- An annotated section that can be written. -/
structure Violation where
  object : String
  flags : String
deriving DecidableEq

/-- What the sections of an archive amount to. -/
structure VerificationResult where
  /-- One if there is an annotated section, else zero. -/
  found : Nat
  /-- The number of annotated sections. -/
  sections : Nat
  /-- The number of annotated sections that can be written. -/
  violations : Nat
  violating : List Violation
deriving DecidableEq

/-- The line that reports a violation. -/
def Violation.line (v : Violation) : String := v.object ++ ": flags=" ++ v.flags

namespace VerificationResult

/-- The verdict on an archive. -/
def verdict (r : VerificationResult) : Verdict :=
  if r.violations > 0 then .fail else if r.found = 0 then .skippedWarning else .pass

/-- One line for each violation. -/
def lines (r : VerificationResult) : List String := r.violating.map Violation.line

/-- Sums up the annotated sections of an archive, in their order. -/
def ofRecords (records : List SectionRecord) : VerificationResult :=
  let violating := (records.filter (·.isWritable)).map fun r => ⟨r.object, r.flags⟩
  { found := if records = [] then 0 else 1
    sections := records.length
    violations := violating.length
    violating }

end VerificationResult

/-! ### Written forms -/

namespace Verdict

/-- The name of a verdict in reports. -/
def name : Verdict → String
  | .pass => "pass"
  | .fail => "fail"
  | .skippedWarning => "skipped_warning"

/-- The verdict of a name. -/
def ofName? (name : String) : Option Verdict :=
  [.pass, .fail, .skippedWarning].find? (·.name = name)

/-- Reads a verdict. -/
def ofJson? (v : Json) : Option Verdict := v.name?.bind ofName?

end Verdict

namespace SectionRecord

/-- The JSON form of a section. -/
def toJson (r : SectionRecord) : Json :=
  .record [("object", .text r.object), ("name", .text r.name), ("flags", .text r.flags)]

/-- Reads a section. -/
def ofJson? (v : Json) : Option SectionRecord := do
  let given ← v.fieldsOf? ["object", "name", "flags"]
  return {
    object := ← (given "object").required Json.text?
    name := ← (given "name").required Json.text?
    flags := ← (given "flags").required Json.text? }

end SectionRecord

namespace Violation

/-- The JSON form of a violation. -/
def toJson (v : Violation) : Json :=
  .record [("object", .text v.object), ("flags", .text v.flags)]

/-- Reads a violation. -/
def ofJson? (v : Json) : Option Violation := do
  let given ← v.fieldsOf? ["object", "flags"]
  return {
    object := ← (given "object").required Json.text?
    flags := ← (given "flags").required Json.text? }

end Violation

namespace VerificationResult

/-- The JSON form of a result. -/
def toJson (r : VerificationResult) : Json :=
  .record [("found", .nat r.found), ("sections", .nat r.sections),
    ("violations", .nat r.violations), ("violating", .array (r.violating.map Violation.toJson))]

/-- Reads a result. -/
def ofJson? (v : Json) : Option VerificationResult := do
  let given ← v.fieldsOf? ["found", "sections", "violations", "violating"]
  return {
    found := ← (given "found").required (Json.nat? Decimal.word32)
    sections := ← (given "sections").required (Json.nat? Decimal.word64)
    violations := ← (given "violations").required (Json.nat? Decimal.word64)
    violating := ← (given "violating").required (Json.list? Violation.ofJson?) }

end VerificationResult

end ConstPromotion
