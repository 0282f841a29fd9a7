import ConstPromotion.Verification.Result

/-!
# Pipeline states

How far a pipeline has come. Each step moves it on, and without verification the build is the last
step.
-/

namespace ConstPromotion

/-- How far a pipeline has come. -/
inductive PipelineState where
  | notStarted
  | patched
  | built
  | verified (verdict : Verdict)
deriving DecidableEq

namespace PipelineState

/-- Whether nothing is left to do, given whether verification is part of the run. -/
def isTerminal (s : PipelineState) (verify : Bool) : Bool :=
  match s with
  | .verified _ => true
  | .built => !verify
  | _ => false

/-- The JSON form of a state: its name, and the verdict if it has one. -/
def toJson : PipelineState → Json
  | .notStarted => .record [("state", .text "not_started")]
  | .patched => .record [("state", .text "patched")]
  | .built => .record [("state", .text "built")]
  | .verified v => .record [("state", .text "verified"), ("verdict", .text v.name)]

/-- Reads a state. One without a verdict may have a null in its place. -/
def ofJson? (v : Json) : Option PipelineState := do
  let given ← v.fieldsOf? ["state", "verdict"]
  let state ← (given "state").required Json.name?
  let verdict ← Json.optional some (given "verdict")
  match state, verdict with
  | "not_started", none => some .notStarted
  | "patched", none => some .patched
  | "built", none => some .built
  | "verified", some verdict => (Verdict.ofJson? verdict).map .verified
  | _, _ => none

end PipelineState

end ConstPromotion
