import ConstPromotion.Document
import ConstPromotion.Json.Basic
import ConstPromotion.Text.Decimal

/-!
# Taking JSON values apart

A structure is written as an object with its fields, where other fields do not matter and a field
must not occur twice, or as an array of its fields in their order. `Json.fieldsOf?` reads both, and
tells a field that an object does not mention from one that an array is too short for: a field that
may be missing may be missing from an object only, while a field with a default takes it in both.

A name from a fixed choice is written as a string, or as an object whose one field has this name and
the value `null`.
-/

namespace ConstPromotion.Json

/-! ### Single values -/

/-- The text of a string. -/
def text? : Json → Option String
  | .string s => s
  | _ => none

/-- The value of a boolean. -/
def bool? : Json → Option Bool
  | .bool b => some b
  | _ => none

/-- The value of a number below `bound` that is written with digits alone. -/
def nat? (bound : Nat) : Json → Option Nat
  | .number literal => Decimal.parse? bound literal.toList
  | _ => none

/-- The items of an array, each one read by `item?`. -/
def list? {α : Type} (item? : Json → Option α) : Json → Option (List α)
  | .array items => items.mapM item?
  | _ => none

/-- A name from a fixed choice. -/
def name? : Json → Option String
  | .string s => s
  | .object [(name, .null)] => name
  | _ => none

/-- The value of the first field of an object with a name. -/
def field? (name : String) : Json → Option Json
  | .object fields => (fields.find? (·.1 = some name)).map (·.2)
  | _ => none

/-! ### Structures -/

/-- Reads a structure with the given field names. -/
def fieldsOf? (names : List String) : Json → Option (Fields Json)
  | .object fields =>
    let isGivenOnce name := (fields.filter (·.1 = some name)).length ≤ 1
    if fields.all (·.1.isSome) ∧ names.all (fun name => isGivenOnce name) then
      some fun name =>
        match (object fields).field? name with
        | some v => .value v
        | none => .unmentioned
    else none
  | .array items =>
    if items.length ≤ names.length then
      some fun name =>
        match items[names.idxOf name]? with
        | some v => .value v
        | none => .pastEnd
    else none
  | _ => none

/-- A field that may be missing or null. -/
def optional {α : Type} (read? : Json → Option α) : Given Json → Option (Option α)
  | .value .null => some none
  | .value v => (read? v).map some
  | .unmentioned => some none
  | .pastEnd => none

/-- The entries of an object. -/
def entries? : Json → Option (List (String × Json))
  | .object fields => fields.mapM fun (name, value) => name.map (·, value)
  | _ => none

/-- How JSON values are taken apart. -/
def reader : Reader Json where
  text? := text?
  items? := list? some
  entries? := entries?
  fields? := fieldsOf?
  name? := name?

/-! ### Repeated fields -/

mutual

/-- The value in which each object keeps only the last field of each name. -/
def withoutRepeats : Json → Json
  | .array items => .array (withoutRepeatsItems items)
  | .object fields => .object (withoutRepeatsFields fields)
  | .null => .null
  | .bool b => .bool b
  | .number literal => .number literal
  | .string s => .string s

/-- Drops repeated fields inside each item. -/
def withoutRepeatsItems : List Json → List Json
  | [] => []
  | item :: items => withoutRepeats item :: withoutRepeatsItems items

/-- Drops the fields that a later one repeats. -/
def withoutRepeatsFields : List (Option String × Json) → List (Option String × Json)
  | [] => []
  | (name, value) :: fields =>
    let later := withoutRepeatsFields fields
    if later.any (·.1 = name) then later else (name, withoutRepeats value) :: later

end

end ConstPromotion.Json
