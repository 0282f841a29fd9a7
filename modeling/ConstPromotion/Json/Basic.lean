/-!
# JSON values

A value keeps each number as it is written and each object field in the order it is written, also
when a name occurs twice. A string literal may denote no text: `\ud800` alone is the half of a
character. Such a literal is well-formed JSON, and it is refused only where its text is wanted.
-/

namespace ConstPromotion

/-- A JSON value. -/
inductive Json where
  | null
  | bool (value : Bool)
  /-- A number as it is written. -/
  | number (literal : String)
  /-- A string, with its text if the literal denotes one. -/
  | string (text : Option String)
  | array (items : List Json)
  | object (fields : List (Option String × Json))

namespace Json

/-- The value of a text. -/
def text (s : String) : Json := .string (some s)

/-- The value of a natural number. -/
def nat (n : Nat) : Json := .number (toString n)

/-- The object with the given fields. -/
def record (fields : List (String × Json)) : Json :=
  .object (fields.map fun (name, value) => (some name, value))

/-- The value of a text that may be missing. -/
def textOrNull : Option String → Json
  | none => .null
  | some s => .text s

end Json

end ConstPromotion
