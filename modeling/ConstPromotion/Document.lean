/-!
# Documents

Configurations are written as JSON or as YAML. A `Reader` says how the values of a kind of document
are taken apart, so that what a configuration holds is described once for both.
-/

namespace ConstPromotion

/-- What a document says about a field of a structure. -/
inductive Given (ν : Type) where
  /-- The fields are named, and this one is not among them. -/
  | unmentioned
  /-- The fields are listed in their order, and the list ends before this one. -/
  | pastEnd
  | value (v : ν)

/-- The fields of a structure by name. -/
abbrev Fields (ν : Type) := String → Given ν

namespace Given

variable {ν α : Type}

/-- A field that must be given. -/
def required (read? : ν → Option α) : Given ν → Option α
  | .value v => read? v
  | _ => none

/-- A field that takes a default where it is not given. -/
def orDefault (read? : ν → Option α) (default : α) : Given ν → Option α
  | .value v => read? v
  | _ => some default

end Given

/-- How the values of a kind of document are taken apart. -/
structure Reader (ν : Type) where
  /-- The text of a value. -/
  text? : ν → Option String
  /-- The items of a list. -/
  items? : ν → Option (List ν)
  /-- The entries of a map, in the order they are written, with repeated keys. -/
  entries? : ν → Option (List (String × ν))
  /-- The fields of a structure with the given field names, none of them repeated. -/
  fields? : List String → ν → Option (Fields ν)
  /-- A name from a fixed choice. -/
  name? : ν → Option String

namespace Reader

variable {ν : Type}

/-- A list of texts. -/
def texts? (r : Reader ν) (v : ν) : Option (List String) := do (← r.items? v).mapM r.text?

/-- A map from texts to texts, as the list of its entries. -/
def textEntries? (r : Reader ν) (v : ν) : Option (List (String × String)) := do
  (← r.entries? v).mapM fun (key, value) => (r.text? value).map (key, ·)

end Reader

end ConstPromotion
