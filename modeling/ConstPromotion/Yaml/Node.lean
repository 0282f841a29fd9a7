import ConstPromotion.Document
import ConstPromotion.Yaml.Token.Scan

/-!
# YAML nodes

A document is a tree of scalars, sequences and mappings. A node may be given a name, an anchor, and
an alias stands for the node with its anchor; anchors are numbered in the order in which their names
first appear. What an alias stands for is looked up in the whole document, where the last node with
the number counts.
-/

namespace ConstPromotion.Yaml

/-- A node of a document. -/
inductive Node where
  | scalar (anchor : Option Nat) (tag : Option Bytes) (style : Style) (text : List Char)
  | sequence (anchor : Option Nat) (items : List Node)
  | mapping (anchor : Option Nat) (entries : List (Node × Node))
  | alias (anchor : Nat)

namespace Node

/-- The scalar that stands where nothing is written. -/
def empty : Node := .scalar none none .plain []

/-! ### Aliases -/

mutual

/-- The last node with an anchor in the tree of a node. -/
def anchored? (id : Nat) : Node → Option Node
  | .scalar a tag style text => if a = some id then some (.scalar a tag style text) else none
  | .sequence a items =>
    (anchoredAmong? id items).or (if a = some id then some (.sequence a items) else none)
  | .mapping a entries =>
    (anchoredIn? id entries).or (if a = some id then some (.mapping a entries) else none)
  | .alias _ => none

/-- The last node with an anchor in the trees of items. -/
def anchoredAmong? (id : Nat) : List Node → Option Node
  | [] => none
  | item :: items => (anchoredAmong? id items).or (anchored? id item)

/-- The last node with an anchor in the trees of keys and values. -/
def anchoredIn? (id : Nat) : List (Node × Node) → Option Node
  | [] => none
  | (key, value) :: entries =>
    ((anchoredIn? id entries).or (anchored? id value)).or (anchored? id key)

end

/-- What a node of a document stands for. -/
def target (document : Node) : Node → Option Node
  | .alias id => document.anchored? id
  | n => some n

/-! ### Reading values -/

/-- The text of a scalar. -/
def text? (document n : Node) : Option String :=
  match document.target n with
  | some (.scalar _ _ _ text) => some (String.ofList text)
  | _ => none

/-- The items of a sequence, none where nothing is written. -/
def items? (document n : Node) : Option (List Node) :=
  match document.target n with
  | some (.sequence _ items) => some items
  | some (.scalar _ _ .plain []) => some []
  | _ => none

/-- The entries of a mapping with scalars for keys, none where nothing is written. -/
def entries? (document n : Node) : Option (List (String × Node)) :=
  match document.target n with
  | some (.mapping _ entries) =>
    entries.mapM fun (key, value) => (document.text? key).map (·, value)
  | some (.scalar _ _ .plain []) => some []
  | _ => none

/-- The fields of a structure: the entries of a mapping, known ones not repeated. -/
def fields? (document : Node) (names : List String) (n : Node) : Option (Fields Node) := do
  let entries ← document.entries? n
  let mentions name := entries.filter (·.1 = name)
  if names.all fun name => (mentions name).length ≤ 1 then
    some fun name =>
      match mentions name with
      | (_, v) :: _ => .value v
      | [] => .unmentioned
  else none

/-- The name that a local tag gives: what follows its exclamation mark, if that is text. -/
def localName? : Option Bytes → Option (List Char)
  | some (0x21 :: name) => Utf8.decode? name
  | _ => none

/-- A name from a fixed choice: that of the local tag of a null, or the text of a scalar without
such a tag. -/
def name? (document n : Node) : Option String :=
  match document.target n with
  | some (.scalar _ tag style text) =>
    match localName? tag with
    | some name =>
      if style = .plain ∧ isNull (String.ofList text) then some (String.ofList name) else none
    | none => some (String.ofList text)
  | _ => none

/-- How the values of a document are taken apart. -/
def reader (document : Node) : Reader Node where
  text? := document.text?
  items? := document.items?
  entries? := document.entries?
  fields? := document.fields?
  name? := document.name?

end Node

end ConstPromotion.Yaml
