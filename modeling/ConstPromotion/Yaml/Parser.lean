import ConstPromotion.Yaml.Node

/-!
# From tokens to nodes

`Yaml.parse?` reads a text as one document. A text without a document is read as one that is empty,
and a second document is a fault.

The functions on nodes take a bound on the number of calls; four for each token are enough, since
between two calls for the same token nothing is read.
-/

namespace ConstPromotion.Yaml

/-- What is known while a document is read. -/
structure ParseState where
  tokens : List Token
  /-- The names of anchors with their numbers, later ones first. -/
  anchors : List (List Char × Nat) := []
  /-- The handles of tags with what they stand for. -/
  handles : List (List Char × Bytes) := []

/-- Reads a part of a document. -/
abbrev Parse (α : Type) := StateT ParseState (Except SyntaxError) α

namespace Parse

/-- The next token, none at the end of the text. -/
def peek : Parse (Option Token) := do return (← get).tokens.head?

/-- Goes on after the next token. -/
def skip : Parse Unit := modify fun s => { s with tokens := s.tokens.drop 1 }

/-- Goes on after the next token if it is the given one, and tells whether it was. -/
def accept (t : Token) : Parse Bool := do
  if (← peek) = some t then
    skip
    return true
  else return false

/-- Numbers the node that an anchor names. A name that is used again has a number of its own. -/
def define (name : List Char) : Parse Nat := do
  let s ← get
  let names := (s.anchors.map (·.1)).eraseDups
  set { s with anchors := (name, names.length) :: s.anchors }
  return names.length

/-- The tag that a handle and a suffix write. A handle that is empty writes the suffix alone. -/
def expand (handle : List Char) (suffix : Bytes) : Parse Bytes := do
  if handle = [] then return suffix
  match (← get).handles.lookup handle with
  | some start => return start ++ suffix
  | none => throw .undefinedHandle

/-- The name of an anchor, if there is one here. -/
def anchorHere : Parse (Option (List Char)) := do
  match ← peek with
  | some (.anchor name) => skip; return some name
  | _ => return none

/-- A tag, if there is one here. -/
def tagHere : Parse (Option Bytes) := do
  match ← peek with
  | some (.tag handle suffix) => skip; return some (← expand handle suffix)
  | _ => return none

/-- An anchor and a tag in either order, as far as they are here. -/
def properties : Parse (Option (List Char) × Option Bytes) := do
  match ← anchorHere with
  | some name => return (some name, ← tagHere)
  | none =>
    match ← tagHere with
    | some tag => return (← anchorHere, some tag)
    | none => return (none, none)

/-- Whether the next token is one of those given. -/
def atAny (ts : List Token) : Parse Bool := do
  match ← peek with
  | some t => return ts.contains t
  | none => return false

mutual

/-- Reads a node. In block style there may be a block collection, and after a key or a colon a
sequence without further indentation. -/
def node (block indentless : Bool) : (fuel : Nat) → Parse Node
  | 0 => throw .unexpectedToken
  | fuel + 1 => do
    if let some (.alias name) ← peek then
      skip
      match (← get).anchors.lookup name with
      | some id => return .alias id
      | none => throw .unknownAnchor
    let (name, tag) ← properties
    let id ← name.mapM define
    match ← peek with
    | some .blockEntry =>
      if indentless then return .sequence id (← indentlessItems fuel)
      else bare id name tag
    | some (.scalar style text) =>
      skip
      return .scalar id tag style text
    | some .flowSequenceStart =>
      skip
      return .sequence id (← flowItems true fuel)
    | some .flowMappingStart =>
      skip
      return .mapping id (← flowEntries true fuel)
    | some .blockSequenceStart =>
      if block then
        skip
        return .sequence id (← blockItems fuel)
      else bare id name tag
    | some .blockMappingStart =>
      if block then
        skip
        return .mapping id (← blockEntries fuel)
      else bare id name tag
    | _ => bare id name tag
where
  /-- A node that consists of an anchor or a tag alone. -/
  bare (id : Option Nat) (name : Option (List Char)) (tag : Option Bytes) : Parse Node :=
    if name.isSome ∨ tag.isSome then return .scalar id tag .plain [] else throw .unexpectedToken

/-- Reads a node in block style, unless nothing is written before one of the given tokens. -/
def blockNode (indentless : Bool) (ends : List Token) : (fuel : Nat) → Parse Node
  | 0 => throw .unexpectedToken
  | fuel + 1 => do
    if ← atAny ends then return .empty else node true indentless fuel

/-- Reads a node in brackets, unless nothing is written before one of the given tokens. -/
def flowNode (ends : List Token) : (fuel : Nat) → Parse Node
  | 0 => throw .unexpectedToken
  | fuel + 1 => do
    if ← atAny ends then return .empty else node false false fuel

/-- Reads the items of a block sequence. -/
def blockItems : (fuel : Nat) → Parse (List Node)
  | 0 => throw .unexpectedToken
  | fuel + 1 => do
    if ← accept .blockEntry then
      let item ← blockNode false [.blockEntry, .blockEnd] fuel
      return item :: (← blockItems fuel)
    else if ← accept .blockEnd then return []
    else throw .unexpectedToken

/-- Reads the items of a sequence that is not indented further than the mapping around it. -/
def indentlessItems : (fuel : Nat) → Parse (List Node)
  | 0 => throw .unexpectedToken
  | fuel + 1 => do
    if ← accept .blockEntry then
      let item ← blockNode false [.blockEntry, .key, .value, .blockEnd] fuel
      return item :: (← indentlessItems fuel)
    else return []

/-- Reads the entries of a block mapping. -/
def blockEntries : (fuel : Nat) → Parse (List (Node × Node))
  | 0 => throw .unexpectedToken
  | fuel + 1 => do
    if ← accept .key then
      let key ← blockNode true [.key, .value, .blockEnd] fuel
      let value ←
        if ← accept .value then blockNode true [.key, .value, .blockEnd] fuel else pure .empty
      return (key, value) :: (← blockEntries fuel)
    else if ← accept .blockEnd then return []
    else throw .unexpectedToken

/-- Reads the items of a sequence in brackets; an item with a key is a mapping of one entry. -/
def flowItems (isFirst : Bool) : (fuel : Nat) → Parse (List Node)
  | 0 => throw .unexpectedToken
  | fuel + 1 => do
    if ← accept .flowSequenceEnd then return []
    if !isFirst then
      if !(← accept .flowEntry) then throw .unexpectedToken
    if ← accept .key then
      let key ←
        if ← atAny [.value, .flowEntry, .flowSequenceEnd] then
          skip
          pure .empty
        else node false false fuel
      let value ←
        if ← accept .value then flowNode [.flowEntry, .flowSequenceEnd] fuel else pure .empty
      return .mapping none [(key, value)] :: (← flowItems false fuel)
    else if ← accept .flowSequenceEnd then return []
    else
      let item ← node false false fuel
      return item :: (← flowItems false fuel)

/-- Reads the entries of a mapping in braces; a key may stand without a value. -/
def flowEntries (isFirst : Bool) : (fuel : Nat) → Parse (List (Node × Node))
  | 0 => throw .unexpectedToken
  | fuel + 1 => do
    if ← accept .flowMappingEnd then return []
    if !isFirst then
      if !(← accept .flowEntry) then throw .unexpectedToken
    if ← accept .key then
      let key ← flowNode [.value, .flowEntry, .flowMappingEnd] fuel
      let value ←
        if ← accept .value then flowNode [.flowEntry, .flowMappingEnd] fuel else pure .empty
      return (key, value) :: (← flowEntries false fuel)
    else if ← accept .flowMappingEnd then return []
    else
      let key ← node false false fuel
      return (key, .empty) :: (← flowEntries false fuel)

end

/-! ### Documents -/

/-- The handles that every document has. -/
def defaultHandles : List (List Char × Bytes) :=
  [(['!'], bytesOf "!"), (['!', '!'], bytesOf "tag:yaml.org,2002:")]

/-- Takes in the directives before a document. A version may be given once and has to be 1.1 or 1.2,
and a handle may be given once. -/
def directives (version : Bool) (handles : List (List Char × Bytes)) :
    List Token → Parse Unit
  | .versionDirective major minor :: rest =>
    if version ∨ major ≠ 1 ∨ (minor ≠ 1 ∧ minor ≠ 2) then throw .badDirective
    else directives true handles rest
  | .tagDirective handle start :: rest =>
    if (handles.lookup handle).isSome then throw .badDirective
    else directives version (handles ++ [(handle, start)]) rest
  | tokens => modify fun s => { s with tokens, handles := handles ++ defaultHandles }

/-- Reads the content of a document that is marked by its start. -/
def markedContent (fuel : Nat) : Parse Node := do
  match ← peek with
  | none | some .documentStart | some .documentEnd | some (.versionDirective ..)
  | some (.tagDirective ..) => return .empty
  | some _ => node true false fuel

/-- Reads the only document of a text. -/
def document (fuel : Nat) : Parse Node := do
  match ← peek with
  | none => return .empty
  | some t =>
    let marked := match t with
      | .documentStart | .versionDirective .. | .tagDirective .. => true
      | _ => false
    directives false [] (← get).tokens
    let content ←
      if marked then do
        if !(← accept .documentStart) then throw .unexpectedToken
        markedContent fuel
      else node true false fuel
    modify fun s => { s with tokens := s.tokens.dropWhile (· = .documentEnd) }
    if (← peek).isSome then throw .severalDocuments
    return content

end Parse

/-- Reads a text as one document. -/
def parse? (text : List Char) : Except SyntaxError Node := do
  let ts ← tokens text
  let (node, _) ← (Parse.document (4 * ts.length + 4)).run { tokens := ts }
  return node

end ConstPromotion.Yaml
