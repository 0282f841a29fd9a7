/-!
# Paths

A path is kept exactly as it is spelled, and read as a sequence of components: repeated and
trailing slashes and the `.` entries after the first component do not count. Two spellings denote
the same path when their components agree.

Operations that cut a path keep the spelling of what is left; joining only ever adds text.
-/

namespace ConstPromotion

/-- One entry name of a directory. -/
abbrev Name := List Char

/-- A path as it is spelled. -/
structure Path where
  chars : List Char
deriving DecidableEq

/-- One component of a path. -/
inductive Component where
  | root
  | current
  | parent
  | name (n : Name)
deriving DecidableEq

namespace Path

/-- The path that a string spells. -/
def ofString (s : String) : Path := ⟨s.toList⟩

/-- A path as a string. -/
def toString (p : Path) : String := String.ofList p.chars

/-- Whether a path starts at the root directory. -/
def isAbsolute (p : Path) : Bool := p.chars.head? = some '/'

/-! ### Components -/

/-- A component with the places in the text where it starts and ends. -/
structure Span where
  component : Component
  start : Nat
  stop : Nat
deriving DecidableEq

/-- The component that a piece between two slashes is, if it is one. A `.` counts only where it
opens a relative path. -/
def component? (opening : Bool) (piece : List Char) : Option Component :=
  if piece = [] then none
  else if piece = ['.'] then if opening then some .current else none
  else if piece = ['.', '.'] then some .parent
  else some (.name piece)

/-- The spans of pieces that lie one slash apart, the first of them at `start`. -/
def spansFrom (opening : Bool) (start : Nat) : List (List Char) → List Span
  | [] => []
  | piece :: pieces =>
    let stop := start + piece.length
    ((component? opening piece).map fun c => ⟨c, start, stop⟩).toList
      ++ spansFrom false (stop + 1) pieces

/-- The components of a path with their places. -/
def spans (p : Path) : List Span :=
  (if p.isAbsolute then [⟨.root, 0, 1⟩] else [])
    ++ spansFrom (!p.isAbsolute) 0 (p.chars.splitOn '/')

/-- The components of a path. -/
def components (p : Path) : List Component := p.spans.map Span.component

/-- Whether two spellings denote the same path. -/
def same (p q : Path) : Bool := p.components = q.components

/-- The entry name that a path ends in. It has none if it ends in `..`, `.` or the root. -/
def fileName? (p : Path) : Option Name :=
  match p.components.getLast? with
  | some (.name n) => some n
  | _ => none

/-- The path up to its component before the last, for a path that has components other than the
root. -/
def parent? (p : Path) : Option Path :=
  match p.spans.reverse with
  | [] => none
  | last :: before =>
    if last.component = .root then none
    else some ⟨p.chars.take ((before.head?.map Span.stop).getD 0)⟩

/-- The extension of the entry name that a path ends in: what follows the last dot, if something
stands before it. -/
def extension? (p : Path) : Option Name := do
  let n ← p.fileName?
  let reversed := n.reverse
  match reversed.dropWhile (· ≠ '.') with
  | '.' :: _ :: _ => some (reversed.takeWhile (· ≠ '.')).reverse
  | _ => none

/-! ### Joining -/

/-- Appends a path to a directory. An absolute path replaces it. -/
def join (p q : Path) : Path :=
  if q.isAbsolute then q
  else if p.chars = [] ∨ p.chars.getLast? = some '/' then ⟨p.chars ++ q.chars⟩
  else ⟨p.chars ++ '/' :: q.chars⟩

/-- Appends an entry name to a directory. -/
def child (p : Path) (n : Name) : Path := p.join ⟨n⟩

/-- Replaces the entry name that a path ends in; a path that ends in none is extended. -/
def withFileName (p : Path) (n : Name) : Path :=
  match p.fileName?, p.parent? with
  | some _, some parent => parent.child n
  | _, _ => p.child n

/-- The part of a path below `base`, if `base` is where its components start. -/
def relativeTo? (p base : Path) : Option Path := do
  let below ← base.components.isPrefixOf? p.components
  if below = [] then return ⟨[]⟩
  let rest := p.spans.drop base.components.length
  let start := if base.components = [] then 0 else (rest.head?.map Span.start).getD 0
  let stop := (rest.getLast?.map Span.stop).getD 0
  return ⟨(p.chars.take stop).drop start⟩

/-- The spelling of a sequence of components with single slashes. -/
def ofComponents : List Component → Path
  | .root :: rest => ⟨'/' :: body rest⟩
  | components => ⟨body components⟩
where
  /-- How a component is spelled. -/
  spelling : Component → List Char
    | .root => []
    | .current => ['.']
    | .parent => ['.', '.']
    | .name n => n
  /-- Spellings with slashes between them. -/
  body (components : List Component) : List Char :=
    ['/'].intercalate (components.map spelling)

end Path

end ConstPromotion
