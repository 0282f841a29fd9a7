import ConstPromotion.Declaration

/-!
# Promotion of lines and texts

Promotion inserts the word `const` before the element type of each declaration it finds and, on
demand, an attribute after the declarator that steers the array into a section. All other bytes
stay as they are, and so do the ends of lines.
-/

namespace ConstPromotion

/-- The section that annotated declarations are steered into unless another one is asked for. -/
def defaultSection : String := ".rodata.constcheck"

/-- The attribute that places a declaration into a section. -/
def annotationTag (name : String) : String :=
  "__attribute__((section(\"" ++ name ++ "\")))"

/-- How declarations are promoted. -/
structure PatchOptions where
  /-- Whether promoted declarations get the section attribute. -/
  annotate : Bool := false
  /-- The section the attribute names. -/
  sectionName : String := defaultSection
deriving DecidableEq

/-- A declaration that was promoted. -/
structure PatchedDeclaration where
  /-- The number of its line, from one. -/
  line : Nat
  declaration : ArrayDeclaration
  /-- Whether the section attribute was inserted. -/
  annotated : Bool
deriving DecidableEq

/-! ### One line -/

/-- Whether `piece` stands somewhere in a list. -/
def containsPiece (piece : Bytes) : Bytes → Bool
  | [] => piece.isEmpty
  | b :: rest => piece.isPrefixOf (b :: rest) || containsPiece piece rest

/-- Promotes the declaration of a line without its ending. The attribute is left out where the
line holds it already. -/
def patchLine? (options : PatchOptions) (line : Bytes) : Option (Bytes × PatchedDeclaration) := do
  let found ← ArrayDeclaration.matchBytes? line
  let tag := bytesOf (annotationTag options.sectionName)
  let annotated := options.annotate && !containsPiece tag line
  let declarator := (line.take found.declaratorEnd).drop found.typeStart
  let patched := line.take found.typeStart ++ bytesOf "const " ++ declarator
    ++ (if annotated then bytesOf " " ++ tag else []) ++ line.drop found.declaratorEnd
  return (patched, { line := 0, declaration := found.declaration, annotated })

/-! ### Whole texts -/

/-- Cuts bytes after each line feed. -/
def splitLines : Bytes → List Bytes
  | [] => []
  | b :: rest =>
    if b = 0x0A then [b] :: splitLines rest
    else
      match splitLines rest with
      | [] => [[b]]
      | line :: lines => (b :: line) :: lines

/-- Parts a line from its ending: a line feed with or without a carriage return before it, or
nothing. -/
def splitEnding (raw : Bytes) : Bytes × Bytes :=
  match [0x0D, 0x0A].isSuffixOf? raw with
  | some body => (body, [0x0D, 0x0A])
  | none =>
    match [0x0A].isSuffixOf? raw with
    | some body => (body, [0x0A])
    | none => (raw, [])

/-- A content after promotion, and what was promoted in it. -/
structure PatchedContent where
  content : Bytes
  declarations : List PatchedDeclaration
deriving DecidableEq

/-- Promotes the line with the given number, ending included. -/
def patchRawLine (options : PatchOptions) (number : Nat) (raw : Bytes) : PatchedContent :=
  let (body, ending) := splitEnding raw
  match patchLine? options body with
  | some (patched, declaration) => ⟨patched ++ ending, [{ declaration with line := number }]⟩
  | none => ⟨raw, []⟩

/-- Promotes lines, the first of which has the given number. -/
def patchLinesFrom (options : PatchOptions) : (number : Nat) → List Bytes → PatchedContent
  | _, [] => ⟨[], []⟩
  | number, raw :: lines =>
    let line := patchRawLine options number raw
    let later := patchLinesFrom options (number + 1) lines
    ⟨line.content ++ later.content, line.declarations ++ later.declarations⟩

/-- Promotes every declaration of a content. -/
def patchBytes (options : PatchOptions) (content : Bytes) : PatchedContent :=
  patchLinesFrom options 1 (splitLines content)

/-- Whether promotion changes anything. -/
def PatchedContent.isChanged (p : PatchedContent) : Bool := !p.declarations.isEmpty

/-- Promotes the declaration of a line of text. -/
def patchTextLine? (options : PatchOptions) (line : String) :
    Option (String × PatchedDeclaration) :=
  (patchLine? options (bytesOf line)).map fun (patched, d) => (lossyString patched, d)

/-- Promotes every declaration of a text. -/
def patchText (options : PatchOptions) (content : String) : String × List PatchedDeclaration :=
  let patched := patchBytes options (bytesOf content)
  (lossyString patched.content, patched.declarations)

end ConstPromotion
