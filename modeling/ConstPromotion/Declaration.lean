import ConstPromotion.Text.Utf8
import ConstPromotion.Text.Decimal

/-!
# Declarations of mutable static arrays

One shape of declaration is recognised, and only at the start of a line:

    static Type name[digits]

`Type` and `name` are single identifiers, and the digits may be missing. A line that holds the
word `const` anywhere is never recognised, which makes promotion idempotent.

`ArrayDeclaration.match?` reads a text. A line of bytes is read through its lossy text: all that
a match covers is ASCII, so the offsets of the match are also offsets into the bytes.
-/

namespace ConstPromotion

/-- A static array as one line declares it. -/
structure ArrayDeclaration where
  /-- The identifier of the element type. -/
  elementType : String
  /-- The identifier of the array. -/
  name : String
  /-- The digits between the brackets as written, if there are any. -/
  size : Option String
deriving DecidableEq

/-- A declaration with its place in the line. -/
structure DeclarationMatch where
  declaration : ArrayDeclaration
  /-- Where the element type starts. -/
  typeStart : Nat
  /-- Where the bracket groups of the declarator end. -/
  declaratorEnd : Nat
deriving DecidableEq

/-! ### Words -/

/-- Letters, digits and the underscore. -/
def isWordChar (c : Char) : Bool := c.isAlphanum || c == '_'

/-- What an identifier starts with. -/
def isWordStart (c : Char) : Bool := c.isAlpha || c == '_'

/-- What separates the words of a declaration. -/
def isGap (c : Char) : Bool := c == ' ' || c == '\t'

/-- The words of a line: it is cut at every character that is not part of one. -/
def words (line : List Char) : List (List Char) := line.splitOnP fun c => !isWordChar c

/-- Whether `const` is one of the words of a line. -/
def mentionsConst (line : List Char) : Bool := (words line).contains "const".toList

/-! ### Parts of a declaration -/

/-- An identifier at the start of a text, and what follows it. -/
def identifier? : List Char → Option (List Char × List Char)
  | [] => none
  | c :: rest =>
    if isWordStart c then some (c :: rest.takeWhile isWordChar, rest.dropWhile isWordChar)
    else none

/-- One or more spaces and tabs at the start of a text, and what follows them. -/
def gap? : List Char → Option (List Char × List Char)
  | [] => none
  | c :: rest => if isGap c then some (c :: rest.takeWhile isGap, rest.dropWhile isGap) else none

/-- A bracket group of digits at the start of a text: its digits, and what follows it. -/
def sizeGroup? : List Char → Option (List Char × List Char)
  | '[' :: rest =>
    match rest.dropWhile Char.isDigit with
    | ']' :: after => some (rest.takeWhile Char.isDigit, after)
    | _ => none
  | _ => none

/-- Adds to `closed` the length of the bracket groups that start the text. In the middle of a
group, `inside` is how many characters of it have been read. A group holds ASCII only and no
bracket; the first thing that is no such group ends the run. -/
def groupsLength (closed : Nat) : (inside : Option Nat) → List Char → Nat
  | _, [] => closed
  | none, c :: rest => if c = '[' then groupsLength closed (some 1) rest else closed
  | some n, c :: rest =>
    if c = ']' then groupsLength (closed + n + 1) none rest
    else if c = '[' ∨ c.toNat ≥ 0x80 then closed
    else groupsLength closed (some (n + 1)) rest

/-- The length of the bracket groups that follow the first one. -/
def dimensionsLength (text : List Char) : Nat := groupsLength 0 none text

namespace ArrayDeclaration

/-! ### Recognising a line -/

/-- Finds the declaration that a line starts with. -/
def match? (line : List Char) : Option DeclarationMatch := do
  guard (!mentionsConst line)
  let rest ← "static".toList.isPrefixOf? line
  let (gap₁, rest) ← gap? rest
  let (type, rest) ← identifier? rest
  let (gap₂, rest) ← gap? rest
  let (name, rest) ← identifier? rest
  let (digits, rest) ← sizeGroup? rest
  let typeStart := "static".length + gap₁.length
  return {
    declaration := {
      elementType := String.ofList type
      name := String.ofList name
      size := if digits = [] then none else some (String.ofList digits) }
    typeStart
    declaratorEnd :=
      typeStart + type.length + gap₂.length + name.length + (digits.length + 2)
        + dimensionsLength rest }

/-- Finds the declaration that a line of bytes starts with. -/
def matchBytes? (line : Bytes) : Option DeclarationMatch := match? (Utf8.decodeLossy line)

/-- Whether promotion would change a line of text. -/
def isPromotable (line : List Char) : Bool := (match? line).isSome

/-- The number that the size writes, if there is one and it fits a 64-bit word. -/
def sizeValue (d : ArrayDeclaration) : Option Nat :=
  d.size.bind fun size => Decimal.parseSigned? Decimal.word64 size.toList

end ArrayDeclaration

end ConstPromotion
