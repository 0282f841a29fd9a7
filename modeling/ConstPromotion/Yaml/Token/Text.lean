import ConstPromotion.Yaml.Chars
import ConstPromotion.Yaml.Error

/-!
# Texts with places

Where a character stands decides what it means in YAML, so each character carries its place. Line
ends are written in one way, and a NUL, which no document may hold, marks the end of the text.
-/

namespace ConstPromotion.Yaml

/-- A character with its place. -/
structure Placed where
  char : Char
  line : Nat
  column : Nat
  /-- How many bytes stand before it. -/
  index : Nat
deriving DecidableEq

/-- A text with places. -/
abbrev PlacedText := List Placed

/-- What stands at the end of a text. -/
def endChar : Char := '\x00'

/-- Gives each character its place, counted from the given one. -/
def placeFrom (line column index : Nat) : List Char → PlacedText
  | [] => [⟨endChar, line, column, index⟩]
  | '\r' :: '\n' :: rest => ⟨'\n', line, column, index⟩ :: placeFrom (line + 1) 0 (index + 2) rest
  | c :: rest =>
    if isBreak c then
      let ending := if c = '\u2028' ∨ c = '\u2029' then c else '\n'
      ⟨ending, line, column, index⟩ :: placeFrom (line + 1) 0 (index + c.utf8Size) rest
    else ⟨c, line, column, index⟩ :: placeFrom line (column + 1) (index + c.utf8Size) rest

/-- The characters of a text with places. -/
def PlacedText.chars (text : PlacedText) : List Char := text.map Placed.char

/-- The first character of a text. -/
def PlacedText.head (text : PlacedText) : Char := (text.head?.map Placed.char).getD endChar

/-- The character after `n` others. -/
def PlacedText.at (text : PlacedText) (n : Nat) : Char := PlacedText.head (text.drop n)

/-- The column at which a text starts. -/
def PlacedText.column (text : PlacedText) : Nat := (text.head?.map Placed.column).getD 0

/-- Characters after which a token can end: a space, a line end, or the end of the text. -/
def isBlankOrEnd (c : Char) : Bool := isSpace c || isBreak c || c == endChar

/-- Characters that end a line or the text. -/
def isLineEnd (c : Char) : Bool := isBreak c || c == endChar

/-- Characters of names: letters, digits, the underscore and the dash. -/
def isNameChar (c : Char) : Bool := c.isAlphanum || c == '_' || c == '-'

/-- The characters of a text as long as a test holds, and the text after them. -/
def PlacedText.spanChars (test : Char → Bool) (text : PlacedText) : List Char × PlacedText :=
  ((text.takeWhile fun p => test p.char).map Placed.char, text.dropWhile fun p => test p.char)

/-- Whether three of the same character at the start of a line mark a document here. -/
def PlacedText.isMarker (c : Char) (text : PlacedText) : Bool :=
  text.column == 0 && text.at 0 == c && text.at 1 == c && text.at 2 == c
    && isBlankOrEnd (text.at 3)

/-- Whether the start or the end of a document is marked here. -/
def PlacedText.isAnyMarker (text : PlacedText) : Bool := text.isMarker '-' || text.isMarker '.'

/-- Reads a text with places, unless it holds a character that no document may hold. -/
def PlacedText.ofChars? (text : List Char) : Except SyntaxError PlacedText :=
  if text.all isAllowed then .ok (placeFrom 0 0 0 text) else .error .forbiddenCharacter

end ConstPromotion.Yaml
