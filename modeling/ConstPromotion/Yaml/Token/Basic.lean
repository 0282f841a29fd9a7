import ConstPromotion.Yaml.Token.Scalar
import ConstPromotion.Yaml.Printer

/-!
# Tokens

The tokens of YAML, and reading those that are neither punctuation nor scalars: directives, anchors,
aliases and tags.
-/

namespace ConstPromotion.Yaml

/-- A token. Collections in block style have tokens for their start and end, which no character of
the text stands for. -/
inductive Token where
  | versionDirective (major minor : Nat)
  | tagDirective (handle : List Char) (start : Bytes)
  | documentStart
  | documentEnd
  | blockSequenceStart
  | blockMappingStart
  | blockEnd
  | flowSequenceStart
  | flowSequenceEnd
  | flowMappingStart
  | flowMappingEnd
  | blockEntry
  | flowEntry
  | key
  | value
  | alias (name : List Char)
  | anchor (name : List Char)
  | tag (handle : List Char) (suffix : Bytes)
  | scalar (style : Style) (text : List Char)
deriving DecidableEq

/-! ### Anchors and aliases -/

/-- Reads the name of an anchor or alias after its sign. -/
def anchorName (text : PlacedText) : Except SyntaxError (List Char × PlacedText) :=
  let (name, rest) := text.spanChars isNameChar
  let c := PlacedText.head rest
  if name ≠ [] ∧ (isBlankOrEnd c ∨ "?:,]\x7d%@`".toList.contains c) then .ok (name, rest)
  else .error .badAnchor

/-! ### Tags -/

/-- Whether a character may stand in a tag; in some places brackets and commas may as well. -/
def isTagChar (brackets : Bool) (c : Char) : Bool :=
  isNameChar c || ";/?:@&=+$.%!~*'()".toList.contains c
    || (brackets && (c == ',' || c == '[' || c == ']'))

/-- How many bytes the character that starts with a byte has. -/
def leadWidth? (b : Nat) : Option Nat :=
  if b < 0x80 then some 1
  else if b / 0x20 = 6 then some 2
  else if b / 0x10 = 14 then some 3
  else if b / 0x08 = 30 then some 4
  else none

/-- Reads a byte that is written as a percent sign and two digits. -/
def escapedByte? (text : PlacedText) : Option (Nat × PlacedText) :=
  if text.head = '%' then
    (inBase? 16 (PlacedText.chars ((text.drop 1).take 2))).bind fun n =>
      if (text.drop 1).length < 2 then none else some (n, text.drop 3)
  else none

/-- Reads further bytes of a character. -/
def escapedBytes? : Nat → PlacedText → Option (Bytes × PlacedText)
  | 0, text => some ([], text)
  | n + 1, text => do
    let (b, rest) ← escapedByte? text
    if b / 0x40 ≠ 2 then none
    let (bytes, rest) ← escapedBytes? n rest
    return (UInt8.ofNat b :: bytes, rest)

/-- Reads the bytes of a character that are written with percent signs. They have the form of a
character, but need not be one. -/
def escapedChar? (text : PlacedText) : Option (Bytes × PlacedText) := do
  let (b, rest) ← escapedByte? text
  let width ← leadWidth? b
  let (bytes, rest) ← escapedBytes? (width - 1) rest
  return (UInt8.ofNat b :: bytes, rest)

/-- Reads the bytes of a tag. -/
def tagBytes (brackets : Bool) : (fuel : Nat) → PlacedText →
    Except SyntaxError (Bytes × PlacedText)
  | 0, text => .ok ([], text)
  | fuel + 1, text =>
    if text.head = '%' then
      match escapedChar? text with
      | none => .error .badTag
      | some (bytes, rest) => do
        let (more, rest) ← tagBytes brackets fuel rest
        return (bytes ++ more, rest)
    else if isTagChar brackets text.head then do
      let (more, rest) ← tagBytes brackets fuel (text.drop 1)
      return (Utf8.encode [text.head] ++ more, rest)
    else .ok ([], text)

/-- The part of a tag that counts: a NUL ends it. -/
def upToNul (bytes : Bytes) : Bytes := bytes.takeWhile (· ≠ 0)

/-- Reads the handle of a tag: an exclamation mark, perhaps a name, and perhaps another mark. The
handle of a directive has the second mark unless it is the first one alone. -/
def tagHandle (directive : Bool) (text : PlacedText) :
    Except SyntaxError (List Char × PlacedText) :=
  if text.head ≠ '!' then .error .badTag
  else
    let (name, rest) := PlacedText.spanChars isNameChar (text.drop 1)
    if PlacedText.head rest = '!' then .ok ('!' :: name ++ ['!'], rest.drop 1)
    else if directive ∧ name ≠ [] then .error .badTag
    else .ok ('!' :: name, rest)

/-- Reads a tag: a whole name between angle brackets, or a handle with a suffix. An exclamation mark
alone is a whole name. -/
def tag (inFlow : Bool) (text : PlacedText) : Except SyntaxError (Token × PlacedText) := do
  let (token, rest) ←
    if text.at 1 = '<' then do
      let (name, rest) ← tagBytes true text.length (text.drop 2)
      if name = [] ∨ PlacedText.head rest ≠ '>' then throw .badTag
      pure (Token.tag [] (upToNul name), rest.drop 1)
    else do
      let (handle, rest) ← tagHandle false text
      let (suffix, rest) ← tagBytes false text.length rest
      if handle.length ≥ 2 ∧ handle.getLast? = some '!' then
        if suffix = [] then throw .badTag
        pure (Token.tag handle (upToNul suffix), rest)
      else
        let name := upToNul (Utf8.encode (handle.drop 1) ++ suffix)
        pure (if name = [] then Token.tag [] (bytesOf "!") else Token.tag ['!'] name, rest)
  let c := PlacedText.head rest
  if isBlankOrEnd c ∨ (inFlow ∧ c = ',') then return (token, rest) else throw .badTag

/-! ### Directives -/

/-- Reads a number of a version, which has nine digits at most. -/
def versionNumber (text : PlacedText) : Except SyntaxError (Nat × PlacedText) :=
  let (digits, rest) := text.spanChars Char.isDigit
  if digits = [] ∨ digits.length > 9 then .error .badDirective
  else .ok (Decimal.value digits, rest)

/-- Reads a directive after its percent sign. -/
def directive (text : PlacedText) : Except SyntaxError (Token × PlacedText) := do
  let (name, rest) := text.spanChars isNameChar
  if !isBlankOrEnd (PlacedText.head rest) then throw .badDirective
  let rest := (PlacedText.spanChars isSpace rest).2
  let (token, rest) ←
    if name = "YAML".toList then do
      let (major, rest) ← versionNumber rest
      if PlacedText.head rest ≠ '.' then throw .badDirective
      let (minor, rest) ← versionNumber (rest.drop 1)
      pure (Token.versionDirective major minor, rest)
    else if name = "TAG".toList then do
      let (handle, rest) ← tagHandle true rest
      if !isSpace (PlacedText.head rest) then throw .badDirective
      let rest := (PlacedText.spanChars isSpace rest).2
      let (start, rest) ← tagBytes true rest.length rest
      if start = [] ∨ !isBlankOrEnd (PlacedText.head rest) then throw .badDirective
      pure (Token.tagDirective handle (upToNul start), rest)
    else throw .badDirective
  return (token, ← restOfLine .badDirective rest)

end ConstPromotion.Yaml
