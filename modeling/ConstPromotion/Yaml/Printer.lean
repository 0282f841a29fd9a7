import ConstPromotion.Json.Basic
import ConstPromotion.Text.Digits
import ConstPromotion.Text.Utf8
import ConstPromotion.Yaml.Chars
import ConstPromotion.Yaml.Scalar

/-!
# Writing YAML

Values are written in block style: a field or item a line, nested fields two spaces further in,
and the items of a list below their field without more space. A text is written plain where that
reads back as the same text, else in single quotes, and in double quotes where it holds characters
that have to be escaped. A text of several lines is written as a literal block.
-/

namespace ConstPromotion.Yaml

/-! ### How a text may be written -/

/-- What the characters of a text allow, found in one pass. -/
structure Traits where
  /-- An indicator stands where it would end or change a plain scalar. -/
  indicators : Bool := false
  /-- A character has to be escaped. -/
  special : Bool := false
  /-- A line ends in the text. -/
  breaks : Bool := false
  /-- A space follows a line end. -/
  breakSpace : Bool := false
  /-- A line end follows a space. -/
  spaceBreak : Bool := false
deriving DecidableEq

/-- Adds what the character after `before` means, with the text after it. -/
def Traits.add (t : Traits) (before : Option Char) (c : Char) (after : List Char) : Traits :=
  let indicator :=
    match before with
    | none =>
      isIndicator c || ((c == '?' || c == ':' || c == '-') && isOpen after)
    | some b => (c == ':' && isOpen after) || (c == '#' && (isSpace b || isBreak b))
  { indicators := t.indicators || indicator
    special := t.special || !isPrintable c
    breaks := t.breaks || isBreak c
    breakSpace := t.breakSpace || (c == ' ' && before.any isBreak)
    spaceBreak := t.spaceBreak || (isBreak c && before == some ' ') }

/-- The traits of a text that follows the character `before`. -/
def traitsFrom (t : Traits) (before : Option Char) : List Char → Traits
  | [] => t
  | c :: rest => traitsFrom (t.add before c rest) (some c) rest

/-- The traits of a text. Three dashes or dots at its start would mark a document. -/
def traits (text : List Char) : Traits :=
  let marksDocument := "---".toList.isPrefixOf text || "...".toList.isPrefixOf text
  traitsFrom { indicators := marksDocument } none text

/-- The styles of scalars. -/
inductive Style where
  | plain
  | singleQuoted
  | doubleQuoted
  | literal
  | folded
deriving DecidableEq

/-- Whether a text may be a plain scalar outside of brackets. -/
def plainAllowed (text : List Char) : Bool :=
  let t := traits text
  let edge (c : Option Char) := c.any fun c => c == ' ' || isBreak c
  !(t.indicators || t.special || t.breaks || t.spaceBreak || t.breakSpace
    || edge text.head? || edge text.getLast?)

/-- The style of a text. A key that stands before its colon on one line is simple. -/
def styleOf (simpleKey : Bool) (s : String) : Style :=
  let text := s.toList
  let t := traits text
  if text.contains '\n' then
    if simpleKey || t.special || t.spaceBreak || text.getLast? == some ' ' then .doubleQuoted
    else .literal
  else if simpleKey && t.breaks then .doubleQuoted
  else if !readsAsValue s && plainAllowed text then .plain
  else if t.special || t.spaceBreak || t.breakSpace then .doubleQuoted
  else .singleQuoted

/-! ### Scalars -/

/-- Spaces. -/
def spaces (n : Nat) : List Char := List.replicate n ' '

/-- A hexadecimal digit, in upper case. -/
def upperHex (n : Nat) : Char := (Nat.digitChar n).toUpper

/-- The last `width` hexadecimal digits of a number. -/
def hexDigits (width n : Nat) : List Char :=
  (lastDigits 16 width n).map upperHex

/-- How a character stands between double quotes. -/
def escape (c : Char) : List Char :=
  match c with
  | '\x00' => ['\\', '0']
  | '\x07' => ['\\', 'a']
  | '\x08' => ['\\', 'b']
  | '\t' => ['\\', 't']
  | '\n' => ['\\', 'n']
  | '\x0b' => ['\\', 'v']
  | '\x0c' => ['\\', 'f']
  | '\r' => ['\\', 'r']
  | '\x1b' => ['\\', 'e']
  | '"' => ['\\', '"']
  | '\\' => ['\\', '\\']
  | '\x85' => ['\\', 'N']
  | '\u2028' => ['\\', 'L']
  | '\u2029' => ['\\', 'P']
  | c =>
    if isPrintable c then [c]
    else if c.toNat ≤ 0xFF then '\\' :: 'x' :: hexDigits 2 c.toNat
    else '\\' :: 'u' :: hexDigits 4 c.toNat

/-- Characters in their lines: after a line end the next line starts `indent` spaces in. -/
def indented (indent : Nat) : (atStart : Bool) → List Char → List Char
  | _, [] => []
  | atStart, c :: rest =>
    if isBreak c then c :: indented indent true rest
    else (if atStart then spaces indent else []) ++ c :: indented indent false rest

/-- A text between single quotes, in which a quote is written twice. -/
def singleQuoted (indent : Nat) (text : List Char) : List Char :=
  let doubled := text.flatMap fun c => if c = '\'' then ['\'', '\''] else [c]
  '\'' :: indented indent false doubled
    ++ (if text.getLast?.any isBreak then spaces indent else []) ++ ['\'']

/-- What follows the bar of a literal block: the indentation if the text starts with a space or a
line end, and a sign unless the text ends in exactly one line end. -/
def literalHints (text : List Char) : List Char :=
  let indentation := if text.head?.any fun c => c == ' ' || isBreak c then ['2'] else []
  let chomping := match text.reverse with
    | [] => ['-']
    | [c] => if isBreak c then ['+'] else ['-']
    | c :: b :: _ => if isBreak c then if isBreak b then ['+'] else [] else ['-']
  indentation ++ chomping

/-- A text as a literal block with its lines `indent` spaces in. -/
def literalBlock (indent : Nat) (text : List Char) : List Char :=
  '|' :: literalHints text ++ '\n' :: indented indent true text

/-- A text in a style. -/
def scalar (style : Style) (indent : Nat) (s : String) : List Char :=
  match style with
  | .plain => s.toList
  | .doubleQuoted => '"' :: s.toList.flatMap escape ++ ['"']
  | .literal => literalBlock indent s.toList
  | _ => singleQuoted indent s.toList

/-- Ends a line unless it has ended. -/
def endLine (text : List Char) : List Char :=
  if text.getLast?.any isBreak then text else text ++ ['\n']

/-! ### Values -/

/-- Whether a key can stand before its colon on one line. -/
def isSimpleKey (s : String) : Bool := !s.toList.any isBreak && Utf8.size s.toList ≤ 128

/-- A key at a level up to the place of its value. -/
def keyPart (level : Nat) (name : String) : List Char :=
  if isSimpleKey name then
    spaces level ++ scalar (styleOf true name) (level + 2) name ++ [':']
  else
    endLine (spaces level ++ ['?', ' '] ++ scalar (styleOf false name) (level + 2) name)
      ++ spaces level ++ [':']

mutual

/-- A value after the colon of its field, which stands at a level. -/
def fieldValue (level : Nat) : Json → List Char
  | .string s => ' ' :: endLine (scalar (styleOf false (s.getD "")) (level + 2) (s.getD ""))
  | .array [] => " []\n".toList
  | .array (item :: items) => '\n' :: itemLines level (item :: items)
  | .object [] => [' ', '{', '}', '\n']
  | .object (field :: fields) => '\n' :: fieldLines (level + 2) (field :: fields)
  | .null => " null\n".toList
  | .bool true => " true\n".toList
  | .bool false => " false\n".toList
  | .number literal => ' ' :: literal.toList ++ ['\n']

/-- The items of a list, whose dashes stand at a level. -/
def itemLines (level : Nat) : List Json → List Char
  | [] => []
  | item :: items => spaces level ++ '-' :: itemValue level item ++ itemLines level items

/-- A value after the dash of its item, which stands at a level. -/
def itemValue (level : Nat) : Json → List Char
  | .string s => ' ' :: endLine (scalar (styleOf false (s.getD "")) (level + 2) (s.getD ""))
  | .array [] => " []\n".toList
  | .array (item :: items) =>
    ' ' :: (itemLines (level + 2) (item :: items)).drop (level + 2)
  | .object [] => [' ', '{', '}', '\n']
  | .object (field :: fields) =>
    ' ' :: (fieldLines (level + 2) (field :: fields)).drop (level + 2)
  | .null => " null\n".toList
  | .bool true => " true\n".toList
  | .bool false => " false\n".toList
  | .number literal => ' ' :: literal.toList ++ ['\n']

/-- The fields of an object, whose keys stand at a level. -/
def fieldLines (level : Nat) : List (Option String × Json) → List Char
  | [] => []
  | (name, value) :: fields =>
    keyPart level (name.getD "") ++ fieldValue level value ++ fieldLines level fields

end

/-- An object as a YAML document. -/
def render : Json → String
  | .object fields => if fields.isEmpty then "\x7b\x7d\n" else String.ofList (fieldLines 0 fields)
  | value => String.ofList ((fieldValue 0 value).drop 1)

end ConstPromotion.Yaml
