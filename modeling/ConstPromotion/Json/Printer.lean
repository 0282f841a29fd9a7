import ConstPromotion.Json.Basic

/-!
# Writing JSON

Two layouts: `compact` without any space, and `pretty` with one field or item a line and two
spaces for each level. An empty array or object is written on one line in both.
-/

namespace ConstPromotion.Json

/-- A hexadecimal digit, in lower case. -/
def hexChar (n : Nat) : Char := Nat.digitChar n

/-- How a character stands in a string literal: quotes, backslashes and control characters are
escaped, and all else stands for itself. -/
def escapeChar (c : Char) : List Char :=
  match c with
  | '"' => ['\\', '"']
  | '\\' => ['\\', '\\']
  | '\x08' => ['\\', 'b']
  | '\x0c' => ['\\', 'f']
  | '\n' => ['\\', 'n']
  | '\r' => ['\\', 'r']
  | '\t' => ['\\', 't']
  | c =>
    if c.toNat < 0x20 then
      ['\\', 'u', '0', '0', hexChar (c.toNat / 16), hexChar (c.toNat % 16)]
    else [c]

/-- A text as a string literal. -/
def quote (s : String) : List Char := '"' :: s.toList.flatMap escapeChar ++ ['"']

/-- A string literal; one that denotes no text is written as an unpaired half. -/
def quoteText : Option String → List Char
  | some s => quote s
  | none => "\"\\ud800\"".toList

mutual

/-- A value without any space. -/
def compactChars : Json → List Char
  | .null => "null".toList
  | .bool true => "true".toList
  | .bool false => "false".toList
  | .number literal => literal.toList
  | .string s => quoteText s
  | .array items => '[' :: compactItems items ++ [']']
  | .object fields => '{' :: compactFields fields ++ ['}']

/-- Items with commas between them. -/
def compactItems : List Json → List Char
  | [] => []
  | [item] => compactChars item
  | item :: items => compactChars item ++ ',' :: compactItems items

/-- Fields with commas between them. -/
def compactFields : List (Option String × Json) → List Char
  | [] => []
  | [(name, value)] => quoteText name ++ ':' :: compactChars value
  | (name, value) :: fields =>
    quoteText name ++ ':' :: compactChars value ++ ',' :: compactFields fields

end

/-- A line break and the space before a line of the given level. -/
def newLine (level : Nat) : List Char := '\n' :: List.replicate (2 * level) ' '

mutual

/-- A value whose lines after the first stand at the given level. -/
def prettyChars (level : Nat) : Json → List Char
  | .array [] => ['[', ']']
  | .array (item :: items) =>
    '[' :: prettyItems (level + 1) (item :: items) ++ newLine level ++ [']']
  | .object [] => ['{', '}']
  | .object (field :: fields) =>
    '{' :: prettyFields (level + 1) (field :: fields) ++ newLine level ++ ['}']
  | .null => "null".toList
  | .bool true => "true".toList
  | .bool false => "false".toList
  | .number literal => literal.toList
  | .string s => quoteText s

/-- Items a line each, with commas between them. -/
def prettyItems (level : Nat) : List Json → List Char
  | [] => []
  | [item] => newLine level ++ prettyChars level item
  | item :: items => newLine level ++ prettyChars level item ++ ',' :: prettyItems level items

/-- Fields a line each, with commas between them. -/
def prettyFields (level : Nat) : List (Option String × Json) → List Char
  | [] => []
  | [(name, value)] => newLine level ++ quoteText name ++ ": ".toList ++ prettyChars level value
  | (name, value) :: fields =>
    newLine level ++ quoteText name ++ ": ".toList ++ prettyChars level value
      ++ ',' :: prettyFields level fields

end

/-- A value without any space. -/
def compact (value : Json) : String := String.ofList (compactChars value)

/-- A value with one field or item a line. -/
def pretty (value : Json) : String := String.ofList (prettyChars 0 value)

end ConstPromotion.Json
