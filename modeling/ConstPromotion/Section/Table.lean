import ConstPromotion.Text.Blank
import ConstPromotion.Text.Decimal

/-!
# Section tables

The table that a section listing tool prints has one row for each section: its number in brackets,
then name, type, address, offset, size, entry size, flags, link, info and alignment. The flags are
blank for a section that has none, which leaves one token less. All other lines are skipped, and so
is the row of the unnamed first section.
-/

namespace ConstPromotion

/-- The name and the flag letters of a table row. -/
def tableRow? (line : List Char) : Option (String × String) := do
  let row ← ['['].isPrefixOf? (Text.trimStart line)
  let rest ← match row.dropWhile (· ≠ ']') with
    | ']' :: rest => some rest
    | _ => none
  let _ ← Decimal.parseSigned? Decimal.word32 (Text.trim (row.takeWhile (· ≠ ']')))
  match Text.tokens rest with
  | [name, _, _, _, _, _, flags, _, _, _] => some (String.ofList name, String.ofList flags)
  | [name, _, _, _, _, _, _, _, _] => some (String.ofList name, "")
  | _ => none

/-- The names and flag letters of the sections that a table lists. -/
def sectionTable (text : List Char) : List (String × String) :=
  (Text.lines text).filterMap tableRow?

end ConstPromotion
