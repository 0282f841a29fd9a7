/-!
# Characters of YAML

The classes of characters that reading and writing YAML turn on.
-/

namespace ConstPromotion.Yaml

/-- Characters that end a line. -/
def isBreak (c : Char) : Bool :=
  c == '\r' || c == '\n' || c == '\x85' || c == '\u2028' || c == '\u2029'

/-- Characters that separate tokens within a line. -/
def isSpace (c : Char) : Bool := c == ' ' || c == '\t'

/-- Whether a text ends here or goes on with a space or a line end. -/
def isOpen : List Char → Bool
  | [] => true
  | c :: _ => isSpace c || isBreak c

/-- Characters that a document may hold. -/
def isAllowed (c : Char) : Bool :=
  let n := c.toNat
  n == 0x09 || n == 0x0A || n == 0x0D || (0x20 ≤ n && n ≤ 0x7E) || n == 0x85
    || (0xA0 ≤ n && n ≤ 0xD7FF) || (0xE000 ≤ n && n ≤ 0xFFFD) || 0x10000 ≤ n

/-- Characters that are written without an escape. -/
def isPrintable (c : Char) : Bool :=
  let n := c.toNat
  n == 0x0A || (0x20 ≤ n && n ≤ 0x7E) || (0xA0 ≤ n && n ≤ 0xD7FF)
    || (0xE000 ≤ n && n ≤ 0xFFFD && n != 0xFEFF) || 0x10000 ≤ n

/-- Characters that cannot start a plain scalar whatever follows. -/
def isIndicator (c : Char) : Bool := "#,[]\x7b\x7d&*!|>'\"%@`".toList.contains c

/-- The mark that may open a line. -/
def byteOrderMark : Char := '\uFEFF'

end ConstPromotion.Yaml
