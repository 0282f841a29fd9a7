/-!
# Blank space

The characters with the Unicode property `White_Space`, and cutting a text at them.
-/

namespace ConstPromotion

/-- The characters of the Unicode property `White_Space`, as ranges of code points. -/
def blankRanges : List (Nat × Nat) :=
  [(0x09, 0x0D), (0x20, 0x20), (0x85, 0x85), (0xA0, 0xA0), (0x1680, 0x1680), (0x2000, 0x200A),
   (0x2028, 0x2029), (0x202F, 0x202F), (0x205F, 0x205F), (0x3000, 0x3000)]

/-- Whether a character is blank space. -/
def isBlank (c : Char) : Bool := blankRanges.any fun (low, high) => low ≤ c.toNat && c.toNat ≤ high

namespace Text

/-- Drops leading blank space. -/
def trimStart (text : List Char) : List Char := text.dropWhile isBlank

/-- Drops leading and trailing blank space. -/
def trim (text : List Char) : List Char :=
  ((text.dropWhile isBlank).reverse.dropWhile isBlank).reverse

/-- The maximal runs of characters that are not blank, in order. -/
def tokens (text : List Char) : List (List Char) :=
  (text.splitOnP isBlank).filter (· ≠ [])

/-- The lines of a text: it is cut after each line feed, and the feed is dropped together with one
carriage return before it. What follows the last feed is a line only if it is not empty. -/
def lines (text : List Char) : List (List Char) :=
  let cut := text.splitOn '\n'
  cut.dropLast.map (fun line => if line.getLast? = some '\r' then line.dropLast else line)
    ++ cut.getLast?.toList.filter (· ≠ [])

end Text

end ConstPromotion
