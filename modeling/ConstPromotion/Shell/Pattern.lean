import ConstPromotion.Shell.Syntax

/-!
# Patterns

Patterns of the shell, in which a star stands for any text and a question mark for any character,
and what is left of a value when a match is dropped from one of its ends.
-/

namespace ConstPromotion.Shell

/-- Whether a pattern matches the whole of a text. -/
def isMatch : (pattern : List Char) → List Char → Bool
  | [], text => text.isEmpty
  | p :: pattern, text =>
    if p = '*' then (List.range (text.length + 1)).any fun i => isMatch pattern (text.drop i)
    else
      match text with
      | c :: rest => (p = '?' || p = c) && isMatch pattern rest
      | [] => false

/-- The length of the shortest or longest start of a text that a pattern matches. -/
def matchLength? (pattern text : List Char) (longest : Bool) : Option Nat :=
  let lengths := List.range (text.length + 1)
  (if longest then lengths.reverse else lengths).find? fun i => isMatch pattern (text.take i)

/-- A text without the match of a pattern at its start. -/
def dropStart (pattern text : List Char) (longest : Bool) : List Char :=
  text.drop ((matchLength? pattern text longest).getD 0)

/-- A text without the match of a pattern at its end. -/
def dropEnd (pattern text : List Char) (longest : Bool) : List Char :=
  (dropStart pattern.reverse text.reverse longest).reverse

end ConstPromotion.Shell
