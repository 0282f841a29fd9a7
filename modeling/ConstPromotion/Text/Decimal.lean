/-!
# Decimal numbers

Reading unsigned decimal numbers below a bound, one digit after the other. Leading zeros do not
count, and a number that reaches the bound is refused, never cut.
-/

namespace ConstPromotion.Decimal

/-- The value of an ASCII digit. -/
def digit? (c : Char) : Option Nat := if c.isDigit then some (c.toNat - '0'.toNat) else none

/-- The number that a row of decimal digits writes. -/
def value (digits : List Char) : Nat :=
  digits.foldl (fun n c => 10 * n + (c.toNat - '0'.toNat)) 0

/-- A number, refused when it reaches a bound. -/
def below? (bound n : Nat) : Option Nat := if n < bound then some n else none

/-- Puts a digit behind a number. The product and the sum are checked one after the other. -/
def push? (bound n : Nat) (c : Char) : Option Nat := do
  let digit ← digit? c
  let shifted ← below? bound (10 * n)
  below? bound (shifted + digit)

/-- Reads one or more decimal digits as a number below `bound`. -/
def parse? (bound : Nat) (text : List Char) : Option Nat :=
  if text = [] then none else text.foldlM (push? bound) 0

/-- Reads a number below `bound` that may have a plus sign before it. -/
def parseSigned? (bound : Nat) : List Char → Option Nat
  | '+' :: rest => parse? bound rest
  | text => parse? bound text

/-- How many values a 32-bit word has. -/
def word32 : Nat := UInt32.size

/-- How many values a 64-bit word has. -/
def word64 : Nat := UInt64.size

/-- The decimal digits of a number. -/
def render (n : Nat) : List Char := Nat.toDigits 10 n

/-- The decimal digits of a number, with zeros before it up to a width. -/
def renderPadded (width n : Nat) : List Char :=
  let digits := render n
  List.replicate (width - digits.length) '0' ++ digits

end ConstPromotion.Decimal
