import ConstPromotion.Text.Decimal

/-!
# What plain scalars mean

A plain scalar can read as null, as a boolean or as a number. A text that does so has to be quoted
to be read back as a text.
-/

namespace ConstPromotion.Yaml

/-- The spellings of null. -/
def nullWords : List String := ["~", "null", "Null", "NULL"]

/-- The spellings of truth values. -/
def boolWords : List String := ["true", "True", "TRUE", "false", "False", "FALSE"]

/-- The spellings of infinities and of the value that is no number. -/
def specialFloats : List String :=
  [".inf", ".Inf", ".INF", "+.inf", "+.Inf", "+.INF", "-.inf", "-.Inf", "-.INF",
    ".nan", ".NaN", ".NAN"]

/-- Drops one sign. -/
def dropSign : List Char → List Char
  | '+' :: rest => rest
  | '-' :: rest => rest
  | text => text

/-- The value of a digit up to base 16. -/
def digitValue? (base : Nat) (c : Char) : Option Nat :=
  let value :=
    if '0' ≤ c ∧ c ≤ '9' then c.toNat - '0'.toNat
    else if 'a' ≤ c ∧ c ≤ 'f' then c.toNat - 'a'.toNat + 10
    else if 'A' ≤ c ∧ c ≤ 'F' then c.toNat - 'A'.toNat + 10
    else base
  if value < base then some value else none

/-- The number that one or more digits write. -/
def inBase? (base : Nat) (digits : List Char) : Option Nat :=
  if digits = [] then none
  else (digits.mapM (digitValue? base)).map (·.foldl (fun n d => n * base + d) 0)

/-- The base that a number starts with, and its digits. -/
def basePart? : List Char → Option (Nat × List Char)
  | '0' :: 'x' :: digits => some (16, digits)
  | '0' :: 'o' :: digits => some (8, digits)
  | '0' :: 'b' :: digits => some (2, digits)
  | _ => none

/-- Whether a text is an integer that names its base. It has to fit 128 bits. -/
def isBasedInt (text : List Char) : Bool :=
  let (bound, digits) := match text with
    | '-' :: rest => (Nat.pow 2 127 + 1, rest)
    | '+' :: rest => (Nat.pow 2 128, rest)
    | rest => (Nat.pow 2 128, rest)
  match basePart? digits with
  | none => false
  | some (base, digits) =>
    match inBase? base digits with
    | some n => n < bound
    | none => false

/-- Whether a text is a decimal integer with zeros before it. -/
def isZeroPadded (text : List Char) : Bool :=
  let digits := dropSign text
  digits.head? = some '0' && digits.all Char.isDigit

/-- Whether `digits`, a number shifted by `shift` decimal places, is below the numbers that round
to infinity in binary double precision. -/
def isFiniteDouble (digits : List Char) (shift : Int) : Bool :=
  let significant := digits.dropWhile (· = '0')
  let magnitude := (significant.length : Int) + shift
  let limit := Nat.pow 2 1024 - Nat.pow 2 970
  if significant = [] ∨ magnitude < 300 then true
  else if magnitude > 310 then false
  else if shift ≥ 0 then Decimal.value significant * Nat.pow 10 shift.toNat < limit
  else Decimal.value significant < limit * Nat.pow 10 (-shift).toNat

/-- The exponent that a number ends in, zero if it ends before one. -/
def exponent? : List Char → Option Int
  | [] => some 0
  | c :: rest =>
    if c = 'e' ∨ c = 'E' then
      let digits := dropSign rest
      if digits ≠ [] ∧ digits.all Char.isDigit then
        let n : Int := Decimal.value digits
        some (if rest.head? = some '-' then -n else n)
      else none
    else none

/-- Whether a text is a decimal integer or fraction, perhaps with an exponent, that double precision
can hold. -/
def isFloat (text : List Char) : Bool :=
  let body := dropSign text
  let whole := body.takeWhile Char.isDigit
  let rest := body.dropWhile Char.isDigit
  let (fraction, rest) := match rest with
    | '.' :: rest => (rest.takeWhile Char.isDigit, rest.dropWhile Char.isDigit)
    | rest => ([], rest)
  match exponent? rest with
  | some e =>
    whole ++ fraction ≠ [] && isFiniteDouble (whole ++ fraction) (e - (fraction.length : Int))
  | none => false

/-- Whether a plain scalar spells null, the empty one included. -/
def isNull (s : String) : Bool := s = "" || nullWords.contains s

/-- Whether a plain scalar reads as something other than a text. -/
def readsAsValue (s : String) : Bool :=
  isNull s || boolWords.contains s || specialFloats.contains s || isBasedInt s.toList
    || isZeroPadded s.toList || isFloat s.toList

end ConstPromotion.Yaml
