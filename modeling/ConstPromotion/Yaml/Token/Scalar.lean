import ConstPromotion.Yaml.Scalar
import ConstPromotion.Yaml.Token.Text

/-!
# Reading scalars

Plain scalars, quoted scalars and block scalars. In the first two, a single line end between words
reads as a space and further ones as themselves; in a block scalar, lines are kept or folded in that
way depending on its kind.

Loops are bounded by the number of characters that are left, each round reading at least one.
-/

namespace ConstPromotion.Yaml

/-! ### Space between words -/

/-- Space between the words of a scalar: the spaces of one line, or line ends. -/
structure WordGap where
  spaces : List Char := []
  /-- The first line end, if there is one. -/
  ending : Option Char := none
  /-- The line ends after the first one. -/
  later : List Char := []
  /-- Whether a line has ended. -/
  broken : Bool := false

/-- Reads space between words. Within the first `indent` columns of a line no tab may stand. -/
def gapFrom (indent : Nat) (g : WordGap) : PlacedText → Except SyntaxError (WordGap × PlacedText)
  | [] => .ok (g, [])
  | p :: rest =>
    if isSpace p.char then
      if g.broken then
        if p.char = '\t' ∧ p.column < indent then .error .tabInIndentation
        else gapFrom indent g rest
      else gapFrom indent { g with spaces := g.spaces ++ [p.char] } rest
    else if isBreak p.char then
      if g.broken then gapFrom indent { g with later := g.later ++ [p.char] } rest
      else gapFrom indent { g with spaces := [], ending := some p.char, broken := true } rest
    else .ok (g, p :: rest)

/-- What space between words reads as. -/
def WordGap.text (g : WordGap) : List Char :=
  if g.broken then
    match g.ending with
    | some '\n' => if g.later = [] then [' '] else g.later
    | some c => c :: g.later
    | none => g.later
  else g.spaces

/-! ### Plain scalars -/

/-- Characters that structure a value in brackets. -/
def isFlowIndicator (c : Char) : Bool :=
  c == ',' || c == '[' || c == ']' || c == '\x7b' || c == '\x7d'

/-- The word of a plain scalar at the start of a text. -/
def plainWord (inFlow : Bool) : PlacedText → Except SyntaxError (List Char × PlacedText)
  | [] => .ok ([], [])
  | p :: rest =>
    let next := PlacedText.head rest
    if isBlankOrEnd p.char then .ok ([], p :: rest)
    else if inFlow ∧ p.char = ':' ∧ (isFlowIndicator next ∨ next = '?') then
      .error .unexpectedColon
    else if (p.char = ':' ∧ isBlankOrEnd next) ∨ (inFlow ∧ isFlowIndicator p.char) then
      .ok ([], p :: rest)
    else do
      let (word, rest) ← plainWord inFlow rest
      return (p.char :: word, rest)

/-- What was read of a scalar, and whether a line has ended after its last word. -/
structure ScalarRead where
  text : List Char
  endedLine : Bool
  rest : PlacedText

/-- Reads words of a plain scalar that stand at least `indent` columns in, with `gap` before the
first of them. -/
def plainFrom (inFlow : Bool) (indent : Nat) : (fuel : Nat) → WordGap → PlacedText →
    Except SyntaxError ScalarRead
  | 0, gap, text => .ok ⟨[], gap.broken, text⟩
  | fuel + 1, gap, text =>
    if text.isAnyMarker ∨ text.head = '#' then .ok ⟨[], gap.broken, text⟩
    else do
      let (word, rest) ← plainWord inFlow text
      if word = [] then
        return ⟨[], gap.broken, text⟩
      else if isSpace (PlacedText.head rest) ∨ isBreak (PlacedText.head rest) then
        let (next, after) ← gapFrom indent {} rest
        if !inFlow ∧ PlacedText.column after < indent then
          return ⟨gap.text ++ word, next.broken, after⟩
        else
          let later ← plainFrom inFlow indent fuel next after
          return { later with text := gap.text ++ word ++ later.text }
      else return ⟨gap.text ++ word, false, rest⟩

/-- Reads a plain scalar. -/
def plainScalar (inFlow : Bool) (indent : Nat) (text : PlacedText) :
    Except SyntaxError ScalarRead :=
  plainFrom inFlow indent text.length {} text

/-! ### Quoted scalars -/

/-- What an escape of one letter stands for. -/
def escapeLetter? : Char → Option Char
  | '0' => some '\x00'
  | 'a' => some '\x07'
  | 'b' => some '\x08'
  | 't' => some '\t'
  | '\t' => some '\t'
  | 'n' => some '\n'
  | 'v' => some '\x0b'
  | 'f' => some '\x0c'
  | 'r' => some '\r'
  | 'e' => some '\x1b'
  | ' ' => some ' '
  | '"' => some '"'
  | '/' => some '/'
  | '\\' => some '\\'
  | 'N' => some '\x85'
  | '_' => some '\xa0'
  | 'L' => some '\u2028'
  | 'P' => some '\u2029'
  | _ => none

/-- How many hexadecimal digits follow the letter of an escape. -/
def escapeWidth? : Char → Option Nat
  | 'x' => some 2
  | 'u' => some 4
  | 'U' => some 8
  | _ => none

/-- Reads an escape after its backslash. -/
def escaped (text : PlacedText) : Except SyntaxError (Char × PlacedText) :=
  match escapeLetter? text.head with
  | some c => .ok (c, text.drop 1)
  | none =>
    match escapeWidth? text.head with
    | none => .error .badEscape
    | some width =>
      let digits := PlacedText.chars ((text.drop 1).take width)
      match if digits.length = width then inBase? 16 digits else none with
      | none => .error .badEscape
      | some n =>
        if n.isValidChar then .ok (Char.ofNat n, text.drop (1 + width)) else .error .badEscape

/-- The word of a quoted scalar at the start of a text, and whether it ends in an escaped line
end. -/
def quotedWord (single : Bool) : (fuel : Nat) → PlacedText →
    Except SyntaxError (List Char × Bool × PlacedText)
  | 0, text => .ok ([], false, text)
  | fuel + 1, text => do
    let c := text.head
    if isBlankOrEnd c then return ([], false, text)
    else if single ∧ c = '\'' ∧ text.at 1 = '\'' then
      let (word, cut, rest) ← quotedWord single fuel (text.drop 2)
      return ('\'' :: word, cut, rest)
    else if c = (if single then '\'' else '"') then return ([], false, text)
    else if !single ∧ c = '\\' then
      if isBreak (text.at 1) then return ([], true, text.drop 2)
      else
        let (e, rest) ← escaped (text.drop 1)
        let (word, cut, rest) ← quotedWord single fuel rest
        return (e :: word, cut, rest)
    else
      let (word, cut, rest) ← quotedWord single fuel (text.drop 1)
      return (c :: word, cut, rest)

/-- Reads a quoted scalar up to its closing quote. -/
def quotedFrom (single : Bool) : (fuel : Nat) → PlacedText →
    Except SyntaxError (List Char × PlacedText)
  | 0, _ => .error .unclosedQuote
  | fuel + 1, text => do
    if text.isAnyMarker then throw .markerInScalar
    if text.head = endChar then throw .unclosedQuote
    let (word, cut, rest) ← quotedWord single text.length text
    if PlacedText.head rest = (if single then '\'' else '"') then
      return (word, rest.drop 1)
    let (gap, rest) ← gapFrom 0 { broken := cut } rest
    let (later, rest) ← quotedFrom single fuel rest
    return (word ++ gap.text ++ later, rest)

/-- Reads a quoted scalar after its opening quote. -/
def quotedScalar (single : Bool) (text : PlacedText) :
    Except SyntaxError (List Char × PlacedText) :=
  quotedFrom single (text.length + 1) text

/-! ### Block scalars -/

/-- What becomes of the line ends after the last line of a block scalar. -/
inductive Chomping where
  /-- They are dropped. -/
  | strip
  /-- The first one is kept. -/
  | clip
  /-- All are kept. -/
  | keep
deriving DecidableEq

/-- The sign of a block scalar header, if there is one. -/
def chompingSign? : Char → Option Chomping
  | '+' => some .keep
  | '-' => some .strip
  | _ => none

/-- The digit of a block scalar header, zero if there is none. -/
def indentDigit (text : PlacedText) : Except SyntaxError (Nat × PlacedText) :=
  let c := text.head
  if c = '0' then .error .badBlockHeader
  else if c.isDigit then .ok (c.toNat - '0'.toNat, text.drop 1)
  else .ok (0, text)

/-- Reads what follows the sign of a block scalar: a sign and a digit in either order. -/
def blockHints (text : PlacedText) : Except SyntaxError (Chomping × Nat × PlacedText) := do
  match chompingSign? text.head with
  | some chomping =>
    let (digit, text) ← indentDigit (text.drop 1)
    return (chomping, digit, text)
  | none =>
    let (digit, text) ← indentDigit text
    match if digit = 0 then none else chompingSign? text.head with
    | some chomping => return (chomping, digit, text.drop 1)
    | none => return (.clip, digit, text)

/-- Reads the rest of a line that may hold a comment only. -/
def restOfLine (fault : SyntaxError) (text : PlacedText) : Except SyntaxError PlacedText :=
  let text := (text.spanChars isSpace).2
  let text := if text.head = '#' then (text.spanChars fun c => !isLineEnd c).2 else text
  if isBreak text.head then .ok (text.drop 1)
  else if text.head = endChar then .ok text
  else .error fault

/-- Reads indentation and empty lines, and gives the line ends, and the greatest column that was
reached. With an `indent` of zero, all leading spaces are indentation. -/
def blockBreaks (indent deepest : Nat) : PlacedText →
    Except SyntaxError (List Char × Nat × PlacedText)
  | [] => .ok ([], deepest, [])
  | p :: rest =>
    let inside := indent = 0 ∨ p.column < indent
    if p.char = ' ' ∧ inside then blockBreaks indent deepest rest
    else if p.char = '\t' ∧ inside then .error .tabInIndentation
    else
      let deepest := max deepest p.column
      if isBreak p.char then do
        let (breaks, deepest, rest) ← blockBreaks indent deepest rest
        return (p.char :: breaks, deepest, rest)
      else .ok ([], deepest, p :: rest)

/-- The lines of a block scalar, with what was read before them. -/
structure BlockLines where
  text : List Char := []
  /-- The line end after the last line. -/
  ending : List Char := []
  /-- The empty lines after that. -/
  empties : List Char
  /-- Whether the last line started with a space. -/
  spaced : Bool := false

/-- What stands between the last line of a block scalar and the next one. -/
def BlockLines.joint (b : BlockLines) (literal nextSpaced : Bool) : List Char :=
  if !literal ∧ b.ending = ['\n'] ∧ !b.spaced ∧ !nextSpaced then
    if b.empties = [] then [' '] else b.empties
  else b.ending ++ b.empties

/-- Reads the lines of a block scalar, which stand `indent` columns in. -/
def blockLinesFrom (literal : Bool) (indent : Nat) : (fuel : Nat) → BlockLines → PlacedText →
    Except SyntaxError (BlockLines × PlacedText)
  | 0, b, text => .ok (b, text)
  | fuel + 1, b, text =>
    if text.column = indent ∧ text.head ≠ endChar then do
      let spaced := isSpace text.head
      let (line, rest) := text.spanChars fun c => !isLineEnd c
      let ending := if isBreak (PlacedText.head rest) then [PlacedText.head rest] else []
      let (empties, _, after) ← blockBreaks indent 0 (rest.drop ending.length)
      blockLinesFrom literal indent fuel
        { text := b.text ++ b.joint literal spaced ++ line, ending, empties, spaced } after
    else .ok (b, text)

/-- Reads a block scalar after its sign. `outer` is the column of the collection around it, minus
one if there is none. -/
def blockScalar (literal : Bool) (outer : Int) (text : PlacedText) :
    Except SyntaxError (List Char × PlacedText) := do
  let (chomping, digit, text) ← blockHints text
  let text ← restOfLine .badBlockHeader text
  let given := if digit = 0 then 0 else if outer ≥ 0 then outer.toNat + digit else digit
  let (empties, deepest, text) ← blockBreaks given 0 text
  let indent := if given = 0 then max (max deepest (outer + 1).toNat) 1 else given
  let (b, rest) ← blockLinesFrom literal indent text.length { empties } text
  let tail := match chomping with
    | .strip => []
    | .clip => b.ending
    | .keep => b.ending ++ b.empties
  return (b.text ++ tail, rest)

end ConstPromotion.Yaml
