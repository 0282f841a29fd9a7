import ConstPromotion.Yaml.Token.Basic

/-!
# From texts to tokens

A scan takes a text apart from left to right. Indentation opens and closes block collections. A
scalar, collection, alias, anchor or tag may turn out to be a key when a colon follows it on the
same line, so its place is remembered until then, and the tokens that a key needs are put in before
it.
-/

namespace ConstPromotion.Yaml

/-- The place of something that may turn out to be a key. -/
structure KeyPlace where
  /-- Whether it has to be a key, since it starts an entry of a mapping that is open. -/
  required : Bool
  /-- The number of tokens before it. -/
  tokens : Nat
  line : Nat
  column : Nat
  index : Nat
deriving DecidableEq

/-- How far a scan has come. -/
structure Scan where
  rest : PlacedText
  tokens : List Token := []
  /-- The column of the innermost block collection, minus one outside of all. -/
  indent : Int := -1
  /-- The columns of the collections around it. -/
  outer : List Int := []
  /-- What may turn out to be a key, outside of brackets and inside each pair, innermost first. -/
  keys : List (Option KeyPlace) := [none]
  /-- Whether a key may start here. -/
  keyAllowed : Bool := true

namespace Scan

/-- Whether the scan is inside brackets. -/
def inFlow (s : Scan) : Bool := s.keys.length > 1

/-- The place where the scan stands. -/
def place (s : Scan) : Placed := s.rest.head?.getD ⟨endChar, 0, 0, 0⟩

/-- Adds a token and goes on after `n` characters. -/
def emit (s : Scan) (t : Token) (n : Nat) : Scan :=
  { s with tokens := s.tokens ++ [t], rest := s.rest.drop n }

/-- Puts a token in before all but the first `n`. -/
def insertToken (s : Scan) (n : Nat) (t : Token) : Scan :=
  { s with tokens := s.tokens.take n ++ t :: s.tokens.drop n }

/-! ### Indentation -/

/-- Closes the block collections that stand further in than a column. -/
def closeBlocks (column : Int) (s : Scan) : Scan :=
  if s.inFlow then s
  else
    let all := s.indent :: s.outer
    let closed := all.takeWhile (· > column)
    match all.dropWhile (· > column) with
    | indent :: outer =>
      { s with indent, outer, tokens := s.tokens ++ closed.map fun _ => Token.blockEnd }
    | [] =>
      { s with indent := -1, outer := [], tokens := s.tokens ++ closed.map fun _ => .blockEnd }

/-- Opens a block collection at a column, unless one is open there. Its token is put in after the
first `n`. -/
def openBlock (s : Scan) (column n : Nat) (t : Token) : Scan :=
  if s.inFlow ∨ s.indent ≥ column then s
  else { s.insertToken n t with indent := column, outer := s.indent :: s.outer }

/-! ### Keys -/

/-- A remembered place is forgotten, which is a fault if a key has to be there. -/
def dropKey (s : Scan) : Except SyntaxError Scan :=
  match s.keys with
  | some k :: keys =>
    if k.required then .error .missingColon else .ok { s with keys := none :: keys }
  | _ => .ok s

/-- How many bytes a key may have that stands before its colon. -/
def maxKeyLength : Nat := 1024

/-- Forgets the remembered places that are on another line or too far back. -/
def dropStaleKeys (s : Scan) : Except SyntaxError Scan := do
  let here := s.place
  let keys ← s.keys.mapM fun key =>
    match key with
    | none => pure none
    | some k =>
      if k.line < here.line ∨ k.index + maxKeyLength < here.index then
        if k.required then throw .missingColon else pure none
      else pure (some k)
  return { s with keys }

/-- Remembers the place where the scan stands as one where a key may be. -/
def saveKey (s : Scan) : Except SyntaxError Scan := do
  if !s.keyAllowed then return s
  let here := s.place
  let required := !s.inFlow && s.indent == (here.column : Int)
  let s ← s.dropKey
  let key := { required, tokens := s.tokens.length, line := here.line, column := here.column
               index := here.index }
  return { s with keys := some key :: s.keys.drop 1 }

/-! ### Tokens of punctuation -/

/-- Adds a token that may be the start of a key, and allows or forbids a key after it. -/
def emitKeyLike (s : Scan) (keyAfter : Bool) (read : PlacedText → Except SyntaxError
    (Token × PlacedText)) : Except SyntaxError Scan := do
  let s ← s.saveKey
  let (t, rest) ← read s.rest
  return { s with tokens := s.tokens ++ [t], rest, keyAllowed := keyAfter }

/-- A marker of a document, or a directive. -/
def emitOutside (s : Scan) (t : Token) (rest : PlacedText) : Except SyntaxError Scan := do
  let s ← (s.closeBlocks (-1)).dropKey
  return { s with tokens := s.tokens ++ [t], rest, keyAllowed := false }

/-- An opening bracket. -/
def openFlow (s : Scan) (t : Token) : Except SyntaxError Scan := do
  let s ← s.saveKey
  return { s.emit t 1 with keys := none :: s.keys, keyAllowed := true }

/-- A closing bracket. -/
def closeFlow (s : Scan) (t : Token) : Except SyntaxError Scan := do
  let s ← s.dropKey
  return { s.emit t 1 with
    keys := if s.inFlow then s.keys.drop 1 else s.keys
    keyAllowed := false }

/-- A dash before an entry of a sequence. -/
def blockEntry (s : Scan) : Except SyntaxError Scan := do
  if !s.inFlow ∧ !s.keyAllowed then throw .entryNotAllowed
  let s := s.openBlock s.place.column s.tokens.length .blockSequenceStart
  let s ← s.dropKey
  return { s.emit .blockEntry 1 with keyAllowed := true }

/-- A question mark before a key. -/
def explicitKey (s : Scan) : Except SyntaxError Scan := do
  if !s.inFlow ∧ !s.keyAllowed then throw .keyNotAllowed
  let s := s.openBlock s.place.column s.tokens.length .blockMappingStart
  let s ← s.dropKey
  return { s.emit .key 1 with keyAllowed := !s.inFlow }

/-- A colon before a value. -/
def value (s : Scan) : Except SyntaxError Scan := do
  match s.keys with
  | some k :: keys =>
    let s := { s with keys := none :: keys }
    let s := (s.insertToken k.tokens .key).openBlock k.column k.tokens .blockMappingStart
    return { s.emit .value 1 with keyAllowed := false }
  | _ =>
    if !s.inFlow ∧ !s.keyAllowed then throw .valueNotAllowed
    let s := s.openBlock s.place.column s.tokens.length .blockMappingStart
    return { s.emit .value 1 with keyAllowed := !s.inFlow }

/-! ### The whole text -/

/-- Goes on to the next token, past blank space and comments. A line end outside of brackets allows
a key after it, and a tab where a key may start is no blank space. A byte order mark that opens a
line is passed over, and takes up the first column of the line. -/
def toToken (inFlow : Bool) (inComment : Bool) (keyAllowed : Bool) : PlacedText → Bool × PlacedText
  | [] => (keyAllowed, [])
  | p :: rest =>
    if isBreak p.char then toToken inFlow false (keyAllowed || !inFlow) rest
    else if p.char = endChar then (keyAllowed, p :: rest)
    else if inComment then toToken inFlow true keyAllowed rest
    else if p.char = '#' then toToken inFlow true keyAllowed rest
    else if p.char = ' ' ∨ (p.char = byteOrderMark ∧ p.column = 0)
        ∨ (p.char = '\t' ∧ (inFlow ∨ !keyAllowed)) then
      toToken inFlow false keyAllowed rest
    else (keyAllowed, p :: rest)

/-- Whether a plain scalar can start here. -/
def startsPlain (s : Scan) : Bool :=
  let c := s.rest.head
  let next := s.rest.at 1
  !(isBlankOrEnd c || isIndicator c || c == '-' || c == '?' || c == ':')
    || (c == '-' && !isSpace next)
    || (!s.inFlow && (c == '?' || c == ':') && !isBlankOrEnd next)

/-- Reads the token at which the scan stands. -/
def token (s : Scan) : Except SyntaxError Scan := do
  let c := s.rest.head
  let next := s.rest.at 1
  let opened := s.inFlow || isBlankOrEnd next
  if s.rest.column = 0 ∧ c = '%' then
    let closed ← (s.closeBlocks (-1)).dropKey
    let (t, rest) ← directive (s.rest.drop 1)
    closed.emitOutside t rest
  else if s.rest.isMarker '-' then s.emitOutside .documentStart (s.rest.drop 3)
  else if s.rest.isMarker '.' then s.emitOutside .documentEnd (s.rest.drop 3)
  else if c = '[' then s.openFlow .flowSequenceStart
  else if c = '\x7b' then s.openFlow .flowMappingStart
  else if c = ']' then s.closeFlow .flowSequenceEnd
  else if c = '\x7d' then s.closeFlow .flowMappingEnd
  else if c = ',' then
    let s ← s.dropKey
    return { s.emit .flowEntry 1 with keyAllowed := true }
  else if c = '-' ∧ isBlankOrEnd next then s.blockEntry
  else if c = '?' ∧ opened then s.explicitKey
  else if c = ':' ∧ opened then s.value
  else if c = '*' then
    s.emitKeyLike false fun text => do
      let (name, rest) ← anchorName (text.drop 1)
      return (.alias name, rest)
  else if c = '&' then
    s.emitKeyLike false fun text => do
      let (name, rest) ← anchorName (text.drop 1)
      return (.anchor name, rest)
  else if c = '!' then s.emitKeyLike false (tag s.inFlow)
  else if (c = '|' ∨ c = '>') ∧ !s.inFlow then
    let s ← s.dropKey
    let (text, rest) ← blockScalar (c == '|') s.indent (s.rest.drop 1)
    let style := if c = '|' then Style.literal else Style.folded
    return { s with tokens := s.tokens ++ [.scalar style text], rest, keyAllowed := true }
  else if c = '\'' ∨ c = '"' then
    s.emitKeyLike false fun text => do
      let (content, rest) ← quotedScalar (c == '\'') (text.drop 1)
      return (.scalar (if c = '\'' then Style.singleQuoted else Style.doubleQuoted) content, rest)
  else if s.startsPlain then
    let s ← s.saveKey
    let read ← plainScalar s.inFlow (s.indent + 1).toNat s.rest
    return { s with
      tokens := s.tokens ++ [.scalar .plain read.text], rest := read.rest
      keyAllowed := read.endedLine }
  else throw .unexpectedCharacter

/-- Reads the tokens that are left. Each one takes a character at least. -/
def run : (fuel : Nat) → Scan → Except SyntaxError (List Token)
  | 0, s => .ok s.tokens
  | fuel + 1, s => do
    let (keyAllowed, rest) := toToken s.inFlow false s.keyAllowed s.rest
    let s ← dropStaleKeys { s with keyAllowed, rest }
    let s := s.closeBlocks s.place.column
    if s.rest.head = endChar then
      let s ← (s.closeBlocks (-1)).dropKey
      return s.tokens
    else run fuel (← s.token)

end Scan

/-- The tokens of a text. -/
def tokens (text : List Char) : Except SyntaxError (List Token) := do
  let rest ← PlacedText.ofChars? text
  Scan.run (rest.length + 1) { rest }

end ConstPromotion.Yaml
