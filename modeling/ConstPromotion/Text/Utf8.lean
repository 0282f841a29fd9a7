/-!
# Text as bytes

Texts are lists of characters, files are lists of bytes. `encode` writes a text in UTF-8,
`decode?` reads it back, and `decodeLossy` reads any bytes at all: each malformed piece, taken
as long as it could still have become a character, gives one replacement character.

Both readers share one machine, which takes a byte at a time and remembers only the character
it is in the middle of.
-/

namespace ConstPromotion

/-- The contents of a file. -/
abbrev Bytes := List UInt8

namespace Utf8

/-! ### Writing -/

/-- The UTF-8 form of a text. -/
def encode (text : List Char) : Bytes := text.flatMap String.utf8EncodeChar

@[simp] theorem encode_nil : encode [] = [] := rfl

@[simp] theorem encode_cons (c : Char) (text : List Char) :
    encode (c :: text) = String.utf8EncodeChar c ++ encode text := rfl

@[simp] theorem encode_append (s t : List Char) : encode (s ++ t) = encode s ++ encode t := by
  simp [encode]

/-! ### Reading -/

/-- A character of several bytes of which the first ones have been read. -/
structure Pending where
  /-- The bits read so far. -/
  bits : Nat
  /-- How many bytes are to come after the next one. -/
  later : Nat
  /-- The least byte that may come next. -/
  low : UInt8
  /-- The greatest byte that may come next. -/
  high : UInt8
deriving DecidableEq

/-- What a byte can be when no character is pending. -/
inductive Lead where
  | whole (c : Char)
  | start (pending : Pending)
  | malformed

/-- Reads a first byte. The bounds of the second byte rule out overlong forms, surrogates and
values past the last code point. -/
def lead (b : UInt8) : Lead :=
  if b < 0x80 then .whole (Char.ofNat b.toNat)
  else if b < 0xC2 then .malformed
  else if b < 0xE0 then .start ⟨b.toNat - 0xC0, 0, 0x80, 0xBF⟩
  else if b < 0xF0 then
    .start ⟨b.toNat - 0xE0, 1, if b = 0xE0 then 0xA0 else 0x80, if b = 0xED then 0x9F else 0xBF⟩
  else if b < 0xF5 then
    .start ⟨b.toNat - 0xF0, 2, if b = 0xF0 then 0x90 else 0x80, if b = 0xF4 then 0x8F else 0xBF⟩
  else .malformed

/-- What the byte `b` completes when no character is pending, and what is pending after it. A
malformed piece is written as `none`. -/
def first (b : UInt8) : List (Option Char) × Option Pending :=
  match lead b with
  | .whole c => ([some c], none)
  | .start p => ([], some p)
  | .malformed => ([none], none)

/-- What the byte `b` completes, and what is pending after it. A byte that cannot go on with the
pending character ends it as malformed and is then read as a first byte. -/
def step : Option Pending → UInt8 → List (Option Char) × Option Pending
  | none, b => first b
  | some p, b =>
    if p.low ≤ b ∧ b ≤ p.high then
      let bits := p.bits * 64 + (b.toNat - 0x80)
      match p.later with
      | 0 => ([some (Char.ofNat bits)], none)
      | later + 1 => ([], some ⟨bits, later, 0x80, 0xBF⟩)
    else
      let (done, next) := first b
      (none :: done, next)

/-- The characters and malformed pieces of a byte string, read after a pending character. -/
def piecesAfter : Option Pending → Bytes → List (Option Char)
  | none, [] => []
  | some _, [] => [none]
  | p, b :: rest => (step p b).1 ++ piecesAfter (step p b).2 rest

/-- The characters of a byte string in order, with `none` for each malformed piece. -/
def pieces (bytes : Bytes) : List (Option Char) := piecesAfter none bytes

/-- What stands for a malformed piece. -/
def replacement : Char := '\uFFFD'

/-- Reads bytes as text, malformed pieces becoming the replacement character. -/
def decodeLossy (bytes : Bytes) : List Char := (pieces bytes).map (·.getD replacement)

/-- Reads bytes as text if all of them are well-formed. -/
def decode? (bytes : Bytes) : Option (List Char) := (pieces bytes).mapM id

/-- The size of a text in bytes. -/
def size (text : List Char) : Nat := (encode text).length

end Utf8

/-- The UTF-8 form of a string. -/
def bytesOf (s : String) : Bytes := Utf8.encode s.toList

/-- The string that bytes hold, malformed pieces replaced. -/
def lossyString (bytes : Bytes) : String := String.ofList (Utf8.decodeLossy bytes)

end ConstPromotion
