import ConstPromotion.Text.Digits
import ConstPromotion.Text.Utf8

/-!
# SHA-256

The digest of FIPS 180-4. A message is padded to whole blocks of 64 bytes, and the eight words of
the state absorb one block after the other.
-/

namespace ConstPromotion.Sha256

/-- The eight words of the running state. -/
structure State where
  (a b c d e f g h : UInt32)
deriving DecidableEq

/-- The state before the first block: the first bits of the square roots of the first primes. -/
def initial : State :=
  ⟨0x6a09e667, 0xbb67ae85, 0x3c6ef372, 0xa54ff53a, 0x510e527f, 0x9b05688c, 0x1f83d9ab, 0x5be0cd19⟩

/-- One word for each round: the first bits of the cube roots of the first 64 primes. -/
def roundWords : List UInt32 :=
  [0x428a2f98, 0x71374491, 0xb5c0fbcf, 0xe9b5dba5, 0x3956c25b, 0x59f111f1, 0x923f82a4, 0xab1c5ed5,
   0xd807aa98, 0x12835b01, 0x243185be, 0x550c7dc3, 0x72be5d74, 0x80deb1fe, 0x9bdc06a7, 0xc19bf174,
   0xe49b69c1, 0xefbe4786, 0x0fc19dc6, 0x240ca1cc, 0x2de92c6f, 0x4a7484aa, 0x5cb0a9dc, 0x76f988da,
   0x983e5152, 0xa831c66d, 0xb00327c8, 0xbf597fc7, 0xc6e00bf3, 0xd5a79147, 0x06ca6351, 0x14292967,
   0x27b70a85, 0x2e1b2138, 0x4d2c6dfc, 0x53380d13, 0x650a7354, 0x766a0abb, 0x81c2c92e, 0x92722c85,
   0xa2bfe8a1, 0xa81a664b, 0xc24b8b70, 0xc76c51a3, 0xd192e819, 0xd6990624, 0xf40e3585, 0x106aa070,
   0x19a4c116, 0x1e376c08, 0x2748774c, 0x34b0bcb5, 0x391c0cb3, 0x4ed8aa4a, 0x5b9cca4f, 0x682e6ff3,
   0x748f82ee, 0x78a5636f, 0x84c87814, 0x8cc70208, 0x90befffa, 0xa4506ceb, 0xbef9a3f7, 0xc67178f2]

/-- Rotates a word to the right. -/
def rotate (w : UInt32) (n : UInt32) : UInt32 := (w >>> n) ||| (w <<< (32 - n))

/-- One round on the state, with the word of the round and the word of the message. -/
def State.round (s : State) (k w : UInt32) : State :=
  let mix₁ := rotate s.e 6 ^^^ rotate s.e 11 ^^^ rotate s.e 25
  let choice := (s.e &&& s.f) ^^^ (~~~s.e &&& s.g)
  let t₁ := s.h + mix₁ + choice + k + w
  let mix₀ := rotate s.a 2 ^^^ rotate s.a 13 ^^^ rotate s.a 22
  let majority := (s.a &&& s.b) ^^^ (s.a &&& s.c) ^^^ (s.b &&& s.c)
  ⟨t₁ + (mix₀ + majority), s.a, s.b, s.c, s.d + t₁, s.e, s.f, s.g⟩

/-- Adds two states word by word. -/
def State.add (s t : State) : State :=
  ⟨s.a + t.a, s.b + t.b, s.c + t.c, s.d + t.d, s.e + t.e, s.f + t.f, s.g + t.g, s.h + t.h⟩

/-- The words that follow a window of sixteen words of the message. -/
def expand : Nat → List UInt32 → List UInt32
  | 0, window => window
  | n + 1, window =>
    let w₁ := window.getD 1 0
    let w₁₄ := window.getD 14 0
    let s₀ := rotate w₁ 7 ^^^ rotate w₁ 18 ^^^ (w₁ >>> 3)
    let s₁ := rotate w₁₄ 17 ^^^ rotate w₁₄ 19 ^^^ (w₁₄ >>> 10)
    let next := window.getD 0 0 + s₀ + window.getD 9 0 + s₁
    window.take 1 ++ expand n (window.drop 1 ++ [next])

/-- Absorbs a block of sixteen words. -/
def State.absorb (s : State) (block : List UInt32) : State :=
  s.add ((roundWords.zip (expand 48 block)).foldl (fun t (k, w) => t.round k w) s)

/-- Groups bytes into words, the most significant byte first. -/
def wordsOf : Bytes → List UInt32
  | a :: b :: c :: d :: rest =>
    ((a.toUInt32 <<< 24) ||| (b.toUInt32 <<< 16) ||| (c.toUInt32 <<< 8) ||| d.toUInt32)
      :: wordsOf rest
  | _ => []

/-- A number as eight bytes, the most significant one first. -/
def lengthBytes (n : Nat) : Bytes :=
  (lastDigits 256 8 n).map UInt8.ofNat

/-- A message followed by its padding: a one bit, zeros, and the length in bits. -/
def pad (message : Bytes) : Bytes :=
  let zeros := (119 - message.length % 64) % 64
  message ++ 0x80 :: List.replicate zeros 0 ++ lengthBytes (8 * message.length)

/-- Absorbs words, sixteen at a time. -/
def absorbBlocks : Nat → State → List UInt32 → State
  | 0, s, _ => s
  | n + 1, s, words => absorbBlocks n (s.absorb (words.take 16)) (words.drop 16)

/-- The hexadecimal digits of a word. -/
def hexWord (w : UInt32) : List Char :=
  (lastDigits 16 8 w.toNat).map Nat.digitChar

/-- The digest of a message in hexadecimal digits. -/
def hexDigest (message : Bytes) : List Char :=
  let words := wordsOf (pad message)
  let s := absorbBlocks (words.length / 16) initial words
  [s.a, s.b, s.c, s.d, s.e, s.f, s.g, s.h].flatMap hexWord

end ConstPromotion.Sha256
