import ConstPromotion.Declaration
import ConstPromotion.Proofs.Text.Decoding

/-!
# Words of a line of bytes

The words of a line can be read off its bytes: cutting the bytes at each one that is no letter,
digit or underscore gives the same words as reading the line as text and cutting that, except for
empty words. So malformed bytes neither hide a word nor make one.
-/

namespace ConstPromotion

/-! ### Characters of words -/

/-- Letters, digits and the underscore, as bytes. -/
def isWordByte (b : UInt8) : Bool :=
  0x41 ≤ b && b ≤ 0x5A || 0x61 ≤ b && b ≤ 0x7A || 0x30 ≤ b && b ≤ 0x39 || b == 0x5F

/-- The words of a line of bytes: it is cut at every byte that is not part of one. -/
def byteWords (line : Bytes) : List Bytes := line.splitOnP fun b => !isWordByte b

lemma toNat_lt_of_isWordChar {c : Char} (h : isWordChar c) : c.toNat < 0x80 := by
  have hranges : isWordChar c =
      (decide (c.val ≥ 'A'.val ∧ c.val ≤ 'Z'.val) || c.val ≥ 'a'.val && c.val ≤ 'z'.val
        || c.val ≥ '0'.val && c.val ≤ '9'.val || c == '_') := rfl
  simp only [hranges, Bool.or_eq_true, Bool.and_eq_true, decide_eq_true_eq, beq_iff_eq, ge_iff_le,
    UInt32.le_iff_toNat_le, Char.reduceVal, UInt32.reduceToNat] at h
  rcases h with h | rfl
  · change c.val.toNat < 0x80
    omega
  · decide

/-- A byte is part of a word exactly when the ASCII character with its code is. -/
lemma isWordByte_ofNat_toNat {c : Char} (hc : c.toNat < 0x80) :
    isWordByte (UInt8.ofNat c.toNat) = isWordChar c := by
  have hall : ∀ n < 0x80, isWordByte (UInt8.ofNat n) = isWordChar (Char.ofNat n) := by
    decide +kernel
  rw [hall _ hc, Char.ofNat_toNat]

lemma isWordByte_eq_false {b : UInt8} (hb : 0x80 ≤ b) : isWordByte b = false := by
  have hall : ∀ n < 0x100, 0x80 ≤ n → isWordByte (UInt8.ofNat n) = false := by decide +kernel
  rw [← hall b.toNat b.toNat_lt (UInt8.le_iff_toNat_le.mp hb), UInt8.ofNat_toNat]

/-! ### Cutting a line -/

lemma words_cons_of_not {c : Char} (hc : isWordChar c = false) (text : List Char) :
    words (c :: text) = [] :: words text := by
  simp [words, List.splitOnP_cons_eq_if_modifyHead, hc]

lemma words_cons_of_isWordChar {c : Char} (hc : isWordChar c) (text : List Char) :
    words (c :: text) = (words text).modifyHead (c :: ·) := by
  simp [words, List.splitOnP_cons_eq_if_modifyHead, hc]

lemma byteWords_cons_of_not {b : UInt8} (hb : isWordByte b = false) (bytes : Bytes) :
    byteWords (b :: bytes) = [] :: byteWords bytes := by
  simp [byteWords, List.splitOnP_cons_eq_if_modifyHead, hb]

lemma byteWords_cons_of_isWordByte {b : UInt8} (hb : isWordByte b) (bytes : Bytes) :
    byteWords (b :: bytes) = (byteWords bytes).modifyHead (b :: ·) := by
  simp [byteWords, List.splitOnP_cons_eq_if_modifyHead, hb]

/-- Bytes that are not ASCII leave only empty words behind. -/
lemma byteWords_foreign_append {piece : Bytes} (hpiece : ∀ b ∈ piece, 0x80 ≤ b) (bytes : Bytes) :
    byteWords (piece ++ bytes) = List.replicate piece.length [] ++ byteWords bytes := by
  induction piece with
  | nil => rfl
  | cons b piece ih =>
    obtain ⟨hb, hpiece⟩ := List.forall_mem_cons.mp hpiece
    rw [List.cons_append, byteWords_cons_of_not (isWordByte_eq_false hb), ih hpiece,
      List.length_cons, List.replicate_succ, List.cons_append]

/-! ### Words of bytes and of text -/

/-- Words of a text and words of bytes are the same: the first ones, which may still grow, and of
the others those that are not empty. -/
def WordsAgree : List (List Char) → List Bytes → Prop
  | w :: ws, b :: bs => b = Utf8.encode w ∧ ∀ v ≠ [], v ∈ ws ↔ Utf8.encode v ∈ bs
  | _, _ => False

/-- Of words that agree, those that are not empty are the same. -/
lemma WordsAgree.mem_iff {ws : List (List Char)} {bs : List Bytes} (h : WordsAgree ws bs)
    {v : List Char} (hv : v ≠ []) : v ∈ ws ↔ Utf8.encode v ∈ bs := by
  match ws, bs, h with
  | w :: ws, _ :: bs, ⟨rfl, h⟩ =>
    rw [List.mem_cons, List.mem_cons, h v hv, Utf8.encode_injective.eq_iff]

/-- Reading a line as text keeps its words. -/
lemma Utf8.Reads.wordsAgree {bytes : Bytes} {text : List Char} (h : Utf8.Reads bytes text) :
    WordsAgree (words text) (byteWords bytes) := by
  induction h with
  | nil => exact ⟨rfl, by simp⟩
  | @ascii c bytes text hc _ ih =>
    cases hword : isWordChar c with
    | true =>
      have hbyte := (isWordByte_ofNat_toNat hc).trans hword
      rw [words_cons_of_isWordChar hword, byteWords_cons_of_isWordByte hbyte]
      match words text, byteWords bytes, ih with
      | w :: ws, _ :: bs, ⟨rfl, h⟩ =>
        exact ⟨by simp [Utf8.utf8EncodeChar_ascii hc], h⟩
    | false =>
      have hbyte := (isWordByte_ofNat_toNat hc).trans hword
      rw [words_cons_of_not hword, byteWords_cons_of_not hbyte]
      exact ⟨rfl, fun v hv => ih.mem_iff hv⟩
  | @foreign piece bytes c text hpiece hforeign hc _ ih =>
    have hword : isWordChar c = false := by
      by_contra hne
      exact absurd (toNat_lt_of_isWordChar (by simpa using hne)) (by omega)
    -- one empty word in the text, one for each byte of the piece in the bytes
    obtain ⟨b, piece, rfl⟩ := List.exists_cons_of_ne_nil hpiece
    rw [words_cons_of_not hword, byteWords_foreign_append hforeign, List.length_cons,
      List.replicate_succ]
    refine ⟨rfl, fun v hv => ?_⟩
    have hne : Utf8.encode v ≠ [] := Utf8.encode_ne_nil hv
    rw [ih.mem_iff hv]
    simp [hne]

/-- A line of bytes mentions `const` exactly when it is one of the words of its bytes. -/
theorem mentionsConst_decodeLossy (line : Bytes) :
    mentionsConst (Utf8.decodeLossy line) ↔ bytesOf "const" ∈ byteWords line := by
  rw [mentionsConst, List.contains_iff_mem,
    (Utf8.reads_decodeLossy line).wordsAgree.mem_iff (by decide), bytesOf]

end ConstPromotion
