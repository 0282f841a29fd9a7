import ConstPromotion.Proofs.Text.Decoding

/-!
# Bytes that are text

Bytes that are the UTF-8 form of some text are read back without loss (`encode_decodeLossy`). They
stay such when they are put together, and when they are cut beside an ASCII byte, which is never a
part of a longer character (`isEncoded_append_cons_iff`).
-/

namespace ConstPromotion.Utf8

/-- Bytes that are the UTF-8 form of some text. -/
def IsEncoded (bytes : Bytes) : Prop := ∃ text, encode text = bytes

variable {bytes start rest : Bytes} {b : UInt8}

lemma isEncoded_encode (text : List Char) : IsEncoded (encode text) := ⟨text, rfl⟩

lemma isEncoded_nil : IsEncoded [] := ⟨[], rfl⟩

lemma IsEncoded.append (hstart : IsEncoded start) (hrest : IsEncoded rest) :
    IsEncoded (start ++ rest) := by
  obtain ⟨s, rfl⟩ := hstart
  obtain ⟨t, rfl⟩ := hrest
  exact ⟨s ++ t, encode_append s t⟩

/-- Reading text loses nothing. -/
lemma IsEncoded.encode_decodeLossy (h : IsEncoded bytes) : encode (decodeLossy bytes) = bytes := by
  obtain ⟨text, rfl⟩ := h
  rw [decodeLossy_encode]

/-- An ASCII byte is the UTF-8 form of the character with its code. -/
lemma utf8EncodeChar_ofNat_toNat (hb : b < 0x80) :
    String.utf8EncodeChar (Char.ofNat b.toNat) = [b] := by
  simp only [UInt8.lt_iff_toNat_lt, UInt8.reduceToNat] at hb
  have hchar : (Char.ofNat b.toNat).toNat = b.toNat := toNat_ofNat_of_valid (.inl (by omega))
  rw [utf8EncodeChar_ascii (by rwa [hchar]), hchar, UInt8.ofNat_toNat]

lemma isEncoded_of_forall_lt (h : ∀ b ∈ bytes, b < 0x80) : IsEncoded bytes := by
  induction bytes with
  | nil => exact isEncoded_nil
  | cons b bytes ih =>
    obtain ⟨hb, hbytes⟩ := List.forall_mem_cons.mp h
    have hfirst : IsEncoded [b] := ⟨[Char.ofNat b.toNat], by simp [utf8EncodeChar_ofNat_toNat hb]⟩
    exact hfirst.append (ih hbytes)

/-- A character whose UTF-8 form holds an ASCII byte is that byte alone. -/
lemma utf8EncodeChar_eq_of_mem {c : Char} (hb : b < 0x80) (hmem : b ∈ String.utf8EncodeChar c) :
    String.utf8EncodeChar c = [b] := by
  have hcode : (Char.ofNat b.toNat).toNat < 0x80 := by
    simp only [UInt8.lt_iff_toNat_lt, UInt8.reduceToNat] at hb
    rwa [toNat_ofNat_of_valid (.inl (by omega))]
  have hbyte : UInt8.ofNat (Char.ofNat b.toNat).toNat = b := by
    have hform := utf8EncodeChar_ofNat_toNat hb
    rw [utf8EncodeChar_ascii hcode] at hform
    exact List.singleton_inj.mp hform
  have hiff := (reads_encode [c]).mem_iff hcode
  rw [hbyte, encode_cons, encode_nil, List.append_nil, List.mem_singleton] at hiff
  rw [← hiff.mp hmem, utf8EncodeChar_ofNat_toNat hb]

/-- Text that is cut beside an ASCII byte leaves text on both sides. -/
theorem isEncoded_append_cons_iff (hb : b < 0x80) :
    IsEncoded (start ++ b :: rest) ↔ IsEncoded start ∧ IsEncoded rest := by
  constructor
  · rintro ⟨text, htext⟩
    induction text generalizing start with
    | nil => simp at htext
    | cons c text ih =>
      rw [encode_cons] at htext
      rcases List.append_eq_append_iff.mp htext with ⟨more, hstart, hmore⟩ | ⟨more, hc, hmore⟩
      · -- the character lies before the cut
        obtain ⟨⟨s, rfl⟩, hrest⟩ := ih hmore
        exact ⟨⟨c :: s, by rw [encode_cons, hstart]⟩, hrest⟩
      · cases more with
        | nil =>
          obtain ⟨-, hrest⟩ : IsEncoded [] ∧ IsEncoded rest := ih hmore.symm
          exact ⟨⟨[c], by simpa using hc⟩, hrest⟩
        | cons b' more =>
          -- the byte is the character
          obtain ⟨rfl, hrest⟩ := List.cons.inj hmore
          have hsingle := utf8EncodeChar_eq_of_mem hb (c := c) (by simp [hc])
          rw [hc, List.append_eq_singleton_iff] at hsingle
          obtain ⟨rfl, htail⟩ := hsingle.resolve_right (by simp)
          obtain rfl : more = [] := by simpa using htail
          exact ⟨isEncoded_nil, text, by simpa using hrest.symm⟩
  · rintro ⟨hstart, hrest⟩
    have hbyte : IsEncoded [b] := isEncoded_of_forall_lt (by simpa using hb)
    exact hstart.append (hbyte.append hrest)

/-- What follows ASCII in a text is text. -/
lemma IsEncoded.of_append (h : IsEncoded (start ++ rest)) (hstart : ∀ b ∈ start, b < 0x80) :
    IsEncoded rest := by
  rcases List.eq_nil_or_concat' start with rfl | ⟨before, b, rfl⟩
  · exact h
  · rw [List.append_assoc, List.singleton_append] at h
    exact ((isEncoded_append_cons_iff (hstart b (by simp))).mp h).2

end ConstPromotion.Utf8
