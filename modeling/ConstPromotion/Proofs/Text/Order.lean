import ConstPromotion.Proofs.Text.Decoding

/-!
# The order of texts is the order of their bytes

The UTF-8 forms of two characters differ at a byte that both have, and the lesser character has the
lesser byte there (`utf8EncodeChar_append_lt`). So names that are ordered by their characters are
ordered by their bytes (`encode_lt_encode`).
-/

namespace ConstPromotion.Utf8

/-- The first byte that differs decides between two characters, whatever follows them. -/
lemma utf8EncodeChar_append_lt {c d : Char} (h : c < d) (s t : Bytes) :
    String.utf8EncodeChar c ++ s < String.utf8EncodeChar d ++ t := by
  have hcode : c.val.toNat < d.val.toNat := h
  have hmost : d.val.toNat < 0x110000 := by
    have hvalid := d.valid
    simp only [UInt32.isValidChar, Nat.isValidChar] at hvalid
    omega
  simp only [String.utf8EncodeChar]
  -- one case for each pair of lengths
  split_ifs
  all_goals
    simp only [List.cons_append, List.nil_append, List.cons_lt_cons_iff, UInt8.lt_iff_toNat_lt,
      ← UInt8.toNat_inj, UInt8.toNat_ofNat']
    -- no byte runs over
    simp (disch := omega) only [Nat.mod_eq_of_lt]
    omega

/-- Texts are ordered as their UTF-8 forms are. -/
theorem encode_lt_encode {s t : List Char} (h : s < t) : encode s < encode t := by
  induction s generalizing t with
  | nil =>
    cases t with
    | nil => exact absurd h (List.lt_irrefl [])
    | cons d t =>
      obtain ⟨b, rest, hd⟩ := List.exists_cons_of_ne_nil (String.utf8EncodeChar_ne_nil (c := d))
      rw [encode_nil, encode_cons, hd]
      exact List.nil_lt_cons b _
  | cons c s ih =>
    cases t with
    | nil => exact absurd h (List.not_lt_nil _)
    | cons d t =>
      rw [encode_cons, encode_cons]
      rcases List.cons_lt_cons_iff.mp h with hlt | ⟨rfl, hlt⟩
      · exact utf8EncodeChar_append_lt hlt _ _
      · exact List.append_left_lt (ih hlt)

end ConstPromotion.Utf8
