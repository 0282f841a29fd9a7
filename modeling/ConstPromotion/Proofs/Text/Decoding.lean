import ConstPromotion.Text.Utf8
import Mathlib.Tactic

/-!
# What lossy reading keeps

Reading bytes as text never moves an ASCII byte: it becomes the character with its code, in its
place among the other ones, and all other characters of the text come from bytes that are not
ASCII. `Utf8.Reads` says so of a byte string and a text, and `reads_decodeLossy` says that lossy
reading is of that kind for all bytes, malformed ones included.

Bytes that a text is written as are read back as that text (`decodeLossy_encode`,
`decode?_encode`).
-/

namespace ConstPromotion.Utf8

/-! ### Characters by their code -/

/-- A text of ASCII characters only. -/
def IsAscii (text : List Char) : Prop := ∀ c ∈ text, c.toNat < 0x80

lemma isAscii_append {s t : List Char} : IsAscii (s ++ t) ↔ IsAscii s ∧ IsAscii t :=
  List.forall_mem_append

lemma toNat_ofNat_of_valid {n : Nat} (h : n.isValidChar) : (Char.ofNat n).toNat = n := by
  rw [Char.ofNat, dif_pos h]
  rfl

lemma utf8EncodeChar_ascii {c : Char} (h : c.toNat < 0x80) :
    String.utf8EncodeChar c = [UInt8.ofNat c.toNat] := by
  have hle : c.val.toNat ≤ 0x7F := by
    have : c.toNat = c.val.toNat := rfl
    omega
  simp only [String.utf8EncodeChar, if_pos hle]
  rfl

lemma toNat_ofNat_of_lt {n : Nat} (h : n < 256) : (UInt8.ofNat n).toNat = n := by
  rw [UInt8.toNat_ofNat', Nat.mod_eq_of_lt h]

lemma toNat_ofNat_toNat {c : Char} (h : c.toNat < 0x80) : (UInt8.ofNat c.toNat).toNat = c.toNat :=
  toNat_ofNat_of_lt (by omega)

lemma length_encode {text : List Char} (h : IsAscii text) : (encode text).length = text.length := by
  induction text with
  | nil => rfl
  | cons c text ih =>
    obtain ⟨hc, htext⟩ := List.forall_mem_cons.mp h
    simp [utf8EncodeChar_ascii hc, ih htext]

lemma lt_of_mem_encode {text : List Char} (h : IsAscii text) {b : UInt8} (hb : b ∈ encode text) :
    b < 0x80 := by
  obtain ⟨c, hc, hbc⟩ := List.mem_flatMap.mp hb
  rw [utf8EncodeChar_ascii (h c hc), List.mem_singleton] at hbc
  rw [hbc, UInt8.lt_iff_toNat_lt, toNat_ofNat_toNat (h c hc)]
  exact h c hc

/-! ### Pending characters -/

/-- The least code that a pending character can get. -/
def Pending.least (p : Pending) : Nat := (p.bits * 64 + (p.low.toNat - 0x80)) * 64 ^ p.later

/-- The greatest code that a pending character can get. -/
def Pending.most (p : Pending) : Nat :=
  (p.bits * 64 + (p.high.toNat - 0x80)) * 64 ^ p.later + (64 ^ p.later - 1)

/-- Every way to go on with a pending character ends in a character past ASCII. -/
structure Pending.IsSound (p : Pending) : Prop where
  low : 0x80 ≤ p.low.toNat
  least : 0x80 ≤ p.least
  most : p.most < 0xD800 ∨ 0xDFFF < p.least ∧ p.most < 0x110000

lemma isSound_of_lead {b : UInt8} {p : Pending} (h : lead b = .start p) : p.IsSound := by
  simp only [lead, UInt8.lt_iff_toNat_lt, UInt8.reduceToNat, ← UInt8.toNat_inj] at h
  split_ifs at h
  all_goals simp only [Lead.start.injEq] at h
  all_goals subst h
  all_goals constructor
  all_goals simp only [Pending.least, Pending.most, UInt8.reduceToNat]
  all_goals omega

/-- A byte that goes on with a sound pending character leaves a sound one pending. -/
lemma Pending.IsSound.next {p : Pending} (h : p.IsSound) {later : Nat} (hl : p.later = later + 1)
    {b : UInt8} (hlow : p.low ≤ b) (hhigh : b ≤ p.high) :
    Pending.IsSound ⟨p.bits * 64 + (b.toNat - 0x80), later, 0x80, 0xBF⟩ := by
  obtain ⟨low, least, most⟩ := h
  rw [UInt8.le_iff_toNat_le] at hlow hhigh
  have hpos : 0 < 64 ^ later := by positivity
  -- the codes still open lie between the bits read so far and the next value of these bits
  have hlo := Nat.mul_le_mul_right (64 ^ (later + 1))
    (show p.bits * 64 + (p.low.toNat - 0x80) ≤ p.bits * 64 + (b.toNat - 0x80) by omega)
  have hhi := Nat.mul_le_mul_right (64 ^ (later + 1))
    (show p.bits * 64 + (b.toNat - 0x80) ≤ p.bits * 64 + (p.high.toNat - 0x80) by omega)
  have hsplit (n x : Nat) : (n * 64 + x) * 64 ^ later = n * 64 ^ (later + 1) + x * 64 ^ later := by
    ring
  simp only [Pending.least, Pending.most, hl] at least most
  constructor <;> simp only [Pending.least, Pending.most, UInt8.reduceToNat, hsplit] <;>
    have := pow_succ 64 later <;> omega

/-- The last byte of a sound pending character completes one past ASCII. -/
lemma Pending.IsSound.complete {p : Pending} (h : p.IsSound) (hl : p.later = 0) {b : UInt8}
    (hlow : p.low ≤ b) (hhigh : b ≤ p.high) :
    0x80 ≤ (Char.ofNat (p.bits * 64 + (b.toNat - 0x80))).toNat := by
  obtain ⟨low, least, most⟩ := h
  rw [UInt8.le_iff_toNat_le] at hlow hhigh
  simp only [Pending.least, Pending.most, hl, pow_zero] at least most
  rw [toNat_ofNat_of_valid]
  · omega
  · simp only [Nat.isValidChar]
    omega

/-! ### Reading -/

/-- A text is read from a byte string: each ASCII byte is its own character, and every other
character is read from one or more bytes that are not ASCII. -/
inductive Reads : Bytes → List Char → Prop where
  | nil : Reads [] []
  | ascii {c : Char} {bytes : Bytes} {text : List Char} (hc : c.toNat < 0x80)
      (h : Reads bytes text) : Reads (UInt8.ofNat c.toNat :: bytes) (c :: text)
  | foreign {piece bytes : Bytes} {c : Char} {text : List Char} (hpiece : piece ≠ [])
      (hbytes : ∀ b ∈ piece, 0x80 ≤ b) (hc : 0x80 ≤ c.toNat) (h : Reads bytes text) :
      Reads (piece ++ bytes) (c :: text)

/-- The text of pieces, malformed ones replaced. -/
def textOf (pieces : List (Option Char)) : List Char := pieces.map (·.getD replacement)

@[simp] lemma textOf_some (c : Char) (pieces : List (Option Char)) :
    textOf (some c :: pieces) = c :: textOf pieces := rfl

lemma lead_eq_whole_iff {b : UInt8} {c : Char} :
    lead b = .whole c ↔ b < 0x80 ∧ Char.ofNat b.toNat = c := by
  rw [lead]
  split_ifs with h <;> simp [h]

/-- How a byte is read when nothing is pending, given how the bytes after it are read. -/
lemma reads_first {b : UInt8} {rest : Bytes} (hrest : Reads rest (textOf (piecesAfter none rest)))
    (hpending : ∀ p : Pending, p.IsSound → ∀ held ≠ [], (∀ x ∈ held, 0x80 ≤ x) →
      Reads (held ++ rest) (textOf (piecesAfter (some p) rest))) :
    Reads (b :: rest) (textOf (piecesAfter none (b :: rest))) := by
  have hforeign (h : ∀ c, lead b ≠ .whole c) : ∀ x ∈ [b], 0x80 ≤ x := by
    simpa [lead_eq_whole_iff] using h
  rw [piecesAfter, step, first]
  cases hb : lead b with
  | whole c =>
    obtain ⟨hlt, rfl⟩ := lead_eq_whole_iff.mp hb
    simp only [UInt8.lt_iff_toNat_lt, UInt8.reduceToNat] at hlt
    have hchar : (Char.ofNat b.toNat).toNat = b.toNat := toNat_ofNat_of_valid (.inl (by omega))
    have := Reads.ascii (hchar ▸ hlt) hrest
    rwa [hchar, UInt8.ofNat_toNat] at this
  | start p => exact hpending p (isSound_of_lead hb) [b] (by simp) (hforeign (by simp [hb]))
  | malformed =>
    exact .foreign (List.cons_ne_nil b []) (hforeign (by simp [hb])) (by decide) hrest

/-- What is read after a pending character, whose bytes so far are `held`. -/
lemma reads_piecesAfter (bytes : Bytes) :
    Reads bytes (textOf (piecesAfter none bytes)) ∧
      ∀ p : Pending, p.IsSound → ∀ held ≠ [], (∀ x ∈ held, 0x80 ≤ x) →
        Reads (held ++ bytes) (textOf (piecesAfter (some p) bytes)) := by
  induction bytes with
  | nil => exact ⟨.nil, fun p _ held hne hheld => .foreign hne hheld (by decide) .nil⟩
  | cons b rest ih =>
    have hfirst : Reads (b :: rest) (textOf (piecesAfter none (b :: rest))) :=
      reads_first ih.1 ih.2
    refine ⟨hfirst, fun p hp held hne hheld => ?_⟩
    rw [piecesAfter, step]
    split
    next hrange =>
      have hb : ∀ x ∈ held ++ [b], 0x80 ≤ x := by
        have := hp.low.trans (UInt8.le_iff_toNat_le.mp hrange.1)
        simpa [or_imp, forall_and, UInt8.le_iff_toNat_le] using ⟨hheld, this⟩
      rw [List.append_cons]
      cases hl : p.later with
      | zero =>
        simp only [List.singleton_append, textOf_some]
        exact .foreign (by simp) hb (hp.complete hl hrange.1 hrange.2) ih.1
      | succ later => exact ih.2 _ (hp.next hl hrange.1 hrange.2) _ (by simp) hb
    next => exact .foreign hne hheld (by decide) hfirst

/-- Lossy reading keeps every ASCII byte in its place, and reads nothing else as ASCII. -/
lemma reads_decodeLossy (bytes : Bytes) : Reads bytes (decodeLossy bytes) :=
  (reads_piecesAfter bytes).1

/-- A text that starts with ASCII is read from a byte string that starts with it. -/
lemma Reads.of_ascii_append {s : List Char} (hs : IsAscii s) {bytes : Bytes} {text : List Char}
    (h : Reads bytes (s ++ text)) : ∃ rest, bytes = encode s ++ rest ∧ Reads rest text := by
  induction s generalizing bytes with
  | nil => exact ⟨bytes, rfl, h⟩
  | cons c s ih =>
    obtain ⟨hc, hs⟩ := List.forall_mem_cons.mp hs
    cases h with
    | ascii _ h =>
      obtain ⟨rest, rfl, hrest⟩ := ih hs h
      exact ⟨rest, by simp [utf8EncodeChar_ascii hc], hrest⟩
    | foreign _ _ hforeign => omega

/-- A byte string that starts with ASCII is read as a text that starts with it. -/
lemma Reads.of_encode_append {s : List Char} (hs : IsAscii s) {rest : Bytes} {text : List Char}
    (h : Reads (encode s ++ rest) text) : ∃ later, text = s ++ later ∧ Reads rest later := by
  induction s generalizing text with
  | nil => exact ⟨text, rfl, h⟩
  | cons c s ih =>
    obtain ⟨hc, hs⟩ := List.forall_mem_cons.mp hs
    rw [encode_cons, utf8EncodeChar_ascii hc, List.singleton_append, List.cons_append] at h
    generalize hbytes : UInt8.ofNat c.toNat :: (encode s ++ rest) = bytes at h
    cases h with
    | nil => cases hbytes
    | @ascii c' _ text hc' h =>
      obtain ⟨hcode, rfl⟩ := List.cons.inj hbytes
      have hsame : c = c' := by
        rw [← Char.ofNat_toNat c, ← toNat_ofNat_toNat hc, hcode, toNat_ofNat_toNat hc',
          Char.ofNat_toNat]
      obtain ⟨later, rfl, hlater⟩ := ih hs h
      exact ⟨later, by rw [hsame, List.cons_append], hlater⟩
    | @foreign piece _ _ _ hpiece hforeign _ h =>
      obtain ⟨x, piece, rfl⟩ := List.exists_cons_of_ne_nil hpiece
      have hx := hforeign x List.mem_cons_self
      rw [← (List.cons.inj hbytes).1, UInt8.le_iff_toNat_le, toNat_ofNat_toNat hc] at hx
      exact absurd hx (by simpa using hc)

/-- An ASCII character stands in a text exactly when its byte stands in the bytes. -/
lemma Reads.mem_iff {bytes : Bytes} {text : List Char} (h : Reads bytes text) {c : Char}
    (hc : c.toNat < 0x80) : UInt8.ofNat c.toNat ∈ bytes ↔ c ∈ text := by
  induction h with
  | nil => simp
  | @ascii d _ _ hd _ ih =>
    have hsame : UInt8.ofNat c.toNat = UInt8.ofNat d.toNat ↔ c = d := by
      rw [← UInt8.toNat_inj, toNat_ofNat_toNat hc, toNat_ofNat_toNat hd, Char.toNat_inj]
    rw [List.mem_cons, List.mem_cons, ih, hsame]
  | @foreign piece _ d _ _ hpiece hd _ ih =>
    have hnot : UInt8.ofNat c.toNat ∉ piece := fun hmem => by
      have := hpiece _ hmem
      rw [UInt8.le_iff_toNat_le, toNat_ofNat_toNat hc] at this
      exact absurd this (by simpa using hc)
    have hne : c ≠ d := fun heq => by
      rw [heq] at hc
      omega
    simp [hnot, hne, ih]

/-! ### Writing and reading back -/

lemma piecesAfter_start {b : UInt8} {p : Pending} (h : lead b = .start p) (rest : Bytes) :
    piecesAfter none (b :: rest) = piecesAfter (some p) rest := by
  simp [piecesAfter, step, first, h]

/-- A later byte but the last one adds six bits to a pending character. -/
lemma piecesAfter_next {bits later n : Nat} {low high b : UInt8} (hb : b.toNat = n + 0x80)
    (hlow : low ≤ b) (hhigh : b ≤ high) (rest : Bytes) :
    piecesAfter (some ⟨bits, later + 1, low, high⟩) (b :: rest) =
      piecesAfter (some ⟨bits * 64 + n, later, 0x80, 0xBF⟩) rest := by
  simp [piecesAfter, step, hb, hlow, hhigh]

lemma piecesAfter_last {bits n : Nat} {low high b : UInt8} (hb : b.toNat = n + 0x80)
    (hlow : low ≤ b) (hhigh : b ≤ high) (rest : Bytes) :
    piecesAfter (some ⟨bits, 0, low, high⟩) (b :: rest) =
      some (Char.ofNat (bits * 64 + n)) :: piecesAfter none rest := by
  simp [piecesAfter, step, hb, hlow, hhigh]

lemma lead_two {n : Nat} {b : UInt8} (hb : b.toNat = n + 0xC0) (hlow : 2 ≤ n) (hhigh : n < 0x20) :
    lead b = .start ⟨n, 0, 0x80, 0xBF⟩ := by
  simp only [lead, UInt8.lt_iff_toNat_lt, UInt8.reduceToNat, hb]
  rw [if_neg (by omega), if_neg (by omega), if_pos (by omega), Nat.add_sub_cancel]

lemma lead_three {n : Nat} {b : UInt8} (hb : b.toNat = n + 0xE0) (hhigh : n < 0x10) :
    lead b = .start ⟨n, 1, if n = 0 then 0xA0 else 0x80, if n = 0xD then 0x9F else 0xBF⟩ := by
  simp only [lead, UInt8.lt_iff_toNat_lt, UInt8.reduceToNat, ← UInt8.toNat_inj, hb]
  rw [if_neg (by omega), if_neg (by omega), if_neg (by omega), if_pos (by omega),
    Nat.add_sub_cancel]
  simp only [show n + 0xE0 = 0xE0 ↔ n = 0 by omega, show n + 0xE0 = 0xED ↔ n = 0xD by omega]

lemma lead_four {n : Nat} {b : UInt8} (hb : b.toNat = n + 0xF0) (hhigh : n < 5) :
    lead b = .start ⟨n, 2, if n = 0 then 0x90 else 0x80, if n = 4 then 0x8F else 0xBF⟩ := by
  simp only [lead, UInt8.lt_iff_toNat_lt, UInt8.reduceToNat, ← UInt8.toNat_inj, hb]
  rw [if_neg (by omega), if_neg (by omega), if_neg (by omega), if_neg (by omega),
    if_pos (by omega), Nat.add_sub_cancel]
  simp only [show n + 0xF0 = 0xF0 ↔ n = 0 by omega, show n + 0xF0 = 0xF4 ↔ n = 4 by omega]

/-- The bytes of a character are read as that character, whatever follows them. -/
lemma piecesAfter_utf8EncodeChar (c : Char) (rest : Bytes) :
    piecesAfter none (String.utf8EncodeChar c ++ rest) = some c :: piecesAfter none rest := by
  have hc : c.toNat.isValidChar := c.valid
  have hcode : c.val.toNat = c.toNat := rfl
  have hbyte (n : Nat) (h : n < 256) : (UInt8.ofNat n).toNat = n := toNat_ofNat_of_lt h
  simp only [Nat.isValidChar] at hc
  simp only [String.utf8EncodeChar, hcode]
  split_ifs with h₁ h₂ h₃ <;> simp only [List.cons_append, List.nil_append]
  · have hlt : UInt8.ofNat c.toNat < 0x80 := by
      simp only [UInt8.lt_iff_toNat_lt, hbyte c.toNat (by omega), UInt8.reduceToNat]
      omega
    simp only [piecesAfter, step, first, lead_eq_whole_iff.mpr ⟨hlt, rfl⟩, hbyte c.toNat (by omega),
      Char.ofNat_toNat, List.singleton_append]
  · rw [piecesAfter_start (lead_two (hbyte _ (by omega)) (by omega) (by omega)),
      piecesAfter_last (hbyte _ (by omega)),
      show c.toNat / 64 % 32 * 64 + c.toNat % 64 = c.toNat by omega, Char.ofNat_toNat]
    all_goals simp (disch := omega) only [UInt8.le_iff_toNat_le, hbyte, UInt8.reduceToNat]
    all_goals omega
  · rw [piecesAfter_start (lead_three (hbyte _ (by omega)) (by omega)),
      piecesAfter_next (hbyte _ (by omega)), piecesAfter_last (hbyte _ (by omega)),
      show (c.toNat / 4096 % 16 * 64 + c.toNat / 64 % 64) * 64 + c.toNat % 64 = c.toNat by omega,
      Char.ofNat_toNat]
    all_goals simp (disch := omega) only [UInt8.le_iff_toNat_le, apply_ite UInt8.toNat, hbyte,
      UInt8.reduceToNat]
    all_goals try split_ifs
    all_goals omega
  · rw [piecesAfter_start (lead_four (hbyte _ (by omega)) (by omega)),
      piecesAfter_next (hbyte _ (by omega)), piecesAfter_next (hbyte _ (by omega)),
      piecesAfter_last (hbyte _ (by omega)),
      show ((c.toNat / 262144 % 8 * 64 + c.toNat / 4096 % 64) * 64 + c.toNat / 64 % 64) * 64 +
        c.toNat % 64 = c.toNat by omega, Char.ofNat_toNat]
    all_goals simp (disch := omega) only [UInt8.le_iff_toNat_le, apply_ite UInt8.toNat, hbyte,
      UInt8.reduceToNat]
    all_goals try split_ifs
    all_goals omega

lemma pieces_encode (text : List Char) : pieces (encode text) = text.map some := by
  induction text with
  | nil => rfl
  | cons c text ih =>
    rw [pieces] at ih ⊢
    rw [encode_cons, piecesAfter_utf8EncodeChar, List.map_cons, ih]

/-- A text is read back from its bytes. -/
theorem decodeLossy_encode (text : List Char) : decodeLossy (encode text) = text := by
  rw [decodeLossy, pieces_encode, List.map_map]
  exact List.map_id text

/-- The bytes of a text are well-formed. -/
theorem decode?_encode (text : List Char) : decode? (encode text) = some text := by
  rw [decode?, pieces_encode]
  induction text with
  | nil => rfl
  | cons c text ih =>
    rw [List.map_cons, List.mapM_cons, ih]
    rfl

lemma encode_injective : Function.Injective encode :=
  Function.LeftInverse.injective decodeLossy_encode

lemma reads_encode (text : List Char) : Reads (encode text) text := by
  have := reads_decodeLossy (encode text)
  rwa [decodeLossy_encode] at this

lemma encode_ne_nil {text : List Char} (h : text ≠ []) : encode text ≠ [] :=
  fun hnil => h (encode_injective hnil)

end ConstPromotion.Utf8
