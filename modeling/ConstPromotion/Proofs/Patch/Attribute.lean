import ConstPromotion.Proofs.Patch.Insertion

/-!
# Where the attribute goes

The attribute is inserted where the bracket groups of a declarator were read to, and a group is read
only if it starts where the last one ended and holds nothing but ASCII and no bracket. A bracket
that comes next in any other way is a dimension too, and the attribute is put before it.

`HasPlainDimensions` says of a line that this does not happen, `patchLine?_attribute` that the
attribute stands behind all dimensions for these lines and for no others.
-/

namespace ConstPromotion

/-- What may stand between two dimensions. -/
def isGapByte (b : UInt8) : Bool := b == 0x20 || b == 0x09

/-- After spaces and tabs comes an opening bracket. -/
def BracketNext (rest : Bytes) : Prop := (rest.dropWhile isGapByte).head? = some 0x5B

instance (rest : Bytes) : Decidable (BracketNext rest) := inferInstanceAs (Decidable (_ = _))

/-- One more bracket group starts at once, and it holds nothing but ASCII and no bracket. -/
def StartsWithGroup (rest : Bytes) : Prop :=
  ∃ inner after, (∀ c ∈ inner, isInner c) ∧
    rest = Utf8.encode ('[' :: inner ++ [']']) ++ after

/-- Where a bracket comes next after a declarator and some of its groups, it opens one more group
there and then: nothing stands before it, and the group is closed and holds nothing but ASCII and no
bracket. -/
def HasPlainDimensions (line : Bytes) : Prop :=
  ∀ (p : DeclarationParts) (run : List Char) (rest : Bytes), p.WellFormed → IsGroups run →
    line = Utf8.encode (p.text ++ run) ++ rest → BracketNext rest → StartsWithGroup rest

/-! ### The next bracket -/

/-- A run of groups that is not the longest one has a group after it. -/
lemma IsLongestByteRun.startsWithGroup {run longest : List Char} {rest : Bytes}
    (h : IsLongestByteRun longest (Utf8.encode run ++ rest)) (hrun : IsGroups run)
    (hne : longest ≠ run) : StartsWithGroup rest := by
  have hle := h.longest run (List.prefix_append _ _) hrun
  obtain ⟨after, hafter⟩ := h.isPrefix
  have hlength := Utf8.length_encode hrun.isAscii
  have hlength' := Utf8.length_encode h.isGroups.isAscii
  obtain ⟨more, hmore⟩ := List.prefix_of_prefix_length_le (List.prefix_append _ rest) h.isPrefix
    (by omega)
  obtain ⟨text, rfl, -⟩ := (hmore ▸ Utf8.reads_encode longest).of_encode_append hrun.isAscii
  have hgroups := hrun.of_append h.isGroups
  cases text with
  | nil => exact absurd (List.append_nil run) hne
  | cons c text =>
    obtain ⟨inner, later, rfl, rfl, hinner, -⟩ := hgroups.of_cons
    refine ⟨inner, Utf8.encode later ++ after, hinner, ?_⟩
    rw [Utf8.encode_append, List.append_assoc] at hafter
    rw [← List.append_cancel_left hafter]
    simp

/-- No group comes after the longest run. -/
lemma IsLongestByteRun.not_startsWithGroup {run : List Char} {rest : Bytes}
    (h : IsLongestByteRun run (Utf8.encode run ++ rest)) : ¬ StartsWithGroup rest := by
  rintro ⟨inner, after, hinner, rfl⟩
  have hinner := fun c hc => isInner_iff.mp (hinner c hc)
  have hmore : IsGroups ('[' :: inner ++ [']']) := .cons hinner .nil
  have hle := h.longest (run ++ ('[' :: inner ++ [']'])) ⟨after, by simp⟩
    (h.isGroups.append hmore)
  simp at hle

/-- The bracket groups of a recognised line are read up to the end of the longest run after its first
one. -/
lemma exists_longest_of_matchBytes? {line : Bytes} {m : DeclarationMatch}
    (h : ArrayDeclaration.matchBytes? line = some m) {p : DeclarationParts} (hp : p.WellFormed)
    (hline : Utf8.encode p.text <+: line) :
    ∃ run after, IsLongestByteRun run (Utf8.encode run ++ after) ∧
      line = Utf8.encode (p.text ++ run) ++ after ∧
      m.declaratorEnd = (Utf8.encode (p.text ++ run)).length := by
  have hconst := (ArrayDeclaration.matchBytes?_eq_some_iff.mp h).1
  obtain ⟨run, hrun, hfound⟩ := ArrayDeclaration.matchBytes?_of_isPrefix hconst hp hline
  obtain rfl := Option.some.inj (h.symm.trans hfound)
  obtain ⟨rest, rfl⟩ := hline
  rw [List.drop_left] at hrun
  obtain ⟨after, rfl⟩ := hrun.isPrefix
  refine ⟨run, after, hrun, by simp, ?_⟩
  rw [Utf8.encode_append, List.length_append, Utf8.length_encode hp.isAscii_text,
    Utf8.length_encode hrun.isGroups.isAscii]
  rfl

/-- Lines with plain dimensions are those on which no bracket comes next where the bracket groups
were read to. -/
lemma hasPlainDimensions_iff {line : Bytes} {m : DeclarationMatch}
    (h : ArrayDeclaration.matchBytes? line = some m) :
    HasPlainDimensions line ↔ ¬ BracketNext (line.drop m.declaratorEnd) := by
  constructor
  · intro hplain hnext
    obtain ⟨-, p, hp, rest, hline, -⟩ := ArrayDeclaration.matchBytes?_eq_some_iff.mp h
    obtain ⟨run, after, hrun, hcut, hend⟩ :=
      exists_longest_of_matchBytes? h hp ⟨rest, hline.symm⟩
    rw [hend, hcut, List.drop_left] at hnext
    exact hrun.not_startsWithGroup (hplain p run after hp hrun.isGroups hcut hnext)
  · intro hnext p run rest hp hrun hline hbracket
    obtain ⟨longest, after, hlongest, hcut, hend⟩ :=
      exists_longest_of_matchBytes? h hp ⟨Utf8.encode run ++ rest, by simp [hline]⟩
    have hrest : Utf8.encode longest ++ after = Utf8.encode run ++ rest := by
      simpa using hcut.symm.trans hline
    refine (hrest ▸ hlongest).startsWithGroup hrun ?_
    rintro rfl
    obtain rfl := List.append_cancel_left hrest
    rw [hend, hcut, List.drop_left] at hnext
    exact hnext hbracket

/-- Groups written one right after the other are passed over, as far as they go. -/
lemma length_le_declaratorEnd {line : Bytes} {m : DeclarationMatch}
    (h : ArrayDeclaration.matchBytes? line = some m) {p : DeclarationParts} (hp : p.WellFormed)
    {run : List Char} (hrun : IsGroups run) (hline : Utf8.encode (p.text ++ run) <+: line) :
    (Utf8.encode (p.text ++ run)).length ≤ m.declaratorEnd := by
  obtain ⟨rest, rfl⟩ := hline
  obtain ⟨longest, after, hlongest, hcut, hend⟩ :=
    exists_longest_of_matchBytes? h hp ⟨Utf8.encode run ++ rest, by simp⟩
  have hrest : Utf8.encode run ++ rest = Utf8.encode longest ++ after := by simpa using hcut
  have hle := hlongest.longest run ⟨rest, hrest⟩ hrun
  rw [hend, Utf8.length_encode (Utf8.isAscii_append.mpr ⟨hp.isAscii_text, hrun.isAscii⟩),
    Utf8.length_encode (Utf8.isAscii_append.mpr ⟨hp.isAscii_text, hlongest.isGroups.isAscii⟩)]
  simpa using hle

/-! ### The attribute -/

/-- A line that gets the attribute holds it where the bracket groups were read to. -/
lemma patchLine?_of_annotates {o : PatchOptions} {line : Bytes} {m : DeclarationMatch}
    (h : ArrayDeclaration.matchBytes? line = some m) (ho : annotates o line) :
    patchLine? o line =
      some (line.take m.typeStart ++ bytesOf "const "
        ++ (line.take m.declaratorEnd).drop m.typeStart ++ bytesOf " " ++ tagBytes o
        ++ line.drop m.declaratorEnd, ⟨0, m.declaration, true⟩) := by
  rw [annotates_eq] at ho
  simp [patchLine?, h, ho, tagBytes]

/-- A declarator ends past every bracket group that is written right after the others. Exactly on
lines with plain dimensions no dimension is left to come there, which is where the attribute is
put. -/
theorem patchLine?_attribute (line : Bytes) (m : DeclarationMatch)
    (h : ArrayDeclaration.matchBytes? line = some m) :
    (∀ (p : DeclarationParts) (run : List Char), p.WellFormed → IsGroups run →
      Utf8.encode (p.text ++ run) <+: line →
      (Utf8.encode (p.text ++ run)).length ≤ m.declaratorEnd) ∧
    (HasPlainDimensions line ↔ ¬ BracketNext (line.drop m.declaratorEnd)) ∧
    ∀ o, annotates o line →
      patchLine? o line =
        some (line.take m.typeStart ++ bytesOf "const "
          ++ (line.take m.declaratorEnd).drop m.typeStart ++ bytesOf " " ++ tagBytes o
          ++ line.drop m.declaratorEnd, ⟨0, m.declaration, true⟩) :=
  ⟨fun _ _ hp hrun hline => length_le_declaratorEnd h hp hrun hline, hasPlainDimensions_iff h,
    fun _ ho => patchLine?_of_annotates h ho⟩

/-- On a line with two groups the attribute stands behind both. -/
theorem patchLine?_attribute_two_groups :
    let line := bytesOf "static short pairs[16][2] = \x7b\x7b0\x7d\x7d;"
    let m : DeclarationMatch := ⟨⟨"short", "pairs", some "16"⟩, 7, 25⟩
    let o : PatchOptions := { annotate := true }
    ArrayDeclaration.matchBytes? line = some m ∧ HasPlainDimensions line ∧ annotates o line ∧
      patchLine? o line =
        some (bytesOf "static const short pairs[16][2] " ++ tagBytes o
          ++ bytesOf " = \x7b\x7b0\x7d\x7d;", ⟨0, m.declaration, true⟩) := by
  intro line m o
  have hm : ArrayDeclaration.matchBytes? line = some m := by decide +kernel
  have ho : annotates o line := by decide +kernel
  obtain ⟨-, hplain, htag⟩ := patchLine?_attribute line m hm
  refine ⟨hm, hplain.mpr (by decide +kernel), ho, (htag o ho).trans ?_⟩
  decide +kernel

/-- Blanks before a dimension: it is not read, and the attribute is put between it and the one
before. -/
theorem attribute_between_dimensions :
    let line := bytesOf "static int t[4] [5];"
    let m : DeclarationMatch := ⟨⟨"int", "t", some "4"⟩, 7, 15⟩
    let o : PatchOptions := { annotate := true }
    ArrayDeclaration.matchBytes? line = some m ∧ BracketNext (line.drop m.declaratorEnd) ∧
      patchLine? o line =
        some (bytesOf "static const int t[4] " ++ tagBytes o ++ bytesOf " [5];",
          ⟨0, m.declaration, true⟩) := by
  decide +kernel

end ConstPromotion
