import ConstPromotion.Proofs.Patch.Idempotence

/-!
# How often the attribute stands in a line

Text that is inserted into a line could complete pieces that were begun before it. The attribute is
not among them: no proper end of it is also a start of it (`isUnbordered_tagBytes`), so a copy of it
overlaps no other one, and neither the space before it nor the word `const` belongs to an end of it.
So a promoted line holds the attribute as often as the line did, and once if it is asked for and the
line did not hold it (`occurrences_patchLine?`).

The name of the section may be anything without quotes and opening brackets.
-/

namespace ConstPromotion

variable {o : PatchOptions} {piece start rest line : Bytes} {b : UInt8} {m : DeclarationMatch}

/-! ### Occurrences -/

/-- At how many places of a byte string a piece starts. -/
def occurrences (piece bytes : Bytes) : Nat := bytes.tails.countP piece.isPrefixOf

lemma occurrences_cons (piece : Bytes) (b : UInt8) (rest : Bytes) :
    occurrences piece (b :: rest) =
      occurrences piece rest + if piece <+: b :: rest then 1 else 0 := by
  simp only [occurrences, List.tails_cons, List.countP_cons, List.isPrefixOf_iff_prefix]

/-- A piece occurs nowhere exactly if it is no part of the byte string. -/
lemma occurrences_eq_zero_iff : occurrences piece rest = 0 ↔ ¬ piece <:+: rest := by
  simp only [occurrences, List.countP_eq_zero, List.mem_tails, List.isPrefixOf_iff_prefix,
    List.infix_iff_prefix_suffix, not_exists, not_and]
  exact forall_congr' fun t => imp_not_comm

/-- Where a piece does not start does not count. -/
lemma occurrences_append (h : ∀ before more, start = before ++ more → more ≠ [] →
      ¬ piece <+: more ++ rest) :
    occurrences piece (start ++ rest) = occurrences piece rest := by
  induction start with
  | nil => rfl
  | cons b start ih =>
    have hfirst : ¬ piece <+: b :: (start ++ rest) := h [] (b :: start) rfl (List.cons_ne_nil _ _)
    rw [List.cons_append, occurrences_cons, if_neg hfirst, Nat.add_zero]
    exact ih fun before more hstart => h (b :: before) more (by rw [hstart, List.cons_append])

/-- Bytes other than the first one of a piece do not count. -/
lemma occurrences_append_of_notMem (hb : piece.head? = some b) (hstart : b ∉ start) :
    occurrences piece (start ++ rest) = occurrences piece rest := by
  refine occurrences_append fun before more hmore hne hprefix => ?_
  obtain ⟨c, more, rfl⟩ := List.exists_cons_of_ne_nil hne
  obtain ⟨piece, rfl⟩ := List.head?_eq_some_iff.mp hb
  obtain ⟨rfl, -⟩ := List.cons_prefix_cons.mp hprefix
  exact hstart (by simp [hmore])

/-! ### Pieces that do not overlap themselves -/

/-- No end of a piece is a start of it, but for the whole and nothing. -/
def IsUnbordered (piece : Bytes) : Prop :=
  ∀ border ≠ [], border <:+ piece → border <+: piece → border = piece

namespace IsUnbordered

/-- Where an end of the piece is a start of something that starts with the piece, or the other way
round, the end is the whole piece. -/
lemma eq_nil_of_overlap (h : IsUnbordered piece) {before more later : Bytes}
    (hpiece : before ++ more = piece) (hmore : more ≠ []) (hoverlap : more ++ later = piece ++ rest) :
    before = [] := by
  have hprefix : more <+: piece := by
    refine List.prefix_of_prefix_length_le ⟨later, hoverlap⟩ (List.prefix_append _ _) ?_
    rw [← hpiece, List.length_append]
    exact Nat.le_add_left _ _
  have hwhole := h more hmore ⟨before, hpiece⟩ hprefix
  exact List.append_left_eq_self.mp (hpiece.trans hwhole.symm)

/-- A piece is counted once at its place, and then what comes after it. -/
lemma occurrences_self_append (h : IsUnbordered piece) (hne : piece ≠ []) :
    occurrences piece (piece ++ rest) = occurrences piece rest + 1 := by
  obtain ⟨c, tail, hpiece⟩ := List.exists_cons_of_ne_nil hne
  have hself : piece <+: c :: (tail ++ rest) := ⟨rest, by rw [hpiece, List.cons_append]⟩
  have htail : occurrences piece (tail ++ rest) = occurrences piece rest := by
    refine occurrences_append fun before more hmore hmoreNil hprefix => ?_
    obtain ⟨later, hlater⟩ := hprefix
    have hcut : (c :: before) ++ more = piece := by rw [hpiece, hmore, List.cons_append]
    exact List.cons_ne_nil _ _ (h.eq_nil_of_overlap hcut hmoreNil hlater.symm)
  calc occurrences piece (piece ++ rest)
      = occurrences piece (c :: (tail ++ rest)) := by rw [← List.cons_append, ← hpiece]
    _ = occurrences piece rest + 1 := by rw [occurrences_cons, if_pos hself, htail]

/-- A piece that is inserted after a byte that it neither starts nor ends with is the only one, if
there was none. -/
lemma occurrences_insert (h : IsUnbordered piece) (hne : piece ≠ []) (hfirst : piece.head? ≠ some b)
    (hlast : piece.getLast? ≠ some b) (hstart : ¬ piece <:+: start) (hrest : ¬ piece <:+: rest) :
    occurrences piece (start ++ b :: (piece ++ rest)) = 1 := by
  have hbefore : occurrences piece (start ++ b :: (piece ++ rest)) =
      occurrences piece (b :: (piece ++ rest)) := by
    refine occurrences_append fun before more hmore _ hprefix => ?_
    obtain ⟨later, hlater⟩ := hprefix
    rcases List.append_eq_append_iff.mp hlater with ⟨end', hmore', -⟩ | ⟨end', hpiece, hend⟩
    · -- the piece would lie before the insertion
      exact hstart ⟨before, end', by rw [hmore, hmore', List.append_assoc]⟩
    · cases end' with
      | nil => exact hstart ⟨before, [], by rw [hmore, hpiece, List.append_nil, List.append_nil]⟩
      | cons c end' =>
        -- an end of it would start the inserted one
        rw [List.cons_append, List.cons.injEq] at hend
        obtain ⟨rfl, hend⟩ := hend
        have hpiece' : (more ++ [b]) ++ end' = piece := by simp [hpiece]
        by_cases hnil : end' = []
        · exact hlast (by rw [← hpiece', hnil, List.append_nil, List.getLast?_concat])
        · exact List.concat_ne_nil b more (h.eq_nil_of_overlap hpiece' hnil hend.symm)
  have hspace : ¬ piece <+: b :: (piece ++ rest) := by
    intro hprefix
    obtain ⟨c, tail, hpiece⟩ := List.exists_cons_of_ne_nil hne
    rw [hpiece] at hprefix hfirst
    obtain ⟨rfl, -⟩ := List.cons_prefix_cons.mp hprefix
    exact hfirst rfl
  rw [hbefore, occurrences_cons, if_neg hspace, h.occurrences_self_append hne,
    occurrences_eq_zero_iff.mpr hrest]

end IsUnbordered

/-! ### The attribute -/

/-- The attribute up to the quotes around the name of its section. -/
def tagHead : Bytes := bytesOf "__attribute__((section("

/-- A byte string is cut at its first quote in one way only. -/
lemma eq_of_append_quote {s t x y : Bytes} (hs : 0x22 ∉ s) (ht : 0x22 ∉ t)
    (h : s ++ 0x22 :: x = t ++ 0x22 :: y) : s = t := by
  have hhead {s x : Bytes} (hs : 0x22 ∉ s) : (s ++ 0x22 :: x).takeWhile (· ≠ 0x22) = s := by
    refine (takeWhile_dropWhile_of_append (fun c hc => ?_) (by simp)).1
    simpa using fun heq : c = 0x22 => hs (heq ▸ hc)
  rw [← hhead hs, h, hhead ht]

lemma exists_tagBytes_quotes (hquote : '"' ∉ o.sectionName.toList)
    (hbracket : '(' ∉ o.sectionName.toList) : ∃ name : Bytes, 0x22 ∉ name ∧ 0x28 ∉ name ∧
      tagBytes o = tagHead ++ 0x22 :: (name ++ 0x22 :: [0x29, 0x29, 0x29]) := by
  have hmem {c : Char} (hc : c.toNat < 0x80) (hname : c ∉ o.sectionName.toList) :
      UInt8.ofNat c.toNat ∉ bytesOf o.sectionName :=
    mt ((Utf8.reads_encode o.sectionName.toList).mem_iff hc).mp hname
  have hopen : bytesOf "__attribute__((section(\"" = tagHead ++ [0x22] := by decide
  have hclose : bytesOf "\")))" = [0x22, 0x29, 0x29, 0x29] := by decide
  refine ⟨bytesOf o.sectionName, hmem (c := '"') (by decide) hquote,
    hmem (c := '(') (by decide) hbracket, ?_⟩
  rw [tagBytes_eq, hopen, hclose]
  simp

/-- The attribute overlaps no other copy of itself. -/
theorem isUnbordered_tagBytes (hquote : '"' ∉ o.sectionName.toList)
    (hbracket : '(' ∉ o.sectionName.toList) : IsUnbordered (tagBytes o) := by
  obtain ⟨name, hname, hnameBracket, htag⟩ := exists_tagBytes_quotes hquote hbracket
  have hheadQuote : (0x22 : UInt8) ∉ tagHead := by decide
  have hheadBracket : (0x28 : UInt8) ∈ tagHead := by decide
  have hheadNil : tagHead ≠ [] := by decide
  have hunderscore : tagHead = 0x5F :: bytesOf "_attribute__((section(" := by decide
  rintro border hne ⟨before, hbefore⟩ ⟨later, hlater⟩
  -- a start of the attribute that holds a quote has its first one after the head
  have hfirst {s x : Bytes} (hs : 0x22 ∉ s) (hborder : border = s ++ 0x22 :: x) : s = tagHead := by
    rw [hborder, List.append_assoc, List.cons_append, htag] at hlater
    exact eq_of_append_quote hs hheadQuote hlater
  rw [htag] at hbefore ⊢
  rcases List.append_eq_append_iff.mp hbefore with ⟨s, hhead, hborder⟩ | ⟨s, rfl, hborder⟩
  · -- the border starts in the head
    have hs : 0x22 ∉ s := fun hmem => hheadQuote (hhead ▸ List.mem_append_right before hmem)
    rw [hborder, hfirst hs hborder]
  · rcases List.cons_eq_append_iff.mp hborder with ⟨-, hborder⟩ | ⟨s, -, hborder⟩
    · exact absurd (hfirst (s := []) (by simp) hborder).symm hheadNil
    rcases List.append_eq_append_iff.mp hborder with ⟨t, -, hborder⟩ | ⟨t, hcut, hborder⟩
    · -- the border starts after the name, and holds nothing that the attribute starts with
      rcases List.cons_eq_append_iff.mp hborder with ⟨-, hborder⟩ | ⟨t, -, hborder⟩
      · exact absurd (hfirst (s := []) (by simp) hborder).symm hheadNil
      obtain ⟨c, border, rfl⟩ := List.exists_cons_of_ne_nil hne
      have hclosing : c ∈ [0x29, 0x29, 0x29] := by simp [hborder]
      rw [htag, hunderscore, List.cons_append, List.cons_append, List.cons.injEq] at hlater
      rw [hlater.1] at hclosing
      simp at hclosing
    · -- the border starts in the name, which would hold the head
      have ht : 0x22 ∉ t := fun hmem => hname (hcut ▸ List.mem_append_right _ hmem)
      rw [hcut, hfirst ht hborder] at hnameBracket
      exact absurd (List.mem_append_right _ hheadBracket) hnameBracket

/-! ### Promoted lines -/

/-- The text of a declaration before its type holds no underscore. -/
lemma underscore_notMem_take_typeStart (h : ArrayDeclaration.matchBytes? line = some m) :
    0x5F ∉ line.take m.typeStart := by
  obtain ⟨-, p, hp, rest, rfl, run, -, rfl⟩ := ArrayDeclaration.matchBytes?_eq_some_iff.mp h
  have hlead : '_' ∉ p.lead := by
    rw [DeclarationParts.lead_eq, List.mem_append, not_or]
    exact ⟨by decide, fun hmem => absurd (hp.gap₁.isGap '_' hmem) (by decide)⟩
  rw [take_typeStart_found hp]
  exact mt ((Utf8.reads_encode p.lead).mem_iff (c := '_') (by decide)).mp hlead

lemma head?_tagBytes (o : PatchOptions) : (tagBytes o).head? = some 0x5F := by
  have hstart : bytesOf "__attribute__((section(\"" =
      0x5F :: bytesOf "_attribute__((section(\"" := by decide
  rw [tagBytes_eq, hstart]
  rfl

lemma getLast?_tagBytes (o : PatchOptions) : (tagBytes o).getLast? = some 0x29 := by
  obtain ⟨start, hstart⟩ := exists_tagBytes o
  rw [hstart, List.getLast?_concat]

/-- What stands before the type of a declaration does not count. -/
lemma occurrences_of_match (o : PatchOptions) (hm : ArrayDeclaration.matchBytes? line = some m) :
    occurrences (tagBytes o) line = occurrences (tagBytes o)
      ((line.take m.declaratorEnd).drop m.typeStart ++ line.drop m.declaratorEnd) := by
  have hparts := parts_append hm
  conv_lhs => rw [← hparts]
  exact occurrences_append_of_notMem (head?_tagBytes o) (underscore_notMem_take_typeStart hm)

/-- The word that is inserted before the type does not count either. -/
lemma occurrences_promotedBody (o : PatchOptions)
    (hm : ArrayDeclaration.matchBytes? line = some m) :
    occurrences (tagBytes o) (promotedBody o line) = occurrences (tagBytes o)
      ((line.take m.declaratorEnd).drop m.typeStart
        ++ ((if annotates o line then bytesOf " " ++ tagBytes o else [])
          ++ line.drop m.declaratorEnd)) := by
  have hfirst := head?_tagBytes o
  have hconst : (0x5F : UInt8) ∉ bytesOf "const " := by decide
  simp only [promotedBody, hm, List.append_assoc]
  rw [occurrences_append_of_notMem hfirst (underscore_notMem_take_typeStart hm),
    occurrences_append_of_notMem hfirst hconst]

/-- An attribute that is inserted into a line without one is the only one. -/
lemma occurrences_promotedBody_of_annotates (hm : ArrayDeclaration.matchBytes? line = some m)
    (hquote : '"' ∉ o.sectionName.toList) (hbracket : '(' ∉ o.sectionName.toList)
    (hannotates : annotates o line = true) (hmissing : ¬ tagBytes o <:+: line) :
    occurrences (tagBytes o) (promotedBody o line) = 1 := by
  have hpart {part : Bytes} (h : part <:+: line) : ¬ tagBytes o <:+: part := by
    intro htag
    exact hmissing (htag.trans h)
  have hstart : ¬ tagBytes o <:+: (line.take m.declaratorEnd).drop m.typeStart :=
    hpart ((List.drop_suffix _ _).isInfix.trans (List.take_prefix _ _).isInfix)
  have hrest : ¬ tagBytes o <:+: line.drop m.declaratorEnd :=
    hpart (List.drop_suffix _ _).isInfix
  have hfirst := head?_tagBytes o
  have hspace : bytesOf " " = [0x20] := by decide
  rw [occurrences_promotedBody o hm, hannotates, if_pos rfl, hspace, List.append_assoc,
    List.singleton_append]
  apply (isUnbordered_tagBytes hquote hbracket).occurrences_insert
  · exact List.ne_nil_of_mem (List.mem_of_mem_head? hfirst)
  · simp [hfirst]
  · simp [getLast?_tagBytes]
  · exact hstart
  · exact hrest

/-- A line that is recognised is promoted, and then holds the attribute as often as before; if the
attribute is asked for, at least once. -/
theorem occurrences_patchLine? (o : PatchOptions) (line : Bytes)
    (hmatch : (ArrayDeclaration.matchBytes? line).isSome) (hquote : '"' ∉ o.sectionName.toList)
    (hbracket : '(' ∉ o.sectionName.toList) :
    ∃ promoted d, patchLine? o line = some (promoted, d) ∧
      occurrences (tagBytes o) promoted =
        if o.annotate then max 1 (occurrences (tagBytes o) line)
        else occurrences (tagBytes o) line := by
  obtain ⟨m, hm⟩ := Option.isSome_iff_exists.mp hmatch
  refine ⟨promotedBody o line, _, by rw [patchLine?_eq, hm, Option.map_some], ?_⟩
  cases hannotates : annotates o line with
  | false =>
    rw [occurrences_promotedBody o hm, hannotates, if_neg Bool.false_ne_true, List.nil_append,
      ← occurrences_of_match o hm]
    split_ifs with ho
    · -- the attribute is asked for, so it is there
      have hthere : tagBytes o <:+: line := by simpa [annotates, ho] using hannotates
      have hpos := mt occurrences_eq_zero_iff.mp (not_not_intro hthere)
      exact (Nat.max_eq_right (Nat.one_le_iff_ne_zero.mpr hpos)).symm
    · rfl
  | true =>
    obtain ⟨ho, hmissing⟩ : o.annotate = true ∧ ¬ tagBytes o <:+: line := by
      simpa [annotates] using hannotates
    rw [occurrences_promotedBody_of_annotates hm hquote hbracket hannotates hmissing, if_pos ho,
      occurrences_eq_zero_iff.mpr hmissing]
    rfl

namespace Straddling

/-- A section whose attribute could be completed by what is inserted into a line. -/
def options : PatchOptions := { annotate := true, sectionName := "a] const" }

/-- A declaration with the start of that attribute. -/
def begun : Bytes := bytesOf "static int t[4][__attribute__((section(\"a];"

/-- The attribute is inserted after its own start, and there is one of it. -/
theorem occurrences_patchLine?_begun :
    (ArrayDeclaration.matchBytes? begun).isSome ∧ '"' ∉ options.sectionName.toList ∧
      '(' ∉ options.sectionName.toList ∧
      ∃ promoted d, patchLine? options begun = some (promoted, d) ∧
        occurrences (tagBytes options) promoted = 1 := by
  have hmatch : (ArrayDeclaration.matchBytes? begun).isSome := by decide +kernel
  have hquote : '"' ∉ options.sectionName.toList := by decide
  have hbracket : '(' ∉ options.sectionName.toList := by decide
  obtain ⟨promoted, d, hpatch, hcount⟩ := occurrences_patchLine? options begun hmatch hquote hbracket
  refine ⟨hmatch, hquote, hbracket, promoted, d, hpatch, ?_⟩
  rw [hcount]
  decide +kernel

end Straddling

end ConstPromotion
