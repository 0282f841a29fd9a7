import ConstPromotion.Proofs.Patch.Insertion

/-!
# A second pass changes nothing

Promotion keeps the cut of a content into lines (`IsCut.map_promoteLine`), and no line is recognised
after it (`matchBytes?_promotedBody`): a promoted one holds the word `const`, and any other one was
not recognised before. So a second pass finds nothing, whatever its options.
-/

namespace ConstPromotion

/-! ### Promoted lines -/

/-- The body that promotion makes of the body of a line. -/
def promotedBody (o : PatchOptions) (body : Bytes) : Bytes :=
  match ArrayDeclaration.matchBytes? body with
  | none => body
  | some m =>
    body.take m.typeStart ++ bytesOf "const " ++ (body.take m.declaratorEnd).drop m.typeStart
      ++ (if annotates o body then bytesOf " " ++ tagBytes o else []) ++ body.drop m.declaratorEnd

/-- A line is promoted to its promoted form exactly if it is recognised. -/
lemma patchLine?_eq (o : PatchOptions) (line : Bytes) :
    patchLine? o line = (ArrayDeclaration.matchBytes? line).map fun m =>
      (promotedBody o line, ⟨0, m.declaration, annotates o line⟩) := by
  rw [patchLine?, promotedBody, annotates_eq]
  cases ArrayDeclaration.matchBytes? line <;> rfl

/-- The line that promotion makes of a line. -/
def promoteLine (o : PatchOptions) (l : ContentLine) : ContentLine :=
  ⟨promotedBody o l.body, l.ending⟩

lemma flatMap_after_lineEdits (o : PatchOptions) (l : ContentLine) :
    (lineEdits o l).flatMap Edit.after = (promoteLine o l).raw := by
  rw [lineEdits, promoteLine, promotedBody, ContentLine.raw]
  cases ArrayDeclaration.matchBytes? l.body with
  | none => simp [Edit.after, ContentLine.raw]
  | some m => cases annotates o l.body <;> simp [Edit.after, ContentLine.raw]

lemma content_patchBytes (o : PatchOptions) (content : Bytes) :
    (patchBytes o content).content =
      ((cutLines content).map (promoteLine o)).flatMap ContentLine.raw := by
  rw [patchBytes_eq, List.flatMap_assoc, List.flatMap_map]
  simp only [flatMap_after_lineEdits]

/-- A content without a line to recognise is left as it is. -/
lemma patchBytes_of_forall_eq_none {content : Bytes}
    (h : ∀ l ∈ cutLines content, ArrayDeclaration.matchBytes? l.body = none) (o : PatchOptions) :
    patchBytes o content = ⟨content, []⟩ := by
  have hcontent := flatMap_raw_cutLines content
  rw [patchBytes_eq]
  generalize cutLines content = lines at *
  generalize 1 = number
  subst hcontent
  induction lines generalizing number with
  | nil => rfl
  | cons l lines ih =>
    obtain ⟨hl, hlines⟩ := List.forall_mem_cons.mp h
    have hrest := ih hlines (number + 1)
    simp only [PatchedContent.mk.injEq] at hrest ⊢
    simp [lineEdits, lineDeclaration?, hl, hrest, Edit.after]

/-! ### No line is recognised twice -/

/-- A declaration is cut at its type where its lead ends. -/
lemma take_typeStart_found {p : DeclarationParts} (hp : p.WellFormed) (rest : Bytes) (run : Nat) :
    (Utf8.encode p.text ++ rest).take (p.found run).typeStart = Utf8.encode p.lead := by
  rw [DeclarationParts.found, ← Utf8.length_encode hp.isAscii_lead, DeclarationParts.text]
  simp only [Utf8.encode_append, List.append_assoc, List.take_left]

/-- What stands before the type of a declaration ends in a byte that is no part of a word. -/
lemma exists_take_typeStart {body : Bytes} {m : DeclarationMatch}
    (h : ArrayDeclaration.matchBytes? body = some m) :
    ∃ start b, body.take m.typeStart = start ++ [b] ∧ isWordByte b = false := by
  obtain ⟨-, p, hp, rest, rfl, run, -, rfl⟩ := ArrayDeclaration.matchBytes?_eq_some_iff.mp h
  obtain ⟨gap, g, hgap⟩ := (List.eq_nil_or_concat' p.gap₁).resolve_left hp.gap₁.ne_nil
  have hg := hp.gap₁.isGap g (by simp [hgap])
  have hlead := hp.isAscii_lead
  have hgAscii : g.toNat < 0x80 := hlead g (by simp [DeclarationParts.lead_eq, hgap])
  refine ⟨Utf8.encode ("static".toList ++ gap), UInt8.ofNat g.toNat, ?_, ?_⟩
  · rw [take_typeStart_found hp]
    simp [DeclarationParts.lead_eq, hgap, Utf8.utf8EncodeChar_ascii hgAscii]
  · rw [isWordByte_ofNat_toNat hgAscii]
    by_contra hword
    exact not_isGap_of_isWordChar (by simpa using hword) hg

/-- A line that holds `const` between bytes that are no part of words mentions it. -/
lemma mem_byteWords_const {start rest : Bytes} {b : UInt8} (hb : isWordByte b = false) :
    bytesOf "const" ∈ byteWords (start ++ [b] ++ bytesOf "const " ++ rest) := by
  have hconst : ∀ x ∈ bytesOf "const", (!isWordByte x) = false := by
    have hall : (bytesOf "const").all isWordByte := by decide
    simpa using hall
  have hsplit : start ++ [b] ++ bytesOf "const " ++ rest =
      start ++ b :: (bytesOf "const" ++ 0x20 :: rest) := by
    rw [show bytesOf "const " = bytesOf "const" ++ [0x20] by decide]
    simp
  rw [hsplit, byteWords, List.splitOnP_append_cons _ _ (by simp [hb]),
    List.splitOnP_append_cons_of_forall_mem hconst _ (by decide)]
  simp

/-- No line is recognised after promotion. -/
lemma matchBytes?_promotedBody (o : PatchOptions) (body : Bytes) :
    ArrayDeclaration.matchBytes? (promotedBody o body) = none := by
  rw [promotedBody]
  split
  next h => exact h
  next m h =>
    obtain ⟨start, b, hstart, hb⟩ := exists_take_typeStart h
    rw [Option.eq_none_iff_forall_ne_some]
    intro m' hm'
    refine (ArrayDeclaration.matchBytes?_eq_some_iff.mp hm').1 ?_
    rw [hstart]
    simp only [List.append_assoc (start ++ [b] ++ bytesOf "const ")]
    exact mem_byteWords_const hb

/-! ### The cut stays -/

lemma bytesOf_append (s t : String) : bytesOf (s ++ t) = bytesOf s ++ bytesOf t := by
  rw [bytesOf, String.toList_append, Utf8.encode_append]
  rfl

lemma tagBytes_eq (o : PatchOptions) :
    tagBytes o = bytesOf "__attribute__((section(\"" ++ bytesOf o.sectionName ++ bytesOf "\")))" :=
  (bytesOf_append _ _).trans
    (congrArg (· ++ bytesOf "\")))") (bytesOf_append _ o.sectionName))

lemma feed_notMem_tagBytes {o : PatchOptions} (h : '\n' ∉ o.sectionName.toList) :
    0x0A ∉ tagBytes o := by
  have hfeed : ('\n' : Char).toNat < 0x80 := by decide
  have hmem := (Utf8.reads_encode o.sectionName.toList).mem_iff hfeed
  rw [show UInt8.ofNat ('\n' : Char).toNat = 0x0A by decide] at hmem
  rw [tagBytes_eq]
  simp only [List.mem_append, not_or]
  exact ⟨⟨by decide, mt hmem.mp h⟩, by decide⟩

lemma exists_tagBytes (o : PatchOptions) : ∃ start, tagBytes o = start ++ [0x29] := by
  have hclose : bytesOf "\")))" = bytesOf "\"))" ++ [0x29] := by decide
  rw [tagBytes_eq, hclose, ← List.append_assoc]
  exact ⟨_, rfl⟩

/-- The attribute brings no line feed into a line. -/
lemma feed_notMem_promotedBody {o : PatchOptions}
    (ho : o.annotate = false ∨ '\n' ∉ o.sectionName.toList) {body : Bytes} (h : 0x0A ∉ body) :
    0x0A ∉ promotedBody o body := by
  have hconst : (0x0A : UInt8) ∉ bytesOf "const " := by decide
  have htag : 0x0A ∉ (if annotates o body then bytesOf " " ++ tagBytes o else []) := by
    rcases ho with ho | ho
    · simp [annotates, ho]
    · have hspace : (0x0A : UInt8) ∉ bytesOf " " := by decide
      split_ifs <;> simp [hspace, feed_notMem_tagBytes ho]
  rw [promotedBody]
  split
  next => exact h
  next m _ =>
    simp only [List.mem_append, not_or]
    exact ⟨⟨⟨⟨mt List.mem_of_mem_take h, hconst⟩,
      fun hmem => h (List.mem_of_mem_take (List.mem_of_mem_drop hmem))⟩, htag⟩,
      mt List.mem_of_mem_drop h⟩

/-- Promotion puts no carriage return at the end of a line. -/
lemma getLast?_promotedBody {o : PatchOptions} {body : Bytes} (h : body.getLast? ≠ some 0x0D) :
    (promotedBody o body).getLast? ≠ some 0x0D := by
  rw [promotedBody]
  split
  next => exact h
  next m hm =>
    obtain ⟨-, hlt, hle, -⟩ := ArrayDeclaration.matchBytes?_bounds hm
    have hne : (body.take m.declaratorEnd).drop m.typeStart ≠ [] := by
      simp [List.drop_eq_nil_iff]
      omega
    rw [← parts_append hm, ← List.append_assoc] at h
    generalize (body.take m.declaratorEnd).drop m.typeStart = declarator at *
    -- the last byte is one of the rest, of the attribute or of the declarator
    cases hrest : (body.drop m.declaratorEnd).getLast? with
    | some b => simpa [List.getLast?_append, hrest] using h
    | none =>
      obtain ⟨tag, htag⟩ := exists_tagBytes o
      rw [List.getLast?_append, hrest, Option.none_or] at h ⊢
      cases annotates o body with
      | false => simpa [List.getLast?_append, List.getLast?_eq_some_getLast hne] using h
      | true => simp [htag, List.getLast?_append]

lemma promotedBody_ne_nil (o : PatchOptions) {body : Bytes} (h : body ≠ []) :
    promotedBody o body ≠ [] := by
  rw [promotedBody]
  split
  next => exact h
  next => simp [show bytesOf "const " ≠ [] by decide]

/-- Promotion keeps the cut into lines. -/
lemma IsCut.map_promoteLine {o : PatchOptions}
    (ho : o.annotate = false ∨ '\n' ∉ o.sectionName.toList) {content : Bytes}
    {lines : List ContentLine} (h : IsCut content lines) :
    IsCut ((lines.map (promoteLine o)).flatMap ContentLine.raw) (lines.map (promoteLine o)) := by
  induction h with
  | nil => exact .nil
  | last hfeed hne =>
    simp only [List.map_cons, List.map_nil, List.flatMap_cons, List.flatMap_nil, promoteLine,
      ContentLine.raw, List.append_nil]
    exact .last (feed_notMem_promotedBody ho hfeed) (promotedBody_ne_nil o hne)
  | cons hended _ ih =>
    obtain ⟨hfeed, hend⟩ := hended
    rw [List.map_cons, List.flatMap_cons]
    have hend' := hend.imp id (And.imp_right (getLast?_promotedBody (o := o)))
    exact .cons ⟨feed_notMem_promotedBody ho hfeed, hend'⟩ ih

/-- The lines of a promoted content are the promoted lines. -/
lemma cutLines_content_patchBytes {o : PatchOptions}
    (ho : o.annotate = false ∨ '\n' ∉ o.sectionName.toList) (content : Bytes) :
    cutLines (patchBytes o content).content = (cutLines content).map (promoteLine o) := by
  have hcut : IsCut content (cutLines content) := isCut_iff.mpr rfl
  rw [content_patchBytes]
  exact (hcut.map_promoteLine ho).eq_cutLines.symm

/-- A second pass changes nothing and reports nothing, whatever it is asked to insert, unless the
first one split a line by a line feed in the name of its section. -/
theorem patchBytes_patchBytes (o₁ o₂ : PatchOptions) (content : Bytes)
    (h : o₁.annotate = false ∨ '\n' ∉ o₁.sectionName.toList) :
    patchBytes o₂ (patchBytes o₁ content).content = ⟨(patchBytes o₁ content).content, []⟩ := by
  have hcut := (isCut_iff.mpr (rfl : cutLines content = _)).map_promoteLine h
  rw [← content_patchBytes] at hcut
  refine patchBytes_of_forall_eq_none (fun l hl => ?_) o₂
  rw [← hcut.eq_cutLines] at hl
  obtain ⟨l, -, rfl⟩ := List.mem_map.mp hl
  exact matchBytes?_promotedBody o₁ l.body

/-- Switching the attribute on after a pass without it changes nothing. -/
theorem patchBytes_patchBytes_annotate :
    let content := bytesOf "static int a[4];\r\nstatic int b[2]"
    (patchBytes {} content).content = bytesOf "static const int a[4];\r\nstatic const int b[2]" ∧
      patchBytes { annotate := true } (patchBytes {} content).content =
        ⟨(patchBytes {} content).content, []⟩ :=
  ⟨by decide +kernel, patchBytes_patchBytes {} { annotate := true } _ (.inl rfl)⟩

end ConstPromotion
