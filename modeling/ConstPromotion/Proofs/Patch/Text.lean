import ConstPromotion.Proofs.Patch.Idempotence
import ConstPromotion.Proofs.Text.Encoded

/-!
# Promotion of text

A text is promoted as its bytes are, and the bytes that come of it are read as text. For that to lose
nothing they have to be text again: a content is cut into lines beside ASCII bytes, a declaration is
ASCII up to the end of its declarator, and the name of a section is text
(`isEncoded_promotedBody`). So promotion of texts and promotion of bytes are one
(`patchText_eq_patchBytes`).
-/

namespace ConstPromotion

open Utf8

variable {o : PatchOptions} {body content : Bytes} {lines : List ContentLine} {l : ContentLine}

lemma isEncoded_bytesOf (s : String) : IsEncoded (bytesOf s) := isEncoded_encode _

/-- Text that is read from its bytes has these bytes. -/
lemma bytesOf_lossyString (h : IsEncoded content) : bytesOf (lossyString content) = content := by
  rw [bytesOf, lossyString, String.toList_ofList, h.encode_decodeLossy]

/-! ### Lines -/

/-- Promotion of a line leaves text if it is given text. -/
lemma isEncoded_promotedBody (o : PatchOptions) (h : IsEncoded body) :
    IsEncoded (promotedBody o body) := by
  rw [promotedBody]
  split
  next => exact h
  next m hm =>
    obtain ⟨-, hlt, -, hascii⟩ := ArrayDeclaration.matchBytes?_bounds hm
    have hlead : IsEncoded (body.take m.typeStart) := by
      refine isEncoded_of_forall_lt fun b hb => hascii b ?_
      exact List.mem_of_mem_take (by rwa [List.take_take, Nat.min_eq_left hlt.le])
    have hdeclarator : IsEncoded ((body.take m.declaratorEnd).drop m.typeStart) :=
      isEncoded_of_forall_lt fun b hb => hascii b (List.mem_of_mem_drop hb)
    have htag : IsEncoded (if annotates o body then bytesOf " " ++ tagBytes o else []) := by
      split_ifs
      · exact (isEncoded_bytesOf " ").append (isEncoded_bytesOf _)
      · exact isEncoded_nil
    have hrest : IsEncoded (body.drop m.declaratorEnd) := by
      rw [← List.take_append_drop m.declaratorEnd body] at h
      exact h.of_append hascii
    exact (((hlead.append (isEncoded_bytesOf _)).append hdeclarator).append htag).append hrest

/-- The text of a line is text, and so is what ends it. -/
lemma IsCut.isEncoded (h : IsCut content lines) (hcontent : IsEncoded content) (hl : l ∈ lines) :
    IsEncoded l.body ∧ IsEncoded l.ending := by
  induction h with
  | nil => simp at hl
  | last =>
    obtain rfl := List.mem_singleton.mp hl
    exact ⟨hcontent, isEncoded_nil⟩
  | @cons first content lines hended _ ih =>
    have hend := hended.ending
    have hfeed : (0x0A : UInt8) < 0x80 := by decide
    have hreturn : (0x0D : UInt8) < 0x80 := by decide
    rcases List.mem_cons.mp hl with rfl | hl
    · rcases hend with hend | ⟨hend, -⟩ <;>
        rw [ContentLine.raw, hend, List.append_assoc] at hcontent <;> rw [hend]
      · exact ⟨((isEncoded_append_cons_iff hreturn).mp hcontent).1,
          isEncoded_of_forall_lt (by simp [hreturn, hfeed])⟩
      · exact ⟨((isEncoded_append_cons_iff hfeed).mp hcontent).1,
          isEncoded_of_forall_lt (by simp [hfeed])⟩
    · obtain ⟨start, -, hraw⟩ := hended.exists_raw_eq
      rw [hraw, List.append_assoc] at hcontent
      exact ih ((isEncoded_append_cons_iff hfeed).mp hcontent).2 hl

/-! ### Contents -/

lemma isEncoded_flatMap_raw (h : ∀ l ∈ lines, IsEncoded l.body ∧ IsEncoded l.ending) :
    IsEncoded (lines.flatMap ContentLine.raw) := by
  induction lines with
  | nil => exact isEncoded_nil
  | cons l lines ih =>
    obtain ⟨⟨hbody, hending⟩, hlines⟩ := List.forall_mem_cons.mp h
    rw [List.flatMap_cons]
    exact (hbody.append hending).append (ih hlines)

/-- Promotion leaves text if it is given text. -/
theorem isEncoded_content_patchBytes (o : PatchOptions) (h : IsEncoded content) :
    IsEncoded (patchBytes o content).content := by
  have hcut := isCut_iff.mpr (rfl : cutLines content = _)
  rw [content_patchBytes]
  refine isEncoded_flatMap_raw fun promoted hpromoted => ?_
  obtain ⟨l, hl, rfl⟩ := List.mem_map.mp hpromoted
  obtain ⟨hbody, hending⟩ := hcut.isEncoded h hl
  exact ⟨isEncoded_promotedBody o hbody, hending⟩

/-- A text and a line of text are promoted to the bytes that their own bytes are promoted to, and the
same declarations are reported, whatever text the name of the section is. -/
theorem patchText_eq_patchBytes (o : PatchOptions) :
    (∀ content, bytesOf (patchText o content).1 = (patchBytes o (bytesOf content)).content ∧
      (patchText o content).2 = (patchBytes o (bytesOf content)).declarations) ∧
    ∀ line, (patchTextLine? o line).map (fun promoted => (bytesOf promoted.1, promoted.2)) =
      patchLine? o (bytesOf line) := by
  refine ⟨fun content => ⟨?_, rfl⟩, fun line => ?_⟩
  · exact bytesOf_lossyString (isEncoded_content_patchBytes o (isEncoded_bytesOf content))
  · rw [patchTextLine?, patchLine?_eq]
    cases ArrayDeclaration.matchBytes? (bytesOf line) with
    | none => rfl
    | some m =>
      have hline := bytesOf_lossyString (isEncoded_promotedBody o (isEncoded_bytesOf line))
      simp only [Option.map_some, hline]

end ConstPromotion
