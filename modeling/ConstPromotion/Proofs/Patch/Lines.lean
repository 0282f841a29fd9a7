import ConstPromotion.Patch.Line
import ConstPromotion.Proofs.Declaration.Grammar

/-!
# Lines of a content

A content is cut after each line feed. `IsCut` says what that means, for all mixtures of line feeds
with and without a carriage return before them, and for a last line without an ending;
`isCut_iff` says that there is exactly one such cut, and that it is the one promotion works on.
-/

namespace ConstPromotion

/-! ### Cuts -/

/-- A line of a content: its body and what ends it. -/
structure ContentLine where
  body : Bytes
  ending : Bytes

/-- All bytes of a line. -/
def ContentLine.raw (l : ContentLine) : Bytes := l.body ++ l.ending

/-- A line that ends in its only line feed. A carriage return before that is part of the ending. -/
structure ContentLine.IsEnded (l : ContentLine) : Prop where
  noFeed : 0x0A ∉ l.body
  ending : l.ending = [0x0D, 0x0A] ∨ l.ending = [0x0A] ∧ l.body.getLast? ≠ some 0x0D

/-- The lines of a content. Only the last one may lack an ending, and then it is not empty. -/
inductive IsCut : Bytes → List ContentLine → Prop where
  | nil : IsCut [] []
  | last {body : Bytes} (noFeed : 0x0A ∉ body) (ne_nil : body ≠ []) : IsCut body [⟨body, []⟩]
  | cons {l : ContentLine} {content : Bytes} {lines : List ContentLine} (ended : l.IsEnded)
      (rest : IsCut content lines) : IsCut (l.raw ++ content) (l :: lines)

/-- A line by all of its bytes. -/
def ContentLine.ofRaw (raw : Bytes) : ContentLine := ⟨(splitEnding raw).1, (splitEnding raw).2⟩

/-- The lines that promotion works on. -/
def cutLines (content : Bytes) : List ContentLine := (splitLines content).map ContentLine.ofRaw

/-! ### Endings -/

lemma splitEnding_return (body : Bytes) :
    splitEnding (body ++ [0x0D, 0x0A]) = (body, [0x0D, 0x0A]) := by
  rw [splitEnding, List.isSuffixOf?_eq_some_iff_append_eq.mpr rfl]

lemma splitEnding_feed {body : Bytes} (h : body.getLast? ≠ some 0x0D) :
    splitEnding (body ++ [0x0A]) = (body, [0x0A]) := by
  have hnone : [0x0D, 0x0A].isSuffixOf? (body ++ [0x0A]) = none := by
    rw [Option.eq_none_iff_forall_ne_some]
    intro start hstart
    rw [List.isSuffixOf?_eq_some_iff_append_eq] at hstart
    obtain ⟨hbody, -⟩ := List.append_inj' (show (start ++ [0x0D]) ++ [0x0A] = _ by simpa) rfl
    exact h (by rw [← hbody, List.getLast?_concat])
  rw [splitEnding, hnone]
  simp only [List.isSuffixOf?_eq_some_iff_append_eq.mpr rfl]

lemma splitEnding_of_noFeed {body : Bytes} (h : 0x0A ∉ body) : splitEnding body = (body, []) := by
  have hnone (start : Bytes) : (start ++ [0x0A]).isSuffixOf? body = none := by
    rw [Option.eq_none_iff_forall_ne_some]
    intro before hbefore
    rw [List.isSuffixOf?_eq_some_iff_append_eq] at hbefore
    exact h (by simp [← hbefore])
  rw [splitEnding, show [0x0D, 0x0A].isSuffixOf? body = none from hnone [0x0D],
    show [0x0A].isSuffixOf? body = none from hnone []]

lemma ContentLine.IsEnded.splitEnding_raw {l : ContentLine} (h : l.IsEnded) :
    splitEnding l.raw = (l.body, l.ending) := by
  obtain ⟨-, hend | ⟨hend, hlast⟩⟩ := h <;> rw [ContentLine.raw, hend]
  · exact splitEnding_return l.body
  · exact splitEnding_feed hlast

lemma ContentLine.IsEnded.exists_raw_eq {l : ContentLine} (h : l.IsEnded) :
    ∃ start : Bytes, 0x0A ∉ start ∧ l.raw = start ++ [0x0A] := by
  obtain ⟨hfeed, hend | ⟨hend, -⟩⟩ := h <;> rw [ContentLine.raw, hend]
  · exact ⟨l.body ++ [0x0D], by simpa using hfeed, by simp⟩
  · exact ⟨l.body, hfeed, rfl⟩

/-! ### The cut that promotion makes -/

lemma splitLines_append {start : Bytes} (h : 0x0A ∉ start) (rest : Bytes) :
    splitLines (start ++ 0x0A :: rest) = (start ++ [0x0A]) :: splitLines rest := by
  induction start with
  | nil => rfl
  | cons b start ih =>
    simp only [List.mem_cons, not_or] at h
    rw [List.cons_append, splitLines, if_neg (Ne.symm h.1), ih h.2, List.cons_append]

lemma splitLines_of_noFeed {body : Bytes} (h : 0x0A ∉ body) (hne : body ≠ []) :
    splitLines body = [body] := by
  induction body with
  | nil => exact absurd rfl hne
  | cons b body ih =>
    simp only [List.mem_cons, not_or] at h
    rw [splitLines, if_neg (Ne.symm h.1)]
    cases body with
    | nil => rfl
    | cons b' body => rw [ih h.2 (by simp)]

/-- A cut is the one that promotion works on. -/
lemma IsCut.eq_cutLines {content : Bytes} {lines : List ContentLine} (h : IsCut content lines) :
    lines = cutLines content := by
  induction h with
  | nil => rfl
  | last hfeed hne =>
    simp [cutLines, ContentLine.ofRaw, splitLines_of_noFeed hfeed hne, splitEnding_of_noFeed hfeed]
  | @cons l content lines hended _ ih =>
    obtain ⟨start, hstart, hraw⟩ := hended.exists_raw_eq
    have hsplit : splitLines (l.raw ++ content) = l.raw :: splitLines content := by
      rw [hraw, List.append_assoc, List.singleton_append, splitLines_append hstart]
    rw [cutLines, hsplit, List.map_cons, ContentLine.ofRaw, hended.splitEnding_raw, ih, cutLines]

lemma exists_isEnded {start : Bytes} (h : 0x0A ∉ start) :
    ∃ l : ContentLine, l.IsEnded ∧ l.raw = start ++ [0x0A] := by
  by_cases hlast : start.getLast? = some 0x0D
  · obtain ⟨body, rfl⟩ := List.getLast?_eq_some_iff.mp hlast
    exact ⟨⟨body, [0x0D, 0x0A]⟩, ⟨by simpa using h, .inl rfl⟩, by simp [ContentLine.raw]⟩
  · exact ⟨⟨start, [0x0A]⟩, ⟨h, .inr ⟨rfl, hlast⟩⟩, rfl⟩

lemma exists_isCut (content : Bytes) : ∃ lines, IsCut content lines := by
  induction hlen : content.length using Nat.strong_induction_on generalizing content with
  | _ n ih =>
    by_cases hfeed : 0x0A ∈ content
    · obtain ⟨start, rest, rfl, hstart⟩ := List.eq_append_cons_of_mem hfeed
      obtain ⟨l, hl, hraw⟩ := exists_isEnded hstart
      have hlt : rest.length < n := by
        rw [← hlen, List.length_append, List.length_cons]
        omega
      obtain ⟨lines, hlines⟩ := ih rest.length hlt rest rfl
      refine ⟨l :: lines, ?_⟩
      rw [List.append_cons, ← hraw]
      exact .cons hl hlines
    · rcases eq_or_ne content [] with rfl | hne
      · exact ⟨[], .nil⟩
      · exact ⟨_, .last hfeed hne⟩

/-- A content has exactly one cut. -/
theorem isCut_iff {content : Bytes} {lines : List ContentLine} :
    IsCut content lines ↔ lines = cutLines content := by
  refine ⟨IsCut.eq_cutLines, ?_⟩
  rintro rfl
  obtain ⟨lines, h⟩ := exists_isCut content
  exact h.eq_cutLines ▸ h

end ConstPromotion
