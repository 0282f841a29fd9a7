import ConstPromotion.Text.Blank
import Mathlib.Data.List.TakeWhile
import Mathlib.Tactic

/-!
# Words and lines

Blank space parts a text into words. `Text.Shows` says where it may stand, and a text that shows
words is read as these words (`Text.Shows.tokens_eq`). How a line ends does not matter to what takes
no notice of a carriage return at its end (`Text.filterMap_lines`).
-/

namespace ConstPromotion.Text

variable {text gap word rest : List Char} {words : List (List Char)} {c : Char}

/-! ### Blank space around a text -/

/-- A text of blank space only. -/
def IsGap (text : List Char) : Prop := ∀ c ∈ text, isBlank c

/-- A text that is not empty and holds no blank space. -/
structure IsWord (word : List Char) : Prop where
  ne_nil : word ≠ []
  not_blank : ∀ c ∈ word, isBlank c = false

instance (text : List Char) : Decidable (IsGap text) :=
  decidable_of_iff (text.all isBlank) List.all_eq_true

instance (word : List Char) : Decidable (IsWord word) :=
  decidable_of_iff (word ≠ [] ∧ word.all (!isBlank ·))
    ⟨fun h => ⟨h.1, by simpa using h.2⟩, fun h => ⟨h.ne_nil, by simpa using h.not_blank⟩⟩

lemma dropWhile_append_word (hgap : IsGap gap) (hword : IsWord word) (rest : List Char) :
    (gap ++ (word ++ rest)).dropWhile isBlank = word ++ rest := by
  obtain ⟨c, word, rfl⟩ := List.exists_cons_of_ne_nil hword.ne_nil
  rw [List.dropWhile_append_of_pos hgap]
  simp [hword.not_blank c List.mem_cons_self]

/-- Blank space around a word is trimmed off. -/
lemma trim_append {after : List Char} (hgap : IsGap gap) (hword : IsWord word)
    (hafter : IsGap after) : trim (gap ++ (word ++ after)) = word := by
  have hreverse : IsWord word.reverse := by
    constructor
    · simpa using hword.ne_nil
    · simpa using hword.not_blank
  have hafter' : IsGap after.reverse := by simpa [IsGap] using hafter
  have hdrop := dropWhile_append_word hafter' hreverse []
  rw [List.append_nil] at hdrop
  rw [trim, dropWhile_append_word hgap hword, List.reverse_append, hdrop, List.reverse_reverse]

/-- Only blank space is trimmed off. -/
lemma exists_trim (text : List Char) :
    ∃ gap after, text = gap ++ (trim text ++ after) ∧ IsGap gap ∧ IsGap after := by
  refine ⟨text.takeWhile isBlank, ((text.dropWhile isBlank).reverse.takeWhile isBlank).reverse, ?_,
    fun c hc => List.mem_takeWhile_imp hc, fun c hc => ?_⟩
  · rw [trim, ← List.reverse_append, List.takeWhile_append_dropWhile, List.reverse_reverse,
      List.takeWhile_append_dropWhile]
  · exact List.mem_takeWhile_imp (List.mem_reverse.mp hc)

/-! ### Words -/

/-- A text shows words in order: there is blank space between any two of them, and there may be some
before the first and after the last one. -/
inductive Shows : List (List Char) → List Char → Prop where
  | nil {gap : List Char} (hgap : IsGap gap) : Shows [] gap
  | cons {gap word rest : List Char} {words : List (List Char)} (hgap : IsGap gap)
    (hrest : ∀ c ∈ rest.head?, isBlank c) (h : Shows words rest) :
    Shows (word :: words) (gap ++ (word ++ rest))

/-- Blank space parts the words before it from those after it. -/
lemma tokens_append_cons (hc : isBlank c) (text rest : List Char) :
    tokens (text ++ c :: rest) = tokens text ++ tokens rest := by
  rw [tokens, List.splitOnP_append_cons text rest hc, List.filter_append, tokens, tokens]

lemma tokens_append_of_isGap (hgap : IsGap gap) (rest : List Char) :
    tokens (gap ++ rest) = tokens rest := by
  induction gap with
  | nil => rfl
  | cons c gap ih =>
    obtain ⟨hc, hgap⟩ := List.forall_mem_cons.mp hgap
    rw [List.cons_append, show c :: (gap ++ rest) = [] ++ c :: (gap ++ rest) from rfl,
      tokens_append_cons hc, ih hgap]
    rfl

lemma tokens_of_isWord (hword : IsWord word) : tokens word = [word] := by
  rw [tokens, List.splitOnP_eq_singleton hword.not_blank]
  simp [hword.ne_nil]

/-- A word is read up to the blank space after it. -/
lemma tokens_append_word (hgap : IsGap gap) (hword : IsWord word)
    (hrest : ∀ c ∈ rest.head?, isBlank c) : tokens (gap ++ (word ++ rest)) = word :: tokens rest := by
  rw [tokens_append_of_isGap hgap]
  cases rest with
  | nil => simpa [tokens] using tokens_of_isWord hword
  | cons c rest =>
    have hc : isBlank c := hrest c rfl
    have hskip : tokens (c :: rest) = tokens rest :=
      tokens_append_of_isGap (List.forall_mem_singleton.mpr hc) rest
    rw [tokens_append_cons hc, tokens_of_isWord hword, hskip]
    rfl

/-- A text that shows words is read as these words. -/
theorem Shows.tokens_eq (h : Shows words text) (hwords : ∀ word ∈ words, IsWord word) :
    tokens text = words := by
  induction h with
  | nil hgap => simpa [tokens] using tokens_append_of_isGap hgap []
  | cons hgap hrest _ ih =>
    obtain ⟨hword, hwords⟩ := List.forall_mem_cons.mp hwords
    rw [tokens_append_word hgap hword hrest, ih hwords]

/-- Every text shows the words that are read from it. -/
theorem shows_tokens (text : List Char) : Shows (tokens text) text := by
  induction hlength : text.length using Nat.strong_induction_on generalizing text with
  | _ n ih =>
    have hgap : IsGap (text.takeWhile isBlank) := fun c hc => List.mem_takeWhile_imp hc
    cases hstart : text.dropWhile isBlank with
    | nil =>
      have htext : text = text.takeWhile isBlank ++ [] := by
        rw [← hstart, List.takeWhile_append_dropWhile]
      rw [htext, tokens_append_of_isGap hgap, List.append_nil]
      exact .nil hgap
    | cons c start =>
      -- the first word goes up to the next blank character
      obtain ⟨word, rest, hcut, hword, hrest⟩ : ∃ word rest, c :: start = word ++ rest ∧
          IsWord word ∧ ∀ c ∈ rest.head?, isBlank c := by
        have hc := List.head?_dropWhile_not isBlank text
        simp only [hstart, List.head?_cons] at hc
        refine ⟨(c :: start).takeWhile (!isBlank ·), (c :: start).dropWhile (!isBlank ·),
          List.takeWhile_append_dropWhile.symm, ⟨by simp [hc], fun c hc => ?_⟩, fun d hd => ?_⟩
        · simpa using List.mem_takeWhile_imp hc
        · have hend := List.head?_dropWhile_not (!isBlank ·) (c :: start)
          rw [Option.mem_def.mp hd] at hend
          simpa using hend
      have htext : text = text.takeWhile isBlank ++ (word ++ rest) := by
        rw [← hcut, ← hstart, List.takeWhile_append_dropWhile]
      have hlt : rest.length < n := by
        have hpos := List.length_pos_of_ne_nil hword.ne_nil
        have hsize := congrArg List.length htext
        simp only [List.length_append] at hsize
        omega
      rw [htext, tokens_append_word hgap hword hrest]
      exact .cons hgap hrest (ih rest.length hlt rest rfl)

/-! ### Lines -/

/-- What takes no notice of a carriage return at the end of a line, and of an empty line, finds in
the lines of a text what it finds between its line feeds. -/
lemma filterMap_lines {α : Type} {f : List Char → Option α} (hnil : f [] = none)
    (hreturn : ∀ line, f (line ++ ['\r']) = f line) (text : List Char) :
    (lines text).filterMap f = (text.splitOn '\n').filterMap f := by
  obtain ⟨cut, last, hcut⟩ :=
    (List.eq_nil_or_concat' (text.splitOn '\n')).resolve_left (List.splitOnP_ne_nil _ text)
  have hline (line : List Char) :
      f (if line.getLast? = some '\r' then line.dropLast else line) = f line := by
    split_ifs with hlast
    · obtain ⟨line, rfl⟩ := List.getLast?_eq_some_iff.mp hlast
      rw [List.dropLast_concat, hreturn]
    · rfl
  have hlast : ((some last).toList.filter (· ≠ [])).filterMap f = [last].filterMap f := by
    by_cases hempty : last = []
    · simp [hempty, hnil]
    · simp [hempty]
  simp only [lines, hcut, List.dropLast_concat, List.getLast?_concat, List.filterMap_append,
    List.filterMap_map, Function.comp_def, hline, hlast]

end ConstPromotion.Text
