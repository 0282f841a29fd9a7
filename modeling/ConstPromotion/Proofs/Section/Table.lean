import ConstPromotion.Proofs.Text.Blank
import ConstPromotion.Proofs.Text.Decimal
import ConstPromotion.Section.Flags
import ConstPromotion.Section.Table

/-!
# Reading a section table

A table is a text with a row for each section, among other lines (`Tabulates`). A row starts with an
index in brackets, and no other line does. After the index come the columns: ten of them, nine where
the flags are blank, and eight for a section that has no name either. What is read from a table is
the name and the flags of each section that has a name, in order (`Tabulates.sectionTable_eq`).
-/

namespace ConstPromotion

open Text

variable {line text gap index number rest : List Char}

/-! ### Numbered lines -/

/-- A number below 2^32, maybe with a plus sign before it, and with blank space around it. -/
def IsIndex (text : List Char) : Prop :=
  ∃ gap number after, text = gap ++ (number ++ after) ∧ IsGap gap ∧
    Decimal.IsSigned Decimal.word32 number ∧ IsGap after

/-- A line that starts with a number in brackets, after blank space or at once. -/
def IsNumbered (line : List Char) : Prop :=
  ∃ gap index rest, line = gap ++ '[' :: (index ++ ']' :: rest) ∧ IsGap gap ∧ IsIndex index

/-- No digit is blank. -/
lemma isBlank_of_isDigit {c : Char} (h : c.isDigit) : isBlank c = false := by
  obtain ⟨hlow, hhigh⟩ := Decimal.isDigit_iff.mp h
  simp only [isBlank, blankRanges, List.any_cons, List.any_nil, Bool.or_false, Bool.or_eq_false_iff,
    Bool.and_eq_false_iff, decide_eq_false_iff_not]
  omega

lemma isWord_of_isSigned {bound : Nat} (h : Decimal.IsSigned bound number) :
    IsWord number ∧ ']' ∉ number := by
  obtain ⟨sign, digits, rfl, hsign, hne, hdigits, -⟩ := h
  have hplus : ∀ c ∈ sign, c = '+' := by
    rcases hsign with rfl | rfl <;> simp
  refine ⟨⟨by simp [hne], fun c hc => ?_⟩, fun hc => ?_⟩
  · rcases List.mem_append.mp hc with hc | hc
    · rw [hplus c hc]
      decide
    · exact isBlank_of_isDigit (hdigits c hc)
  · rcases List.mem_append.mp hc with hc | hc
    · exact absurd (hplus _ hc) (by decide)
    · exact absurd (hdigits _ hc) (by decide)

/-- An index is what is read as one. -/
lemma isIndex_iff :
    IsIndex text ↔ (Decimal.parseSigned? Decimal.word32 (trim text)).isSome := by
  rw [Decimal.isSome_parseSigned?_iff]
  constructor
  · rintro ⟨gap, number, after, rfl, hgap, hnumber, hafter⟩
    rwa [trim_append hgap (isWord_of_isSigned hnumber).1 hafter]
  · intro h
    obtain ⟨gap, after, htext, hgap, hafter⟩ := exists_trim text
    exact ⟨gap, trim text, after, htext, hgap, h, hafter⟩

lemma bracket_notMem_of_isIndex (h : IsIndex index) : ']' ∉ index := by
  have hblank : ∀ {gap : List Char}, IsGap gap → ']' ∉ gap := fun hgap hc =>
    absurd (hgap _ hc) (by decide)
  obtain ⟨gap, number, after, rfl, hgap, hnumber, hafter⟩ := h
  simp only [List.mem_append, not_or]
  exact ⟨hblank hgap, (isWord_of_isSigned hnumber).2, hblank hafter⟩

instance (text : List Char) : Decidable (IsIndex text) := decidable_of_iff _ isIndex_iff.symm

/-- A line is cut at the first bracket that closes. -/
lemma cut_of_notMem {start : List Char} (h : ']' ∉ start) (rest : List Char) :
    (start ++ ']' :: rest).takeWhile (· ≠ ']') = start ∧
      (start ++ ']' :: rest).dropWhile (· ≠ ']') = ']' :: rest := by
  have hopen : ∀ c ∈ start, decide (c ≠ ']') = true := by
    intro c hc
    exact decide_eq_true fun heq => h (heq ▸ hc)
  rw [List.takeWhile_append_of_pos hopen, List.dropWhile_append_of_pos hopen]
  simp

lemma isPrefixOf?_trimStart (hgap : IsGap gap) (row : List Char) :
    ['['].isPrefixOf? (trimStart (gap ++ '[' :: row)) = some row := by
  have hopen : isBlank '[' = false := by decide
  rw [trimStart, List.dropWhile_append_of_pos hgap, List.isPrefixOf?_eq_some_iff_append_eq]
  simp [hopen]

/-- A line is numbered if what stands in brackets after its blank space is an index. -/
lemma isNumbered_iff : IsNumbered line ↔ ∃ row ∈ ['['].isPrefixOf? (trimStart line),
    ']' ∈ row ∧ IsIndex (row.takeWhile (· ≠ ']')) := by
  constructor
  · rintro ⟨gap, index, rest, rfl, hgap, hindex⟩
    have hcut := (cut_of_notMem (bracket_notMem_of_isIndex hindex) rest).1
    exact ⟨_, isPrefixOf?_trimStart hgap _, by simp, by rwa [hcut]⟩
  · rintro ⟨row, hrow, hclose, hindex⟩
    have hline := List.isPrefixOf?_eq_some_iff_append_eq.mp (Option.mem_def.mp hrow)
    obtain ⟨start, rest, rfl, hstart⟩ := List.eq_append_cons_of_mem hclose
    rw [(cut_of_notMem hstart rest).1] at hindex
    refine ⟨line.takeWhile isBlank, start, rest, ?_, fun c hc => List.mem_takeWhile_imp hc, hindex⟩
    calc
      line = line.takeWhile isBlank ++ trimStart line := List.takeWhile_append_dropWhile.symm
      _ = _ := by rw [← hline]; rfl

instance (line : List Char) : Decidable (IsNumbered line) := decidable_of_iff _ isNumbered_iff.symm

/-- What the columns of a row say: there are ten of them, or nine where the flags are blank. -/
def entryOf? : List (List Char) → Option (String × String)
  | [name, _, _, _, _, _, flags, _, _, _] => some (String.ofList name, String.ofList flags)
  | [name, _, _, _, _, _, _, _, _] => some (String.ofList name, "")
  | _ => none

/-- A numbered line says what its columns say. -/
lemma tableRow?_of_isIndex (hgap : IsGap gap) (hindex : IsIndex index) (rest : List Char) :
    tableRow? (gap ++ '[' :: (index ++ ']' :: rest)) = entryOf? (tokens rest) := by
  obtain ⟨n, hn⟩ := Option.isSome_iff_exists.mp (isIndex_iff.mp hindex)
  obtain ⟨htake, hdrop⟩ := cut_of_notMem (bracket_notMem_of_isIndex hindex) rest
  simp only [tableRow?, isPrefixOf?_trimStart hgap, htake, hdrop, hn, Option.bind_eq_bind,
    Option.bind_some]
  rfl

/-- Only a numbered line says anything. -/
lemma tableRow?_eq_none (h : ¬ IsNumbered line) : tableRow? line = none := by
  rw [Option.eq_none_iff_forall_ne_some]
  intro e he
  simp only [tableRow?, Option.bind_eq_bind, Option.bind_eq_some_iff] at he
  obtain ⟨row, hrow, he⟩ := he
  refine h (isNumbered_iff.mpr ⟨row, hrow, ?_⟩)
  split at he
  next rest hdrop =>
    rw [Option.bind_some, Option.bind_eq_some_iff] at he
    obtain ⟨n, hn, -⟩ := he
    have hclose : ']' ∈ row.dropWhile (· ≠ ']') := hdrop ▸ List.mem_cons_self
    exact ⟨(List.dropWhile_sublist _).subset hclose, isIndex_iff.mpr (by rw [hn]; rfl)⟩
  next => simp at he

/-- A carriage return at the end of a line does not change what it says. -/
lemma tableRow?_return (line : List Char) : tableRow? (line ++ ['\r']) = tableRow? line := by
  have hreturn : isBlank '\r' := by decide
  by_cases hnumbered : IsNumbered line
  · obtain ⟨gap, index, rest, rfl, hgap, hindex⟩ := hnumbered
    have hline : gap ++ '[' :: (index ++ ']' :: rest) ++ ['\r'] =
        gap ++ '[' :: (index ++ ']' :: (rest ++ ['\r'])) := by simp
    rw [hline, tableRow?_of_isIndex hgap hindex, tableRow?_of_isIndex hgap hindex,
      tokens_append_cons hreturn]
    simp [tokens]
  · have hnot : ¬ IsNumbered (line ++ ['\r']) := by
      rintro ⟨gap, index, rest, hline, hgap, hindex⟩
      -- the bracket that closes the index is not the carriage return
      rcases List.eq_nil_or_concat' rest with rfl | ⟨rest, c, rfl⟩
      · have hline' : line ++ ['\r'] = (gap ++ '[' :: index) ++ [']'] := by
          rw [hline]
          simp
        exact absurd (List.append_inj' hline' rfl).2 (by decide)
      · have hline' : line ++ ['\r'] = (gap ++ '[' :: (index ++ ']' :: rest)) ++ [c] := by
          rw [hline]
          simp
        exact hnumbered ⟨gap, index, rest, (List.append_inj' hline' rfl).1, hgap, hindex⟩
    rw [tableRow?_eq_none hnumbered, tableRow?_eq_none hnot]

/-- The lines of a table may end in carriage returns or not. -/
lemma sectionTable_eq (text : List Char) :
    sectionTable text = (text.splitOn '\n').flatMap fun line => (tableRow? line).toList := by
  rw [← List.filterMap_eq_flatMap_toList]
  exact filterMap_lines rfl tableRow?_return text

/-! ### Tables -/

/-- What a table shows of a section, column by column. -/
structure TableRow where
  name : List Char
  type : List Char
  address : List Char
  offset : List Char
  size : List Char
  entrySize : List Char
  flags : UInt64
  link : List Char
  info : List Char
  alignment : List Char

namespace TableRow

/-- The columns of a row. The flags are shown as letters. -/
def columns (r : TableRow) : List (List Char) :=
  [r.name, r.type, r.address, r.offset, r.size, r.entrySize, flagLetters r.flags, r.link, r.info,
    r.alignment]

/-- The columns that are not blank. -/
def printed (r : TableRow) : List (List Char) := r.columns.filter (· ≠ [])

/-- A row of a section: it has a name, unless it is the row of the first section, which has no
flags either. All other columns are words. -/
structure IsSection (r : TableRow) : Prop where
  name : r.name = [] ∧ r.flags = 0 ∨ IsWord r.name
  others : ∀ word ∈ [r.type, r.address, r.offset, r.size, r.entrySize, r.link, r.info, r.alignment],
    IsWord word

instance (r : TableRow) : Decidable r.IsSection :=
  decidable_of_iff ((r.name = [] ∧ r.flags = 0 ∨ IsWord r.name) ∧
    ∀ word ∈ [r.type, r.address, r.offset, r.size, r.entrySize, r.link, r.info, r.alignment],
      IsWord word) ⟨fun h => ⟨h.1, h.2⟩, fun h => ⟨h.name, h.others⟩⟩

/-- A line shows a row: an index in brackets, and after it the columns with blank space between
them. -/
def IsShownBy (r : TableRow) (line : List Char) : Prop :=
  ∃ gap index columns, line = gap ++ '[' :: (index ++ ']' :: columns) ∧ IsGap gap ∧
    IsIndex index ∧ Shows r.printed columns

/-- What is read from a row: the name and the flags, if there is a name. -/
def entry? (r : TableRow) : Option (String × String) :=
  if r.name = [] then none
  else some (String.ofList r.name, String.ofList (flagLetters r.flags))

/-- The letters of flags are a word, if there are any. -/
lemma isWord_flagLetters {flags : UInt64} (h : flagLetters flags ≠ []) :
    IsWord (flagLetters flags) := by
  have htable : ∀ e ∈ flagTable, isBlank e.2 = false := by decide
  refine ⟨h, fun c hc => ?_⟩
  obtain ⟨e, he, hletter⟩ := List.mem_filterMap.mp hc
  obtain ⟨-, hletter⟩ := Option.ite_none_right_eq_some.mp hletter
  obtain rfl := Option.some.inj hletter
  exact htable e he

lemma isWord_of_mem_printed {r : TableRow} (h : r.IsSection) {word : List Char}
    (hword : word ∈ r.printed) : IsWord word := by
  obtain ⟨hmem, hne⟩ := List.mem_filter.mp hword
  have hne : word ≠ [] := of_decide_eq_true hne
  have hcases : word = r.name ∨ word = flagLetters r.flags ∨
      word ∈ [r.type, r.address, r.offset, r.size, r.entrySize, r.link, r.info, r.alignment] := by
    simp only [columns, List.mem_cons] at hmem ⊢
    grind
  rcases hcases with rfl | rfl | hother
  · exact h.name.resolve_left fun hname => hne hname.1
  · exact isWord_flagLetters hne
  · exact h.others word hother

/-- A row has ten columns with a name and flags, nine without flags, and eight without a name. -/
lemma entryOf?_printed {r : TableRow} (h : r.IsSection) : entryOf? r.printed = r.entry? := by
  have hne {word : List Char} (hword : word ∈ [r.type, r.address, r.offset, r.size, r.entrySize,
      r.link, r.info, r.alignment]) : word ≠ [] := (h.others word hword).ne_nil
  simp only [List.mem_cons, List.not_mem_nil, or_false] at hne
  rcases h.name with ⟨hname, hflags⟩ | hname
  · have hletters : flagLetters r.flags = [] := by rw [hflags]; decide
    simp [printed, columns, entry?, hname, hletters, hne, entryOf?]
  · by_cases hletters : flagLetters r.flags = []
    · simp [printed, columns, entry?, hname.ne_nil, hletters, hne, entryOf?]
    · simp [printed, columns, entry?, hname.ne_nil, hletters, hne, entryOf?]

/-- What a line says that shows a row. -/
lemma tableRow?_of_isShownBy {r : TableRow} (h : r.IsSection) (hline : r.IsShownBy line) :
    tableRow? line = r.entry? := by
  obtain ⟨gap, index, columns, rfl, hgap, hindex, hcolumns⟩ := hline
  rw [tableRow?_of_isIndex hgap hindex, hcolumns.tokens_eq fun _ => isWord_of_mem_printed h,
    entryOf?_printed h]

end TableRow

/-- What a line of a table shows: a section, or none. -/
inductive LineShows : List Char → List TableRow → Prop where
  | row {line : List Char} {r : TableRow} (hr : r.IsSection) (hline : r.IsShownBy line) :
    LineShows line [r]
  | other {line : List Char} (hline : ¬ IsNumbered line) : LineShows line []

/-- A text that shows sections in order, one a line, among other lines. A line ends in a line feed,
or in a carriage return and a line feed; the last one may end without. -/
inductive Tabulates : List Char → List TableRow → Prop where
  | last {line : List Char} {rows : List TableRow} (hfeed : '\n' ∉ line)
    (hline : LineShows line rows) : Tabulates line rows
  | cons {line ending text : List Char} {rows later : List TableRow} (hfeed : '\n' ∉ line)
    (hline : LineShows line rows) (hending : ending = ['\n'] ∨ ending = ['\r', '\n'])
    (htext : Tabulates text later) : Tabulates (line ++ ending ++ text) (rows ++ later)

/-- A line shows a row if its columns are read as those of the row. -/
lemma LineShows.of_tokens {r : TableRow} {columns : List Char} (hr : r.IsSection) (hgap : IsGap gap)
    (hindex : IsIndex index) (hcolumns : tokens columns = r.printed) :
    LineShows (gap ++ '[' :: (index ++ ']' :: columns)) [r] :=
  .row hr ⟨gap, index, columns, rfl, hgap, hindex, hcolumns ▸ shows_tokens columns⟩

lemma LineShows.toList_tableRow? {rows : List TableRow} (h : LineShows line rows) :
    (tableRow? line).toList = rows.filterMap TableRow.entry? := by
  cases h with
  | row hr hline =>
    rw [TableRow.tableRow?_of_isShownBy hr hline]
    rw [List.filterMap_eq_flatMap_toList, List.flatMap_singleton]
  | other hline => rw [tableRow?_eq_none hline]; rfl

/-- What is read from a table is what its rows say. -/
theorem Tabulates.sectionTable_eq {rows : List TableRow} (h : Tabulates text rows) :
    sectionTable text = rows.filterMap TableRow.entry? := by
  rw [ConstPromotion.sectionTable_eq]
  induction h with
  | last hfeed hline =>
    rw [List.splitOn_eq_singleton hfeed, List.flatMap_singleton, hline.toList_tableRow?]
  | @cons line ending text rows later hfeed hline hending _ ih =>
    obtain ⟨start, hcut, hstart, hsame⟩ : ∃ start, line ++ ending = start ++ ['\n'] ∧
        '\n' ∉ start ∧ tableRow? start = tableRow? line := by
      rcases hending with rfl | rfl
      · exact ⟨line, rfl, hfeed, rfl⟩
      · exact ⟨line ++ ['\r'], by simp, by simp [hfeed], tableRow?_return line⟩
    rw [hcut, List.append_assoc, List.singleton_append,
      List.splitOn_append_cons_self_of_not_mem hstart, List.flatMap_cons, ih, hsame,
      hline.toList_tableRow?, List.filterMap_append]

end ConstPromotion
