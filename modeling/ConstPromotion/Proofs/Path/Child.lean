import ConstPromotion.FileSystem.Operations
import Mathlib.Tactic

/-!
# Entries of a directory

A path with the name of an entry appended to it: how it is spelled, the pieces it falls into, and
the name that it ends in. The name that a path ends in is always the name of an entry.
-/

namespace ConstPromotion.Path

/-- The names that entries can have. The others stand for a directory that is there anyway, or for
more than one name. -/
structure IsEntryName (n : Name) : Prop where
  ne_nil : n ≠ []
  slash_notMem : '/' ∉ n
  ne_current : n ≠ ['.']
  ne_parent : n ≠ ['.', '.']

instance : DecidablePred IsEntryName := fun n =>
  decidable_of_iff (n ≠ [] ∧ '/' ∉ n ∧ n ≠ ['.'] ∧ n ≠ ['.', '.'])
    ⟨fun h => ⟨h.1, h.2.1, h.2.2.1, h.2.2.2⟩,
      fun h => ⟨h.ne_nil, h.slash_notMem, h.ne_current, h.ne_parent⟩⟩

variable {p : Path} {n : Name}

/-! ### The name that a path ends in -/

lemma notMem_of_mem_splitOn {x : Char} {text piece : List Char} (h : piece ∈ text.splitOn x) :
    x ∉ piece := by
  induction text generalizing piece with
  | nil =>
    rw [List.splitOn_nil, List.mem_singleton] at h
    simp [h]
  | cons c text ih =>
    rw [List.splitOn_cons_eq_if_modifyHead] at h
    split_ifs at h with hc
    · rcases List.mem_cons.mp h with rfl | h
      · simp
      · exact ih h
    · cases hpieces : text.splitOn x with
      | nil => exact absurd hpieces (List.splitOn_ne_nil x text)
      | cons first pieces =>
        rw [hpieces] at h ih
        rcases List.mem_cons.mp h with rfl | h
        · have hxc : x ≠ c := by
            rintro rfl
            simp at hc
          simpa [hxc] using ih List.mem_cons_self
        · exact ih (List.mem_cons_of_mem _ h)

lemma component?_eq_some_name {opening : Bool} {piece : List Char}
    (h : component? opening piece = some (.name n)) :
    piece = n ∧ n ≠ [] ∧ n ≠ ['.'] ∧ n ≠ ['.', '.'] := by
  rw [component?] at h
  split_ifs at h with h₁ h₂ _ h₃
  · simp at h
  · simp at h
  · obtain rfl : piece = n := by simpa using h
    exact ⟨rfl, h₁, h₂, h₃⟩

/-- A component comes from one of the pieces. -/
lemma exists_of_mem_spansFrom {opening : Bool} {start : Nat} {pieces : List (List Char)} {s : Span}
    (h : s ∈ spansFrom opening start pieces) :
    ∃ piece ∈ pieces, ∃ opening', component? opening' piece = some s.component := by
  induction pieces generalizing opening start with
  | nil => simp [spansFrom] at h
  | cons piece pieces ih =>
    rw [spansFrom, List.mem_append] at h
    rcases h with h | h
    · obtain ⟨c, hc, rfl⟩ := Option.map_eq_some_iff.mp (Option.mem_toList.mp h)
      exact ⟨piece, List.mem_cons_self, opening, hc⟩
    · obtain ⟨later, hlater, h⟩ := ih h
      exact ⟨later, List.mem_cons_of_mem _ hlater, h⟩

/-- What a path ends in is the name of an entry. -/
lemma isEntryName_of_fileName? (h : p.fileName? = some n) : IsEntryName n := by
  rw [fileName?] at h
  split at h
  next m hm =>
    obtain rfl : m = n := by simpa using h
    obtain ⟨s, hs, hname⟩ := List.mem_map.mp (List.mem_of_getLast? hm)
    rw [spans, List.mem_append] at hs
    rcases hs with hs | hs
    · split_ifs at hs
      · rw [List.mem_singleton.mp hs] at hname
        simp at hname
      · simp at hs
    · obtain ⟨piece, hpiece, opening, hcomponent⟩ := exists_of_mem_spansFrom hs
      rw [hname] at hcomponent
      obtain ⟨rfl, h₁, h₂, h₃⟩ := component?_eq_some_name hcomponent
      exact ⟨h₁, notMem_of_mem_splitOn hpiece, h₂, h₃⟩
  next => simp at h

/-! ### Spelling -/

lemma IsEntryName.head?_ne (hn : IsEntryName n) : n.head? ≠ some '/' := by
  intro h
  exact hn.slash_notMem (List.mem_of_mem_head? h)

/-- A name comes after one slash, or where the path is empty. -/
lemma chars_child (hn : IsEntryName n) (p : Path) :
    (∃ before, p.chars = before ++ ['/'] ∧ (p.child n).chars = before ++ '/' :: n) ∨
      p.chars = [] ∧ (p.child n).chars = n ∨
      p.chars ≠ [] ∧ (p.child n).chars = p.chars ++ '/' :: n := by
  have hrelative : (⟨n⟩ : Path).isAbsolute = false := by simpa [isAbsolute] using hn.head?_ne
  rw [child, join, hrelative, if_neg Bool.false_ne_true]
  by_cases hnil : p.chars = []
  · simp [hnil]
  · by_cases hslash : p.chars.getLast? = some '/'
    · obtain ⟨before, hbefore⟩ := List.getLast?_eq_some_iff.mp hslash
      exact .inl ⟨before, hbefore, by simp [hbefore]⟩
    · simp [hnil, hslash]

lemma mem_chars_child (hn : IsEntryName n) {c : Char} (h : c ∈ (p.child n).chars) :
    c ∈ p.chars ∨ c = '/' ∨ c ∈ n := by
  rcases chars_child hn p with ⟨before, hp, hchild⟩ | ⟨-, hchild⟩ | ⟨-, hchild⟩
  · rw [hchild] at h
    rw [hp]
    simp only [List.mem_append, List.mem_cons] at h ⊢
    tauto
  · rw [hchild] at h
    exact .inr (.inr h)
  · rw [hchild] at h
    simpa using h

lemma chars_child_ne_nil (hn : IsEntryName n) (p : Path) : (p.child n).chars ≠ [] := by
  have := hn.ne_nil
  rcases chars_child hn p with ⟨before, -, hchild⟩ | ⟨-, hchild⟩ | ⟨-, hchild⟩ <;>
    simp [hchild, this]

lemma isAbsolute_child (hn : IsEntryName n) (hp : p.chars ≠ []) :
    (p.child n).isAbsolute = p.isAbsolute := by
  rw [isAbsolute, isAbsolute]
  rcases chars_child hn p with ⟨before, hp, hchild⟩ | ⟨hnil, -⟩ | ⟨-, hchild⟩
  · rw [hchild, hp]
    cases before <;> simp
  · exact absurd hnil hp
  · obtain ⟨c, rest, hp⟩ := List.exists_cons_of_ne_nil hp
    simp [hchild, hp]

/-- A child has the pieces of its path, without empty ones at the end, and its name. -/
lemma exists_pieces_child (hn : IsEntryName n) (hp : p.chars ≠ []) :
    ∃ pieces blanks, (∀ b ∈ blanks, b = []) ∧ p.chars.splitOn '/' = pieces ++ blanks ∧
      (p.child n).chars.splitOn '/' = pieces ++ [n] := by
  have hname : n.splitOn '/' = [n] := List.splitOn_eq_singleton hn.slash_notMem
  rcases chars_child hn p with ⟨before, hp, hchild⟩ | ⟨hnil, -⟩ | ⟨-, hchild⟩
  · refine ⟨before.splitOn '/', [[]], by simp, ?_, ?_⟩
    · rw [hp, List.splitOn_append_cons_self, List.splitOn_nil]
    · rw [hchild, List.splitOn_append_cons_self, hname]
  · exact absurd hnil hp
  · refine ⟨p.chars.splitOn '/', [], by simp, by simp, ?_⟩
    rw [hchild, List.splitOn_append_cons_self, hname]

lemma dropSlashes_child (hn : IsEntryName n) (p : Path) :
    FileSystem.dropSlashes (p.child n) = p.child n := by
  obtain ⟨start, c, rfl⟩ := (List.eq_nil_or_concat' n).resolve_left hn.ne_nil
  have hc : c ≠ '/' := by
    rintro rfl
    exact hn.slash_notMem (by simp)
  have hlast : ∃ before, (p.child (start ++ [c])).chars = before ++ [c] := by
    rcases chars_child hn p with ⟨before, -, hchild⟩ | ⟨-, hchild⟩ | ⟨-, hchild⟩
    · exact ⟨before ++ '/' :: start, by simp [hchild]⟩
    · exact ⟨start, hchild⟩
    · exact ⟨p.chars ++ '/' :: start, by simp [hchild]⟩
  obtain ⟨before, hbefore⟩ := hlast
  have hdrop : ((p.child (start ++ [c])).chars.reverse.dropWhile (· = '/')).reverse =
      before ++ [c] := by
    rw [hbefore, List.reverse_append, List.reverse_singleton, List.singleton_append,
      List.dropWhile_cons_of_neg (by simpa using hc)]
    simp
  rw [FileSystem.dropSlashes, hdrop, ← hbefore]
  split
  next h => rfl
  next => rfl

lemma getLast?_spansFrom (hn : IsEntryName n) (opening : Bool) (start : Nat)
    (pieces : List (List Char)) :
    ((spansFrom opening start (pieces ++ [n])).map Span.component).getLast? = some (.name n) := by
  induction pieces generalizing opening start with
  | nil => simp [spansFrom, component?, hn.ne_nil, hn.ne_current, hn.ne_parent]
  | cons piece pieces ih =>
    rw [List.cons_append, spansFrom, List.map_append, List.getLast?_append, ih]
    rfl

lemma fileName?_child (hn : IsEntryName n) (p : Path) : (p.child n).fileName? = some n := by
  have hpieces : ∃ pieces, (p.child n).chars.splitOn '/' = pieces ++ [n] := by
    by_cases hp : p.chars = []
    · rcases chars_child hn p with ⟨before, hslash, -⟩ | ⟨-, hchild⟩ | ⟨hne, -⟩
      · simp [hp] at hslash
      · exact ⟨[], by rw [hchild, List.splitOn_eq_singleton hn.slash_notMem, List.nil_append]⟩
      · exact absurd hp hne
    · obtain ⟨pieces, -, -, -, hchild⟩ := exists_pieces_child hn hp
      exact ⟨pieces, hchild⟩
  obtain ⟨pieces, hpieces⟩ := hpieces
  rw [fileName?, components, spans, List.map_append, hpieces, List.getLast?_append,
    getLast?_spansFrom hn]
  rfl

end ConstPromotion.Path
