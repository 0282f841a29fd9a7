import Mathlib.Data.List.DropRight
import ConstPromotion.Proofs.Path.Child

/-!
# Pieces of a path

A path falls into the pieces between its slashes. Its components are the pieces that are not blank
(`components_eq`), so they say nothing about doubled slashes and dots, while a path is followed
piece by piece. Replacing the name that a path ends in keeps the pieces before the name up to blank
ones at their end (`pieces_withFileName`), and exchanges the last component
(`components_withFileName`). Joining a relative path adds pieces (`pieces_join`) and components
(`components_join`).
-/

namespace ConstPromotion

/-- The name that a component is, if it is one. -/
def Component.name? : Component → Option Name
  | .name n => some n
  | _ => none

namespace Path

/-- A piece that no component stands for, after the first piece of a path. -/
def IsBlank (piece : List Char) : Prop := piece = [] ∨ piece = ['.']

instance : DecidablePred IsBlank := fun _ => inferInstanceAs (Decidable (_ ∨ _))

/-- The pieces of a path. -/
def pieces (p : Path) : List (List Char) := p.chars.splitOn '/'

variable {p q : Path} {n m : Name} {before xs ys : List (List Char)} {opening : Bool}

lemma pieces_ne_nil (p : Path) : p.pieces ≠ [] := List.splitOn_ne_nil _ _

lemma slash_notMem_of_mem_pieces {piece : List Char} (h : piece ∈ p.pieces) : '/' ∉ piece :=
  notMem_of_mem_splitOn h

lemma intercalate_pieces (p : Path) : ['/'].intercalate p.pieces = p.chars :=
  List.intercalate_splitOn '/'

lemma pieces_intercalate (hxs : xs ≠ []) (hslash : ∀ piece ∈ xs, '/' ∉ piece) :
    (Path.mk (['/'].intercalate xs)).pieces = xs :=
  List.splitOn_intercalate '/' hslash hxs

lemma intercalate_append (hxs : xs ≠ []) (hys : ys ≠ []) :
    ['/'].intercalate (xs ++ ys) = ['/'].intercalate xs ++ '/' :: ['/'].intercalate ys := by
  induction xs with
  | nil => exact absurd rfl hxs
  | cons x xs ih =>
    cases xs with
    | nil => simp [List.intercalate_cons_of_ne_nil hys]
    | cons x' xs =>
      rw [List.cons_append, List.intercalate_cons_of_ne_nil (by simp), ih (by simp)]
      simp

/-- All that is no slash stands in a piece. -/
lemma mem_chars_iff {c : Char} (hc : c ≠ '/') : c ∈ p.chars ↔ ∃ piece ∈ p.pieces, c ∈ piece := by
  rw [← intercalate_pieces p]
  induction p.pieces with
  | nil => simp
  | cons x xs ih =>
    cases xs with
    | nil => simp
    | cons x' xs =>
      rw [List.intercalate_cons_of_ne_nil (by simp), List.mem_append, List.mem_append, ih]
      simp [hc]

/-- An absolute path has nothing before its first slash. -/
lemma isAbsolute_iff {first : List Char} {rest : List (List Char)} (hp : p.pieces = first :: rest)
    (hrest : rest ≠ []) : p.isAbsolute = true ↔ first = [] := by
  have hchars := intercalate_pieces p
  have hslash : '/' ∉ first := slash_notMem_of_mem_pieces (hp ▸ List.mem_cons_self)
  rw [hp, List.intercalate_cons_of_ne_nil hrest] at hchars
  rw [isAbsolute, decide_eq_true_eq, ← hchars]
  cases first with
  | nil => simp
  | cons c first =>
    rw [List.mem_cons, not_or] at hslash
    simpa using Ne.symm hslash.1

lemma isAbsolute_eq_false {first : List Char} {rest : List (List Char)}
    (hp : p.pieces = first :: rest) (hfirst : first ≠ []) : p.isAbsolute = false := by
  have hslash : '/' ∉ first := slash_notMem_of_mem_pieces (hp ▸ List.mem_cons_self)
  have hchars := intercalate_pieces p
  obtain ⟨c, first, rfl⟩ := List.exists_cons_of_ne_nil hfirst
  have hc : c ≠ '/' := fun h => hslash (h ▸ List.mem_cons_self)
  rw [isAbsolute, decide_eq_false_iff_not, ← hchars, hp]
  cases rest with
  | nil => simpa using hc
  | cons x rest => simpa [List.intercalate_cons_of_ne_nil] using hc

/-! ### Components -/

/-- The components of pieces. -/
def componentsFrom (opening : Bool) : List (List Char) → List Component
  | [] => []
  | piece :: rest => (component? opening piece).toList ++ componentsFrom false rest

lemma map_component_spansFrom (opening : Bool) (start : Nat) (xs : List (List Char)) :
    (spansFrom opening start xs).map Span.component = componentsFrom opening xs := by
  induction xs generalizing opening start with
  | nil => rfl
  | cons piece xs ih =>
    rw [spansFrom, componentsFrom, List.map_append, ih]
    cases component? opening piece <;> rfl

/-- The components of a path are those of its pieces, after the root of an absolute path. -/
lemma components_eq (p : Path) :
    p.components = (if p.isAbsolute then [.root] else []) ++ componentsFrom (!p.isAbsolute) p.pieces
    := by
  rw [components, spans, List.map_append, map_component_spansFrom, pieces]
  split_ifs <;> rfl

lemma componentsFrom_append (hxs : xs ≠ []) :
    componentsFrom opening (xs ++ ys) = componentsFrom opening xs ++ componentsFrom false ys := by
  induction xs generalizing opening with
  | nil => exact absurd rfl hxs
  | cons piece xs ih =>
    cases xs with
    | nil => simp [componentsFrom]
    | cons piece' xs =>
      rw [List.cons_append, componentsFrom, componentsFrom, ih (by simp), List.append_assoc]

lemma exists_of_mem_componentsFrom {c : Component} (h : c ∈ componentsFrom opening xs) :
    ∃ piece ∈ xs, ∃ opening', component? opening' piece = some c := by
  rw [← map_component_spansFrom opening 0 xs, List.mem_map] at h
  obtain ⟨s, hs, rfl⟩ := h
  exact exists_of_mem_spansFrom hs

lemma root_notMem_componentsFrom : Component.root ∉ componentsFrom opening xs := by
  intro h
  obtain ⟨piece, -, opening', hroot⟩ := exists_of_mem_componentsFrom h
  rw [component?] at hroot
  split_ifs at hroot <;> simp at hroot

lemma isEntryName_of_mem_componentsFrom (hslash : ∀ piece ∈ xs, '/' ∉ piece)
    (h : .name n ∈ componentsFrom opening xs) : IsEntryName n := by
  obtain ⟨piece, hpiece, opening', hname⟩ := exists_of_mem_componentsFrom h
  obtain ⟨rfl, hnil, hcurrent, hparent⟩ := component?_eq_some_name hname
  exact ⟨hnil, hslash _ hpiece, hcurrent, hparent⟩

lemma component?_of_isBlank {piece : List Char} (h : IsBlank piece) :
    component? false piece = none := by
  rcases h with rfl | rfl <;> rfl

lemma component?_of_isEntryName (hn : IsEntryName n) : component? opening n = some (.name n) := by
  simp [component?, hn.ne_nil, hn.ne_current, hn.ne_parent]

lemma componentsFrom_of_forall_isBlank (h : ∀ piece ∈ xs, IsBlank piece) :
    componentsFrom false xs = [] := by
  induction xs with
  | nil => rfl
  | cons piece xs ih =>
    obtain ⟨hpiece, hxs⟩ := List.forall_mem_cons.mp h
    rw [componentsFrom, component?_of_isBlank hpiece, ih hxs]
    rfl

/-! ### Names -/

/-- The names among the components of a path, which lead to its place if the path has no `..`. -/
def names (p : Path) : List Name := p.components.filterMap Component.name?

/-- The names among pieces. -/
def entryNames (xs : List (List Char)) : List Name := xs.filter fun x => ¬ IsBlank x ∧ x ≠ ['.', '.']

@[simp] lemma entryNames_append (xs ys : List (List Char)) :
    entryNames (xs ++ ys) = entryNames xs ++ entryNames ys := List.filter_append ..

lemma entryNames_of_forall_isBlank (h : ∀ piece ∈ xs, IsBlank piece) : entryNames xs = [] := by
  rw [entryNames, List.filter_eq_nil_iff]
  intro x hx
  simp [h x hx]

lemma entryNames_singleton (hn : IsEntryName n) : entryNames [n] = [n] := by
  simp [entryNames, IsBlank, hn.ne_nil, hn.ne_current, hn.ne_parent]

lemma entryNames_cons (x : List Char) (xs : List (List Char)) :
    entryNames (x :: xs) = entryNames [x] ++ entryNames xs := entryNames_append [x] xs

lemma filterMap_name?_componentsFrom (opening : Bool) (xs : List (List Char)) :
    (componentsFrom opening xs).filterMap Component.name? = entryNames xs := by
  induction xs generalizing opening with
  | nil => rfl
  | cons piece xs ih =>
    rw [componentsFrom, List.filterMap_append, ih, entryNames_cons, component?]
    congr 1
    split_ifs with h₁ h₂ h₃ h₄ <;> simp_all [entryNames, IsBlank, Component.name?]

lemma map_name_injective : Function.Injective (List.map Component.name) :=
  List.map_injective_iff.mpr fun _ _ h => Component.name.inj h

lemma names_eq (p : Path) : p.names = entryNames p.pieces := by
  rw [names, components_eq, List.filterMap_append, filterMap_name?_componentsFrom]
  split_ifs <;> rfl

lemma same_trans {r : Path} (h : p.same q) (h' : q.same r) : p.same r :=
  decide_eq_true ((of_decide_eq_true h).trans (of_decide_eq_true h'))

lemma names_eq_of_same (h : p.same q) : p.names = q.names := by
  rw [names, names, of_decide_eq_true h]

lemma parent_mem_componentsFrom :
    Component.parent ∈ componentsFrom opening xs ↔ ['.', '.'] ∈ xs := by
  induction xs generalizing opening with
  | nil => simp [componentsFrom]
  | cons piece xs ih =>
    rw [componentsFrom, List.mem_append, ih, List.mem_cons, component?]
    refine or_congr_left ?_
    split_ifs with h₁ h₂ h₃ h₄
    · simp [h₁]
    · simp [h₂]
    · simp [h₂]
    · simp [h₄]
    · simpa [eq_comm] using h₄

/-- A path has a component `..` just if it has such a piece. -/
lemma parent_mem_components : Component.parent ∈ p.components ↔ ['.', '.'] ∈ p.pieces := by
  rw [components_eq, List.mem_append, parent_mem_componentsFrom]
  split_ifs <;> simp

/-- A path that spells out the location it leads to: it starts at the root and has no `..`. -/
structure IsPlain (p : Path) : Prop where
  isAbsolute : p.isAbsolute = true
  parent_notMem : Component.parent ∉ p.components

lemma IsPlain.chars_ne_nil (h : p.IsPlain) : p.chars ≠ [] := by
  intro hnil
  have hroot := h.isAbsolute
  simp [Path.isAbsolute, hnil] at hroot

lemma components_of_not_parent_mem (h : Component.parent ∉ componentsFrom false xs) :
    componentsFrom false xs = (entryNames xs).map .name := by
  induction xs with
  | nil => rfl
  | cons piece xs ih =>
    rw [componentsFrom, List.mem_append, not_or] at h
    rw [componentsFrom, entryNames_cons, List.map_append, ih h.2]
    congr 1
    rw [component?] at h ⊢
    split_ifs at h ⊢ with h₁ h₂ h₃ <;> simp_all [entryNames, IsBlank]

/-- A plain path is told apart from others by its names. -/
lemma IsPlain.components_eq (h : p.IsPlain) : p.components = .root :: p.names.map .name := by
  have hparent := h.parent_notMem
  rw [Path.components_eq, h.isAbsolute, if_pos rfl, List.mem_append, not_or] at hparent
  rw [Path.components_eq, h.isAbsolute, if_pos rfl, names_eq]
  exact congrArg _ (components_of_not_parent_mem hparent.2)

lemma IsPlain.same_iff (hp : p.IsPlain) (hq : q.IsPlain) : p.same q ↔ p.names = q.names := by
  refine ⟨names_eq_of_same, fun h => ?_⟩
  rw [same, hp.components_eq, hq.components_eq, h]
  exact decide_eq_true rfl

lemma root_mem_components : Component.root ∈ p.components ↔ p.isAbsolute = true := by
  rw [components_eq, List.mem_append]
  split_ifs with h <;> simp [h, root_notMem_componentsFrom]

/-! ### The name that a path ends in -/

lemma fileName?_of_pieces (hp : p.pieces = before ++ [n]) (hn : IsEntryName n) :
    p.fileName? = some n := by
  rw [pieces] at hp
  rw [fileName?, components, spans, List.map_append, hp, List.getLast?_append,
    getLast?_spansFrom hn]
  rfl

lemma chars_ne_nil_of_pieces (hp : p.pieces = before ++ [n]) (hn : IsEntryName n) :
    p.chars ≠ [] := by
  intro hnil
  rw [pieces, hnil, List.splitOn_nil] at hp
  have hlast := congrArg List.getLast? hp
  rw [List.getLast?_singleton, List.getLast?_concat, Option.some_inj] at hlast
  exact hn.ne_nil hlast.symm

/-- The length of pieces with a slash after each of them. -/
def slashedLength (xs : List (List Char)) : Nat := (xs.map (·.length + 1)).sum

lemma length_intercalate_concat (xs : List (List Char)) (x : List Char) :
    (['/'].intercalate (xs ++ [x])).length = slashedLength xs + x.length := by
  induction xs with
  | nil => simp [slashedLength]
  | cons x' xs ih =>
    rw [List.cons_append, List.intercalate_cons_of_ne_nil (by simp), List.length_append, ih]
    simp [slashedLength]
    omega

lemma spansFrom_append {start : Nat} (hxs : xs ≠ []) :
    spansFrom opening start (xs ++ ys) =
      spansFrom opening start xs ++ spansFrom false (start + slashedLength xs) ys := by
  induction xs generalizing opening start with
  | nil => exact absurd rfl hxs
  | cons piece xs ih =>
    cases xs with
    | nil => simp [spansFrom, slashedLength, Nat.add_assoc]
    | cons piece' xs =>
      rw [List.cons_append, spansFrom, spansFrom, ih (by simp), List.append_assoc]
      simp [slashedLength, Nat.add_assoc, Nat.add_comm, Nat.add_left_comm]

lemma spansFrom_of_forall_isBlank {start : Nat} (h : ∀ piece ∈ xs, IsBlank piece) :
    spansFrom false start xs = [] := by
  rw [← List.map_eq_nil_iff (f := Span.component), map_component_spansFrom,
    componentsFrom_of_forall_isBlank h]

lemma take_chars (hp : p.pieces = xs ++ ys) (hxs : xs ≠ []) (hys : ys ≠ []) :
    p.chars.take (['/'].intercalate xs).length = ['/'].intercalate xs := by
  rw [← intercalate_pieces p, hp, intercalate_append hxs hys, List.take_left]

lemma parent?_of_pieces (hp : p.pieces = before ++ [n]) (hn : IsEntryName n) (hne : before ≠ []) :
    p.parent? = some ⟨p.chars.take (((spansFrom (!p.isAbsolute) 0 before).getLast?.or
      (if p.isAbsolute then some ⟨.root, 0, 1⟩ else none)).elim 0 Span.stop)⟩ := by
  have hspans (start : Nat) :
      spansFrom false start [n] = [⟨.name n, start, start + n.length⟩] := by
    simp [spansFrom, component?_of_isEntryName hn]
  rw [pieces] at hp
  rw [parent?, spans, hp, spansFrom_append hne, hspans, ← List.append_assoc, List.reverse_append]
  simp only [List.reverse_singleton, List.singleton_append, reduceCtorEq, if_false,
    List.head?_reverse, List.getLast?_append]
  split_ifs <;> cases (spansFrom _ 0 before).getLast? <;> rfl

/-- Pieces without the blank ones at their end. -/
def dropBlanks (xs : List (List Char)) : List (List Char) := xs.rdropWhile fun x => IsBlank x

lemma exists_append_blanks (xs : List (List Char)) :
    ∃ blanks, xs = dropBlanks xs ++ blanks ∧ (∀ piece ∈ blanks, IsBlank piece) ∧
      (dropBlanks xs = [] ∨ ∃ init last, dropBlanks xs = init ++ [last] ∧ ¬ IsBlank last) := by
  induction xs using List.reverseRecOn with
  | nil => exact ⟨[], rfl, by simp, .inl rfl⟩
  | append_singleton xs x ih =>
    by_cases hx : IsBlank x
    · obtain ⟨blanks, hxs, hblanks, hkept⟩ := ih
      have hdrop : dropBlanks (xs ++ [x]) = dropBlanks xs :=
        List.rdropWhile_concat_pos _ _ _ (decide_eq_true hx)
      refine ⟨blanks ++ [x], ?_, ?_, hdrop ▸ hkept⟩
      · rw [hdrop, ← List.append_assoc, ← hxs]
      · simpa [or_imp, forall_and] using ⟨hblanks, hx⟩
    · have hdrop : dropBlanks (xs ++ [x]) = xs ++ [x] :=
        List.rdropWhile_concat_neg _ _ _ (by simpa using hx)
      exact ⟨[], by rw [hdrop, List.append_nil], by simp, .inr ⟨xs, x, hdrop, hx⟩⟩

/-- Pieces of a directory without the blank ones at their end; the first one stays. -/
def trim : List (List Char) → List (List Char)
  | [] => []
  | x :: xs => x :: dropBlanks xs

lemma exists_trim_append (xs : List (List Char)) :
    ∃ blanks, xs = trim xs ++ blanks ∧ ∀ piece ∈ blanks, IsBlank piece := by
  cases xs with
  | nil => exact ⟨[], rfl, by simp⟩
  | cons x xs =>
    obtain ⟨blanks, hxs, hblanks, -⟩ := exists_append_blanks xs
    exact ⟨blanks, congrArg (x :: ·) hxs, hblanks⟩

lemma trim_concat {x : List Char} (hx : ¬ IsBlank x) (xs : List (List Char)) :
    trim (xs ++ [x]) = xs ++ [x] := by
  cases xs with
  | nil => rfl
  | cons y ys =>
    rw [List.cons_append, trim, dropBlanks, List.rdropWhile_concat_neg _ _ _ (by simpa using hx)]

lemma getLast?_spansFrom_blanks {start : Nat} (hxs : xs ≠ []) (hys : ∀ piece ∈ ys, IsBlank piece) :
    (spansFrom opening start (xs ++ ys)).getLast? = (spansFrom opening start xs).getLast? := by
  rw [spansFrom_append hxs, spansFrom_of_forall_isBlank hys, List.append_nil]

/-- Pieces end where the component of the last one does. -/
lemma getLast?_spansFrom_concat {x : List Char} (hx : x ≠ [])
    (hblank : xs = [] ∧ opening = true ∨ x ≠ ['.']) :
    ∃ c start, (spansFrom opening 0 (xs ++ [x])).getLast? =
      some ⟨c, start, (['/'].intercalate (xs ++ [x])).length⟩ := by
  have hcomponent (opening : Bool) (h : opening = true ∨ x ≠ ['.']) :
      ∃ c, component? opening x = some c := by
    rw [component?, if_neg hx]
    split_ifs <;> simp_all
  rw [length_intercalate_concat]
  cases xs with
  | nil =>
    obtain ⟨c, hc⟩ := hcomponent opening (hblank.imp_left And.right)
    exact ⟨c, 0, by simp [spansFrom, hc, slashedLength]⟩
  | cons x' xs =>
    obtain ⟨c, hc⟩ := hcomponent false (.inr (hblank.resolve_left (by simp)))
    rw [spansFrom_append (by simp)]
    exact ⟨c, slashedLength (x' :: xs), by simp [spansFrom, hc]⟩

lemma getLast?_intercalate_concat {x : List Char} (hx : x ≠ []) (xs : List (List Char)) :
    (['/'].intercalate (xs ++ [x])).getLast? = x.getLast? := by
  cases xs with
  | nil => simp
  | cons x' xs =>
    rw [intercalate_append (by simp) (by simp), List.intercalate_singleton, List.getLast?_append,
      List.getLast?_cons]
    simp [List.getLast?_eq_some_getLast hx]

/-- The directory that a path is in, by the pieces before the name that it ends in: blank ones at
their end do not belong to it. -/
lemma exists_parent? (hp : p.pieces = before ++ [n]) (hn : IsEntryName n) (hne : before ≠ []) :
    ∃ q, p.parent? = some q ∧
      (trim before = [[]] ∧ q.chars = ['/'] ∨
        q.chars = ['/'].intercalate (trim before) ∧ q.chars ≠ [] ∧
          q.chars.getLast? ≠ some '/') := by
  obtain ⟨first, rest, rfl⟩ := List.exists_cons_of_ne_nil hne
  obtain ⟨blanks, hrest, hblanks, hkept⟩ := exists_append_blanks rest
  rw [trim]
  generalize dropBlanks rest = kept at hrest hkept ⊢
  subst hrest
  have hparent := parent?_of_pieces hp hn (by simp)
  have hfirst := isAbsolute_iff hp (by simp)
  rw [← List.cons_append, getLast?_spansFrom_blanks (by simp) hblanks] at hparent
  refine ⟨_, hparent, ?_⟩
  by_cases hroot : first = [] ∧ kept = []
  · obtain ⟨rfl, rfl⟩ := hroot
    obtain ⟨rest, hrest⟩ := List.head?_eq_some_iff.mp (of_decide_eq_true (hfirst.mpr rfl))
    exact .inl ⟨rfl, by simp [hfirst.mpr rfl, spansFrom, component?, hrest]⟩
  -- the last of the pieces that are kept has a component, at whose end the directory ends
  have hlast : ∃ init last, first :: kept = init ++ [last] ∧ last ≠ [] ∧
      (init = [] ∧ (!p.isAbsolute) = true ∨ last ≠ ['.']) := by
    rcases hkept with rfl | ⟨init, last, rfl, hlast⟩
    · have hne : first ≠ [] := fun h => hroot ⟨h, rfl⟩
      exact ⟨[], first, rfl, hne, .inl ⟨rfl, by simpa using mt hfirst.mp hne⟩⟩
    · rw [IsBlank, not_or] at hlast
      exact ⟨first :: init, last, rfl, hlast.1, .inr hlast.2⟩
  obtain ⟨init, last, heq, hne, hblank⟩ := hlast
  have hmem : last ∈ first :: (kept ++ blanks) := by
    rw [← List.cons_append, heq]
    simp
  have hslash : '/' ∉ last := slash_notMem_of_mem_pieces (hp ▸ List.mem_append_left [n] hmem)
  obtain ⟨c, start, hspan⟩ := getLast?_spansFrom_concat hne hblank
  have htake := take_chars (show p.pieces = (first :: kept) ++ (blanks ++ [n]) by simpa using hp)
    (by simp) (by simp)
  rw [heq] at htake ⊢
  simp only [hspan, Option.some_or, Option.elim_some, htake]
  refine .inr ⟨trivial, ?_, ?_⟩
  · intro hnil
    have hempty := getLast?_intercalate_concat hne init
    simp [hnil, List.getLast?_eq_some_getLast hne] at hempty
  · rw [getLast?_intercalate_concat hne]
    exact fun h => hslash (List.mem_of_getLast? h)

/-- A name comes after the pieces of a directory that does not end in a slash. -/
lemma pieces_child (hm : IsEntryName m) {kept : List (List Char)} (hkept : kept ≠ [])
    (hslash : ∀ piece ∈ kept, '/' ∉ piece)
    (hq : kept = [[]] ∧ q.chars = ['/'] ∨
      q.chars = ['/'].intercalate kept ∧ q.chars ≠ [] ∧ q.chars.getLast? ≠ some '/') :
    (q.child m).pieces = kept ++ [m] := by
  have hchars : (q.child m).chars = ['/'].intercalate (kept ++ [m]) := by
    rcases hq with ⟨rfl, hq⟩ | ⟨hq, hnil, hlast⟩
    · have hrelative : (⟨m⟩ : Path).isAbsolute = false := by simpa [isAbsolute] using hm.head?_ne
      simp [child, join, hrelative, hq]
    · rcases chars_child hm q with ⟨start, hstart, -⟩ | ⟨hq, -⟩ | ⟨-, hchild⟩
      · simp [hstart] at hlast
      · exact absurd hq hnil
      · rw [hchild, hq, intercalate_append hkept (by simp), List.intercalate_singleton]
  rw [pieces, hchars, List.splitOn_intercalate '/' ?_ (by simp)]
  simpa [or_imp, forall_and] using ⟨hslash, hm.slash_notMem⟩

/-- Exchanging the name that a path ends in keeps the pieces before it, without blank ones at their
end. -/
theorem pieces_withFileName (hp : p.pieces = before ++ [n]) (hn : IsEntryName n)
    (hm : IsEntryName m) :
    (p.withFileName m).pieces = trim before ++ [m] ∧
      (p.withFileName m).isAbsolute = p.isAbsolute := by
  rw [withFileName, fileName?_of_pieces hp hn]
  by_cases hne : before = []
  · subst hne
    have hchars : p.chars = n := by
      rw [← intercalate_pieces p, hp, List.nil_append, List.intercalate_singleton]
    have habsolute (q : Path) {n : Name} (hn : IsEntryName n) (hq : q.chars = n) :
        q.isAbsolute = false := by
      simpa [isAbsolute, hq] using hn.head?_ne
    have hparent : p.parent? = some ⟨[]⟩ := by
      rw [pieces, List.nil_append] at hp
      rw [parent?, spans, habsolute p hn hchars, hp]
      simp [spansFrom, component?_of_isEntryName hn]
    have hchild : ((Path.mk []).child m).chars = m := by
      rw [child, join, habsolute ⟨m⟩ hm rfl]
      rfl
    simp only [hparent]
    refine ⟨?_, ?_⟩
    · rw [pieces, hchild, List.splitOn_eq_singleton hm.slash_notMem]
      rfl
    · rw [habsolute _ hm hchild, habsolute p hn hchars]
  · obtain ⟨q, hparent, hq⟩ := exists_parent? hp hn hne
    obtain ⟨first, rest, rfl⟩ := List.exists_cons_of_ne_nil hne
    obtain ⟨blanks, htrim, -⟩ := exists_trim_append (first :: rest)
    have hslash (x : List Char) (hx : x ∈ trim (first :: rest)) : '/' ∉ x := by
      refine slash_notMem_of_mem_pieces (p := p) ?_
      rw [hp, htrim]
      simp [hx]
    have hpieces := pieces_child hm (List.cons_ne_nil _ _) hslash hq
    simp only [hparent]
    refine ⟨hpieces, ?_⟩
    rw [Bool.eq_iff_iff, isAbsolute_iff hpieces (by simp), isAbsolute_iff hp (by simp)]

lemma fileName?_withFileName (hm : IsEntryName m) (p : Path) :
    (p.withFileName m).fileName? = some m := by
  rw [withFileName]
  split <;> exact fileName?_child hm _

lemma getLast?_components (h : p.fileName? = some n) :
    p.components.getLast? = some (.name n) := by
  rw [fileName?] at h
  split at h
  next m hm => rw [hm, Option.some.inj h]
  next => simp at h

lemma exists_parent?_of_fileName? (h : p.fileName? = some n) : ∃ dir, p.parent? = some dir := by
  have hlast := getLast?_components h
  rw [components, List.getLast?_map, ← List.head?_reverse] at hlast
  obtain ⟨last, hhead, hname⟩ := Option.map_eq_some_iff.mp hlast
  obtain ⟨before, hbefore⟩ := List.head?_eq_some_iff.mp hhead
  rw [parent?, hbefore]
  simp [hname]

/-- A path that ends in a name has it in its last piece that is not blank. -/
lemma exists_pieces_of_fileName? (h : p.fileName? = some n) :
    ∃ before blanks, p.pieces = before ++ [n] ++ blanks ∧ ∀ piece ∈ blanks, IsBlank piece := by
  have hlastOf := getLast?_components h
  obtain ⟨blanks, hpieces, hblanks, hkept⟩ := exists_append_blanks p.pieces
  generalize dropBlanks p.pieces = kept at hpieces hkept
  rcases hkept with rfl | ⟨init, last, rfl, hlast⟩
  · have hmem : n ∈ p.names :=
      List.mem_filterMap.mpr ⟨.name n, List.mem_of_getLast? hlastOf, rfl⟩
    rw [names_eq, hpieces, List.nil_append, entryNames_of_forall_isBlank hblanks] at hmem
    simp at hmem
  · refine ⟨init, blanks, ?_, hblanks⟩
    rw [IsBlank, not_or] at hlast
    have hcomponent (opening : Bool) : ∃ c, component? opening last = some c := by
      rw [component?, if_neg hlast.1, if_neg hlast.2]
      split_ifs <;> simp
    rw [components_eq, hpieces, componentsFrom_append (by simp),
      componentsFrom_of_forall_isBlank hblanks, List.append_nil, List.getLast?_append] at hlastOf
    cases init with
    | nil =>
      obtain ⟨c, hc⟩ := hcomponent (!p.isAbsolute)
      simp only [List.nil_append, componentsFrom, hc] at hlastOf
      obtain rfl : c = .name n := by simpa using hlastOf
      rw [hpieces, (component?_eq_some_name hc).1]
    | cons x xs =>
      obtain ⟨c, hc⟩ := hcomponent false
      rw [componentsFrom_append (by simp)] at hlastOf
      simp only [componentsFrom, hc, List.getLast?_append] at hlastOf
      obtain rfl : c = .name n := by simpa using hlastOf
      rw [hpieces, (component?_eq_some_name hc).1]

lemma stop_lt_of_mem_spansFrom {start : Nat} {s : Span} (h : s ∈ spansFrom opening start xs) :
    s.stop < start + slashedLength xs := by
  induction xs generalizing opening start with
  | nil => simp [spansFrom] at h
  | cons piece xs ih =>
    rw [spansFrom, List.mem_append] at h
    rw [slashedLength, List.map_cons, List.sum_cons, ← slashedLength]
    rcases h with h | h
    · obtain ⟨c, -, rfl⟩ := Option.map_eq_some_iff.mp (Option.mem_toList.mp h)
      simp only
      omega
    · have := ih h
      omega

lemma slashedLength_pieces (p : Path) : slashedLength p.pieces = p.chars.length + 1 := by
  obtain ⟨init, last, hpieces⟩ := (List.eq_nil_or_concat' p.pieces).resolve_left p.pieces_ne_nil
  have hlength := congrArg List.length (intercalate_pieces p)
  rw [hpieces, length_intercalate_concat] at hlength
  rw [hpieces, ← hlength]
  simp [slashedLength, Nat.add_assoc]

/-- Components end within the path. -/
lemma stop_le_of_mem_spans {s : Span} (hs : s ∈ p.spans) : s.stop ≤ p.chars.length := by
  rw [spans, List.mem_append] at hs
  rcases hs with hs | hs
  · split_ifs at hs with habsolute
    · rw [List.mem_singleton.mp hs]
      refine List.length_pos_of_ne_nil fun hnil => ?_
      simp [isAbsolute, hnil] at habsolute
    · simp at hs
  · have hstop := stop_lt_of_mem_spansFrom hs
    rw [← pieces, slashedLength_pieces] at hstop
    omega

/-- The directory of a path is given by where the components are, whatever comes after them. -/
lemma parent?_eq_of_spans {rest : List Char} (hspans : q.spans = p.spans)
    (hrest : p.chars = q.chars ++ rest) : q.parent? = p.parent? := by
  rw [parent?, parent?, hspans]
  split
  · rfl
  next last before hreverse =>
    split_ifs
    · rfl
    · congr 2
      rw [hrest, List.take_append_of_le_length]
      cases before with
      | nil => simp
      | cons s before =>
        refine stop_le_of_mem_spans ?_
        rw [hspans, ← List.mem_reverse, hreverse]
        simp

lemma spans_eq_of_append_blanks (hq : q.pieces = xs) (hp : p.pieces = xs ++ ys) (hxs : xs ≠ [])
    (hblanks : ∀ piece ∈ ys, IsBlank piece) (habsolute : q.isAbsolute = p.isAbsolute) :
    q.spans = p.spans := by
  rw [pieces] at hp hq
  rw [spans, spans, habsolute, hp, hq, spansFrom_append hxs, spansFrom_of_forall_isBlank hblanks,
    List.append_nil]

/-- Blank pieces at the end do not matter for the name that a path ends in, nor for what exchanging
it gives. -/
lemma withFileName_append_blanks (hp : p.pieces = before ++ [n] ++ ys)
    (hblanks : ∀ piece ∈ ys, IsBlank piece) (hn : IsEntryName n) :
    ∃ q : Path, q.pieces = before ++ [n] ∧ q.components = p.components ∧
      q.withFileName m = p.withFileName m := by
  have hslash (x : List Char) (hx : x ∈ before ++ [n]) : '/' ∉ x :=
    slash_notMem_of_mem_pieces (p := p) (by rw [hp]; exact List.mem_append_left _ hx)
  set q : Path := ⟨['/'].intercalate (before ++ [n])⟩
  have hqpieces : q.pieces = before ++ [n] := pieces_intercalate (by simp) hslash
  obtain ⟨rest, hrest⟩ : ∃ rest, p.chars = q.chars ++ rest := by
    by_cases hys : ys = []
    · exact ⟨[], by rw [← intercalate_pieces p, hp, hys, List.append_nil, List.append_nil]⟩
    · exact ⟨_, by rw [← intercalate_pieces p, hp, intercalate_append (by simp) hys]⟩
  have habsolute : q.isAbsolute = p.isAbsolute := by
    obtain ⟨c, chars, hchars⟩ := List.exists_cons_of_ne_nil (chars_ne_nil_of_pieces hqpieces hn)
    simp [isAbsolute, hrest, hchars]
  have hspans : q.spans = p.spans :=
    spans_eq_of_append_blanks hqpieces hp (List.concat_ne_nil n before) hblanks habsolute
  have hcomponents : q.components = p.components := by rw [components, components, hspans]
  have hname : q.fileName? = p.fileName? := by rw [fileName?, fileName?, hcomponents]
  have hqname := fileName?_of_pieces hqpieces hn
  obtain ⟨dir, hdir⟩ := exists_parent?_of_fileName? hqname
  refine ⟨q, hqpieces, hcomponents, ?_⟩
  rw [withFileName, withFileName, ← hname, ← parent?_eq_of_spans hspans hrest, hqname, hdir]

lemma componentsFrom_concat (hn : IsEntryName n) (opening : Bool) (xs : List (List Char)) :
    componentsFrom opening (xs ++ [n]) = componentsFrom opening xs ++ [.name n] := by
  have hname (opening : Bool) : componentsFrom opening [n] = [.name n] := by
    simp [componentsFrom, component?_of_isEntryName hn]
  cases xs with
  | nil => exact hname opening
  | cons x xs => rw [componentsFrom_append (List.cons_ne_nil _ _), hname]

lemma componentsFrom_trim (opening : Bool) (xs : List (List Char)) :
    componentsFrom opening (trim xs) = componentsFrom opening xs := by
  cases xs with
  | nil => rfl
  | cons x xs =>
    obtain ⟨blanks, hxs, hblanks⟩ := exists_trim_append (x :: xs)
    have hne : trim (x :: xs) ≠ [] := List.cons_ne_nil _ _
    nth_rewrite 2 [hxs]
    rw [componentsFrom_append hne, componentsFrom_of_forall_isBlank hblanks, List.append_nil]

/-- Exchanging the name that a path ends in exchanges its last component. -/
theorem components_withFileName (h : p.fileName? = some n) (hm : IsEntryName m) :
    ∃ dir, p.components = dir ++ [.name n] ∧ (p.withFileName m).components = dir ++ [.name m] := by
  have hn := isEntryName_of_fileName? h
  obtain ⟨before, blanks, hpieces, hblanks⟩ := exists_pieces_of_fileName? h
  obtain ⟨q, hq, hcomponents, hwith⟩ := withFileName_append_blanks (m := m) hpieces hblanks hn
  obtain ⟨hpieces', habsolute⟩ := pieces_withFileName hq hn hm
  rw [← hcomponents, ← hwith, components_eq, components_eq (q.withFileName m), hq, hpieces',
    habsolute, componentsFrom_concat hn, componentsFrom_concat hm, componentsFrom_trim,
    ← List.append_assoc, ← List.append_assoc]
  exact ⟨_, rfl, rfl⟩

/-! ### Joining -/

/-- The pieces of a path, without the empty one after a slash at its end. -/
def base (p : Path) : List (List Char) :=
  if p.chars.getLast? = some '/' then p.pieces.dropLast else p.pieces

lemma exists_base_append (p : Path) :
    ∃ blanks, p.pieces = p.base ++ blanks ∧ ∀ piece ∈ blanks, IsBlank piece := by
  rw [base]
  split_ifs with hlast
  · obtain ⟨start, hstart⟩ := List.getLast?_eq_some_iff.mp hlast
    have hpieces : p.pieces = start.splitOn '/' ++ [[]] := by
      rw [pieces, hstart, List.splitOn_append_cons_self, List.splitOn_nil]
    exact ⟨[[]], by rw [hpieces, List.dropLast_concat], by simp [IsBlank]⟩
  · exact ⟨[], by rw [List.append_nil], by simp⟩

lemma base_ne_nil (p : Path) : p.base ≠ [] := by
  rw [base]
  split_ifs with hlast
  · obtain ⟨start, hstart⟩ := List.getLast?_eq_some_iff.mp hlast
    rw [pieces, hstart, List.splitOn_append_cons_self, List.splitOn_nil, List.dropLast_concat]
    exact List.splitOn_ne_nil _ _
  · exact p.pieces_ne_nil

/-- A relative path adds its pieces. -/
theorem pieces_join (hq : q.isAbsolute = false) (hp : p.chars ≠ []) :
    (p.join q).pieces = p.base ++ q.pieces := by
  rw [base]
  split_ifs with hlast
  · obtain ⟨start, hstart⟩ := List.getLast?_eq_some_iff.mp hlast
    have hjoin : p.join q = ⟨p.chars ++ q.chars⟩ := by simp [join, hq, hlast]
    rw [hjoin, pieces, pieces, hstart, List.append_assoc, List.singleton_append,
      List.splitOn_append_cons_self, List.splitOn_append_cons_self, List.splitOn_nil,
      List.dropLast_concat, pieces]
  · have hjoin : p.join q = ⟨p.chars ++ '/' :: q.chars⟩ := by simp [join, hq, hp, hlast]
    rw [hjoin, pieces, List.splitOn_append_cons_self, pieces, pieces]

lemma isAbsolute_join (hq : q.isAbsolute = false) (hp : p.chars ≠ []) :
    (p.join q).isAbsolute = p.isAbsolute := by
  obtain ⟨c, rest, hchars⟩ := List.exists_cons_of_ne_nil hp
  rw [join, hq, if_neg Bool.false_ne_true, isAbsolute, isAbsolute]
  split_ifs <;> simp [hchars]

/-- What is joined to an absolute path is absolute. -/
lemma isAbsolute_join_of_isAbsolute (hp : p.isAbsolute = true) (q : Path) :
    (p.join q).isAbsolute = true := by
  cases hq : q.isAbsolute with
  | true => rwa [join, if_pos hq]
  | false =>
    have hne : p.chars ≠ [] := by
      intro hnil
      simp [isAbsolute, hnil] at hp
    rwa [isAbsolute_join hq hne]

lemma componentsFrom_base (opening : Bool) (p : Path) :
    componentsFrom opening p.base = componentsFrom opening p.pieces := by
  obtain ⟨blanks, hpieces, hblanks⟩ := p.exists_base_append
  rw [hpieces, componentsFrom_append p.base_ne_nil, componentsFrom_of_forall_isBlank hblanks,
    List.append_nil]

/-- A relative path adds its components; a `.` at its start does not count any more. -/
theorem components_join (hq : q.isAbsolute = false) (hp : p.chars ≠ []) :
    (p.join q).components = p.components ++ componentsFrom false q.pieces := by
  rw [components_eq, components_eq p, isAbsolute_join hq hp, pieces_join hq hp,
    componentsFrom_append p.base_ne_nil, componentsFrom_base, List.append_assoc]

lemma isAbsolute_of_slash_notMem (h : '/' ∉ q.chars) : q.isAbsolute = false := by
  rw [isAbsolute, decide_eq_false_iff_not]
  exact fun hhead => h (List.mem_of_mem_head? hhead)

/-- Adding a name adds a component. -/
lemma components_child (hm : IsEntryName m) (hp : p.chars ≠ []) :
    (p.child m).components = p.components ++ [.name m] := by
  have hpieces : (⟨m⟩ : Path).pieces = [m] := List.splitOn_eq_singleton hm.slash_notMem
  rw [child, components_join (isAbsolute_of_slash_notMem hm.slash_notMem) hp, hpieces]
  simp [componentsFrom, component?_of_isEntryName hm]

lemma pieces_child_eq (hm : IsEntryName m) (hp : p.chars ≠ []) :
    (p.child m).pieces = p.base ++ [m] := by
  have hpieces : (⟨m⟩ : Path).pieces = [m] := List.splitOn_eq_singleton hm.slash_notMem
  rw [child, pieces_join (isAbsolute_of_slash_notMem hm.slash_notMem) hp, hpieces]

/-- What is added to a path is its last piece. -/
lemma getLast?_pieces_child (hslash : '/' ∉ m) (hp : p.chars ≠ []) :
    (p.child m).pieces.getLast? = some m := by
  have hpieces : (⟨m⟩ : Path).pieces = [m] := List.splitOn_eq_singleton hslash
  rw [child, pieces_join (isAbsolute_of_slash_notMem hslash) hp, hpieces, List.getLast?_concat]

/-- The name that is put at the end of a path is its last piece. -/
lemma getLast?_pieces_withFileName (hm : IsEntryName m) (p : Path) :
    (p.withFileName m).pieces.getLast? = some m := by
  have hchild (p : Path) : (p.child m).pieces.getLast? = some m := by
    by_cases hp : p.chars = []
    · obtain ⟨chars⟩ := p
      obtain rfl : chars = [] := hp
      have hself : (⟨[]⟩ : Path).child m = ⟨m⟩ := by
        simp [child, join, isAbsolute_of_slash_notMem hm.slash_notMem]
      rw [hself, pieces, List.splitOn_eq_singleton hm.slash_notMem]
      rfl
    · exact getLast?_pieces_child hm.slash_notMem hp
  rw [withFileName]
  split <;> exact hchild _

lemma stop_pos_of_mem_spansFrom {start : Nat} {s : Span} (h : s ∈ spansFrom opening start xs) :
    0 < s.stop := by
  induction xs generalizing opening start with
  | nil => simp [spansFrom] at h
  | cons piece xs ih =>
    rw [spansFrom, List.mem_append] at h
    rcases h with h | h
    · rw [Option.mem_toList, Option.map_eq_some_iff] at h
      obtain ⟨c, hc, rfl⟩ := h
      have hne : piece ≠ [] := by
        rintro rfl
        simp [component?] at hc
      exact Nat.add_pos_right _ (List.length_pos_iff.mpr hne)
    · exact ih h

/-- The directory of an absolute path is absolute. -/
lemma isAbsolute_of_parent? (hp : p.isAbsolute = true) (hq : p.parent? = some q) :
    q.isAbsolute = true := by
  have hspans : p.spans = ⟨.root, 0, 1⟩ :: spansFrom (!p.isAbsolute) 0 p.pieces := by
    rw [spans, if_pos hp]
    rfl
  rw [parent?, hspans] at hq
  rcases List.eq_nil_or_concat' (spansFrom (!p.isAbsolute) 0 p.pieces) with
    hnil | ⟨init, last, hlast⟩
  · simp [hnil] at hq
  rw [hlast, List.reverse_cons, List.reverse_concat, List.cons_append] at hq
  simp only at hq
  split_ifs at hq
  obtain rfl := Option.some.inj hq
  obtain ⟨s, hs⟩ : ∃ s, (init.reverse ++ [⟨.root, 0, 1⟩] : List Span).head? = some s := by
    cases init.reverse <;> exact ⟨_, rfl⟩
  have hstop : s.stop ≠ 0 := by
    rcases List.mem_append.mp (List.mem_of_mem_head? hs) with hmem | hmem
    · have hinit : s ∈ spansFrom (!p.isAbsolute) 0 p.pieces := by
        rw [hlast]
        exact List.mem_append_left _ (List.mem_reverse.mp hmem)
      exact (stop_pos_of_mem_spansFrom hinit).ne'
    · rw [List.mem_singleton.mp hmem]
      exact Nat.one_ne_zero
  rw [isAbsolute, hs, Option.map_some, Option.getD_some, List.head?_take, if_neg hstop]
  exact hp

/-- A path stays absolute when the name that it ends in is exchanged, or one is added. -/
lemma isAbsolute_withFileName (hp : p.isAbsolute = true) (m : List Char) :
    (p.withFileName m).isAbsolute = true := by
  rw [withFileName]
  split
  next hparent => exact isAbsolute_join_of_isAbsolute (isAbsolute_of_parent? hp hparent) _
  next => exact isAbsolute_join_of_isAbsolute hp _

/-- A path stays plain when the name that it ends in is exchanged, or one is added. -/
theorem IsPlain.withFileName (h : p.IsPlain) (hm : IsEntryName m) : (p.withFileName m).IsPlain := by
  have habsolute := root_mem_components.mpr h.isAbsolute
  have hparent := h.parent_notMem
  cases hname : p.fileName? with
  | none =>
    have hne := h.chars_ne_nil
    rw [Path.withFileName, hname]
    refine ⟨root_mem_components.mp ?_, ?_⟩ <;> rw [components_child hm hne] <;> simp_all
  | some n =>
    obtain ⟨dir, hcomponents, hcomponents'⟩ := components_withFileName hname hm
    rw [hcomponents] at habsolute hparent
    refine ⟨root_mem_components.mp ?_, ?_⟩ <;> rw [hcomponents'] <;> simp_all

end Path
end ConstPromotion
