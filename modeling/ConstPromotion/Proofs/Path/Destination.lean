import ConstPromotion.Proofs.Path.Clean

/-!
# Where a path leads by its spelling

Followed piece by piece from the root, without looking at any file, an absolute path leads to its
`destination`. Cleaning keeps exactly that: the normal form of an absolute path spells its
destination (`cleanComponents_eq_destination`). The main statement, `clean_normalForm`, is that
cleaning is a normal form that can be taken before or after joining.
-/

namespace ConstPromotion.Path

variable {p q : Path}

/-- Where one more piece of a path leads: a blank one nowhere, `..` one step up unless it is at the
root, and a name to the entry below. -/
def stepTo (here : Location) (piece : List Char) : Location :=
  if IsBlank piece then here
  else if piece = ['.', '.'] then here.dropLast
  else here ++ [piece]

/-- Where an absolute path leads from the root, by its spelling alone. -/
def destination (p : Path) : Location := p.pieces.foldl stepTo []

/-- Cleaning goes the way of the pieces. -/
lemma foldl_cleanStep_pieces (here : Location) (xs : List (List Char)) :
    (componentsFrom false xs).foldl cleanStep (.root :: here.map .name).reverse =
      (.root :: (xs.foldl stepTo here).map .name).reverse := by
  induction xs generalizing here with
  | nil => rfl
  | cons x xs ih =>
    rw [componentsFrom, List.foldl_append, List.foldl_cons, stepTo]
    split_ifs with hblank hparent
    · rw [component?_of_isBlank hblank]
      exact ih here
    · subst hparent
      rw [← ih here.dropLast, ← cleanStep_parent here]
      rfl
    · have hcomponent : component? false x = some (.name x) := by
        rw [IsBlank, not_or] at hblank
        simp [component?, hblank, hparent]
      rw [hcomponent, Option.toList_some, List.foldl_cons, List.foldl_nil, cleanStep_name]
      exact ih (here ++ [x])

/-- The normal form of an absolute path spells its destination. -/
theorem cleanComponents_eq_destination (hp : p.isAbsolute = true) :
    cleanComponents p.components = .root :: p.destination.map .name := by
  rw [components_eq, hp, cleanComponents, List.foldl_append]
  exact List.reverse_eq_iff.mpr (foldl_cleanStep_pieces [] p.pieces)

lemma clean_eq_iff_destination (hp : p.isAbsolute = true) (hq : q.isAbsolute = true) :
    p.clean = q.clean ↔ p.destination = q.destination := by
  rw [clean_eq_iff, components_clean, components_clean, cleanComponents_eq_destination hp,
    cleanComponents_eq_destination hq, List.cons_inj_right, map_name_injective.eq_iff]

/-! ### Cleaning before and after joining -/

/-- Cleaning a path twice changes nothing more. -/
lemma clean_clean (p : Path) : p.clean.clean = p.clean := by
  rw [clean_eq_iff, components_clean, components_clean,
    (isClean_cleanComponents p).cleanComponents_eq]

/-- What a relative path adds to a directory is taken in after the directory is cleaned. -/
lemma cleanComponents_join_relative (hq : q.isAbsolute = false) (p : Path) :
    cleanComponents (p.join q).components =
      ((componentsFrom false q.pieces).foldl cleanStep
        (cleanComponents p.components).reverse).reverse := by
  by_cases hp : p.chars = []
  · obtain ⟨chars⟩ := p
    obtain rfl : chars = [] := hp
    have hjoin : join ⟨[]⟩ q = q := by simp [join, hq]
    rw [hjoin, cleanComponents_components hq]
    rfl
  · rw [components_join hq hp, cleanComponents, cleanComponents, List.foldl_append,
      List.reverse_reverse]

/-- A directory may be cleaned before a path is joined to it. -/
lemma clean_clean_join (p q : Path) : (p.clean.join q).clean = (p.join q).clean := by
  cases hq : q.isAbsolute with
  | true => rw [join_of_isAbsolute hq, join_of_isAbsolute hq]
  | false =>
    rw [clean_eq_iff, components_clean, components_clean, cleanComponents_join_relative hq,
      cleanComponents_join_relative hq, components_clean,
      (isClean_cleanComponents p).cleanComponents_eq]

/-! ### The normal form -/

/-- Components in normal form hold no `.`. -/
lemma IsClean.current_notMem {cs : List Component} (h : IsClean cs) : .current ∉ cs := by
  intro hmem
  rcases h.root_or_isStep hmem with hroot | hparent | ⟨n, hname, -⟩
  · cases hroot
  · cases hparent
  · cases hname

/-- In components in normal form, only steps up stand before a step up. -/
lemma IsClean.eq_parent_of_mem {lead rest : List Component} {c : Component}
    (h : IsClean (lead ++ .parent :: rest)) (hc : c ∈ lead) : c = .parent := by
  generalize hcs : lead ++ .parent :: rest = cs at h
  cases h with
  | absolute names hnames =>
    have hmem : Component.parent ∈ Component.root :: names.map .name := hcs ▸ by simp
    simp at hmem
  | relative ups names hnames =>
    rcases List.append_eq_append_iff.mp hcs with ⟨more, hups, -⟩ | ⟨more, -, hrest⟩
    · exact List.eq_of_mem_replicate (hups ▸ List.mem_append_left more hc)
    · have hmem : Component.parent ∈ names.map Component.name := by simp [hrest]
      simp at hmem

/-- Cleaning is a normal form. A cleaned path holds no `.`, and `..` only at its start and not after
the root; it stays as it is when it is cleaned again; a directory may be cleaned before a path is
joined to it; and two absolute paths have one normal form just if they have one destination. -/
theorem clean_normalForm (p q : Path) :
    (.current ∉ p.clean.components ∧
        ∀ lead rest, p.clean.components = lead ++ .parent :: rest → ∀ c ∈ lead, c = .parent) ∧
      p.clean.clean = p.clean ∧
      (p.clean.join q).clean = (p.join q).clean ∧
      (p.isAbsolute = true → q.isAbsolute = true →
        (p.clean = q.clean ↔ p.destination = q.destination)) := by
  have hnormal := isClean_cleanComponents p
  rw [← components_clean] at hnormal
  refine ⟨⟨hnormal.current_notMem, fun lead rest hsplit c hc => ?_⟩, clean_clean p,
    clean_clean_join p q, clean_eq_iff_destination⟩
  rw [hsplit] at hnormal
  exact hnormal.eq_parent_of_mem hc

/-- Two spellings that lead below the root, out of it and in again. -/
theorem clean_normalForm_roundabout :
    (ofString "/../a/./b/..").isAbsolute = true ∧ (ofString "//c/../../a").isAbsolute = true ∧
      (ofString "/../a/./b/..").clean = (ofString "//c/../../a").clean := by
  have hp : (ofString "/../a/./b/..").isAbsolute = true := by decide
  have hq : (ofString "//c/../../a").isAbsolute = true := by decide
  exact ⟨hp, hq, ((clean_normalForm _ _).2.2.2 hp hq).mpr (by decide)⟩

end ConstPromotion.Path
