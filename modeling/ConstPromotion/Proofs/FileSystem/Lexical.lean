import ConstPromotion.Proofs.FileSystem.Entries
import ConstPromotion.Proofs.Path.Clean

/-!
# Paths and their lexical normal forms

Without links, stepping up by `..` undoes the step before it. So a path leads where its lexical
normal form spells, `..` or not (`components_clean_of_find`), and two paths to one file have the
same normal form.
-/

namespace ConstPromotion.FileSystem

variable {fs : FileSystem} {ending : Ending} {l here : Location} {p q : Path} {n : Name}
  {pieces : List (List Char)} {node node' : Node}

lemma IsStep.component?_eq {piece : List Char} {rest : List (List Char)}
    (h : IsStep ending piece rest) : Path.component? false piece = some (.name piece) := by
  have hne := h.ne_blank
  rw [not_or] at hne
  simp [Path.component?, hne, h.ne_parent]

/-- Cleaning the components of pieces goes the way that the pieces lead. -/
lemma Follows.foldl_cleanStep {links : Nat} {place : Place}
    (h : fs.Follows ending links here pieces place) (hlinks : fs.IsLinkFree [])
    (hplace : place = .found l node) :
    (Path.componentsFrom false pieces).foldl Path.cleanStep (.root :: here.map .name).reverse =
      (.root :: l.map .name).reverse := by
  induction h with
  | here =>
    obtain ⟨rfl, -⟩ := Place.found.inj hplace
    rfl
  | blank hpiece _ ih =>
    rw [Path.componentsFrom, List.foldl_append, Path.component?_of_isBlank hpiece]
    exact ih hplace
  | @parent _ here _ _ _ ih =>
    rw [Path.componentsFrom, List.foldl_append, ← ih hplace, ← Path.cleanStep_parent here]
    rfl
  | free => simp at hplace
  | directory hstep _ _ ih =>
    rw [Path.componentsFrom, List.foldl_append, hstep.component?_eq, Option.toList_some,
      List.foldl_cons, List.foldl_nil, Path.cleanStep_name]
    exact ih hplace
  | file hstep =>
    obtain ⟨rfl, -⟩ := Place.found.inj hplace
    rw [Path.componentsFrom, List.foldl_append, hstep.component?_eq, Option.toList_some,
      List.foldl_cons, List.foldl_nil, Path.cleanStep_name]
    rfl
  | link _ hnode | follow _ hnode => exact absurd hnode (hlinks _ _)

/-- Without links, an absolute path leads where its normal form spells. -/
theorem components_clean_of_find (hlinks : fs.IsLinkFree []) (hp : p.isAbsolute = true)
    (h : fs.find p = .ok (l, node)) : p.clean.components = .root :: l.map .name := by
  have hfollow := followPieces_of_isAbsolute hp (find_eq_ok_iff.mp h)
  have hfold := (followPieces_eq_ok_iff.mp hfollow).foldl_cleanStep hlinks rfl
  rw [Path.components_clean, Path.components_eq, if_pos hp, hp, Path.cleanComponents]
  simpa [Path.cleanStep] using congrArg List.reverse hfold

/-- Without links, absolute paths to one place have the same normal form. -/
lemma clean_eq_of_find (hlinks : fs.IsLinkFree []) (hp : p.isAbsolute = true)
    (hq : q.isAbsolute = true) (hpl : fs.find p = .ok (l, node))
    (hql : fs.find q = .ok (l, node')) : p.clean = q.clean := by
  rw [Path.clean_eq_iff, components_clean_of_find hlinks hp hpl,
    components_clean_of_find hlinks hq hql]

end ConstPromotion.FileSystem
