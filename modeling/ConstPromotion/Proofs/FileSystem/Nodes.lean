import ConstPromotion.FileSystem.Basic
import ConstPromotion.Proofs.SortedMap

/-!
# Nodes of a file system

What putting and removing nodes does to the nodes at all locations. In a tree, everything that is
there lies in directories; what is made in a file system keeps what was there, and that relation of
two file systems is `Extends`.
-/

namespace ConstPromotion

namespace FileSystem

/-! ### Nodes -/

@[simp] lemma nodeAt_nil (fs : FileSystem) : fs.nodeAt [] = some .directory := by simp [nodeAt]

lemma nodeAt_put {l : Location} (hl : l ≠ []) (fs : FileSystem) (n : Node) (l' : Location) :
    (fs.put l n).nodeAt l' = if l = l' then some n else fs.nodeAt l' := by
  rw [nodeAt, nodeAt, put, SortedMap.get?_insert]
  by_cases hnil : l' = []
  · simp [hnil, hl]
  · simp [hnil]

@[simp] lemma nodeAt_put_self {l : Location} (hl : l ≠ []) (fs : FileSystem) (n : Node) :
    (fs.put l n).nodeAt l = some n := by
  rw [nodeAt_put hl, if_pos rfl]

lemma nodeAt_put_of_ne {l l' : Location} (hl : l ≠ []) (h : l ≠ l') (fs : FileSystem) (n : Node) :
    (fs.put l n).nodeAt l' = fs.nodeAt l' := by
  rw [nodeAt_put hl, if_neg h]

lemma mem_keys_of_nodeAt {fs : FileSystem} {l : Location} {n : Node} (hl : l ≠ [])
    (h : fs.nodeAt l = some n) : l ∈ fs.nodes.keys := by
  rw [nodeAt, if_neg hl] at h
  exact SortedMap.mem_keys_of_get? h

lemma mem_entries_of_nodeAt {fs : FileSystem} {l : Location} {n : Node} (hl : l ≠ [])
    (h : fs.nodeAt l = some n) : (l, n) ∈ fs.nodes.entries := by
  rw [nodeAt, if_neg hl] at h
  exact SortedMap.mem_entries_of_get? h

/-! ### Trees -/

/-- In a tree, everything but the root lies in a directory. -/
def IsTree (fs : FileSystem) : Prop :=
  ∀ (l : Location) (name : Name), fs.nodeAt (l ++ [name]) ≠ none → fs.nodeAt l = some .directory

/-- A file system is a tree if each of its entries is in a directory. -/
lemma isTree_of_forall {fs : FileSystem}
    (h : ∀ e ∈ fs.nodes.entries, fs.nodeAt e.1.dropLast = some .directory) : fs.IsTree := by
  intro l name hnode
  obtain ⟨node, hnode⟩ := Option.ne_none_iff_exists'.mp hnode
  simpa using h _ (mem_entries_of_nodeAt (List.concat_ne_nil name l) hnode)

/-- In a tree, nothing lies below a location that is no directory. -/
lemma IsTree.nodeAt_append {fs : FileSystem} (h : fs.IsTree) {l : Location}
    (hl : fs.nodeAt l ≠ some .directory) {below : Location} (hbelow : below ≠ []) :
    fs.nodeAt (l ++ below) = none := by
  induction below using List.reverseRecOn with
  | nil => exact absurd rfl hbelow
  | append_singleton below name ih =>
    by_contra hnode
    rw [← List.append_assoc] at hnode
    have hdir := h _ _ hnode
    cases below with
    | nil => exact hl (by simpa using hdir)
    | cons name below => simp [ih (List.cons_ne_nil _ _)] at hdir

/-! ### Extension -/

/-- The later file system has all that the earlier one has, where it was. -/
structure Extends (earlier later : FileSystem) : Prop where
  workingDir : later.workingDir = earlier.workingDir
  nodeAt : ∀ {l : Location} {n : Node}, earlier.nodeAt l = some n → later.nodeAt l = some n

namespace Extends

variable {fs fs' fs'' : FileSystem}

lemma refl (fs : FileSystem) : Extends fs fs := ⟨rfl, id⟩

lemma trans (h : Extends fs fs') (h' : Extends fs' fs'') : Extends fs fs'' :=
  ⟨h'.workingDir.trans h.workingDir, fun hn => h'.nodeAt (h.nodeAt hn)⟩

/-- A node at a free location adds to what is there. -/
lemma put {l : Location} (h : fs.nodeAt l = none) (n : Node) : Extends fs (fs.put l n) := by
  have hl : l ≠ [] := by
    rintro rfl
    simp at h
  refine ⟨rfl, fun {l' n'} hn => ?_⟩
  rw [nodeAt_put_of_ne hl ?_, hn]
  rintro rfl
  simp [h] at hn

end Extends

end FileSystem
end ConstPromotion
