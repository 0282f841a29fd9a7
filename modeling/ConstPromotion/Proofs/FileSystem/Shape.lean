import ConstPromotion.Proofs.FileSystem.Following

/-!
# The shape of a file system

What a path leads to depends on which names there are and what kind of node they have, and not on
the contents of files (`resolve_shape`). So a file system that only has more nodes than an earlier
one, or other contents (`Grows`), still has everything where it was (`Grows.find`), and overwriting a
file moves nothing at all (`shape_put_file`).
-/

namespace ConstPromotion

namespace SortedMap

variable {κ α β : Type} [LT κ] [DecidableEq κ]

/-- Changes the values of all keys. -/
def mapValues (f : α → β) (m : SortedMap κ α) : SortedMap κ β :=
  ⟨m.entries.map fun e => (e.1, f e.2), by simpa [List.pairwise_map] using m.sorted⟩

lemma get?_mapValues (f : α → β) (m : SortedMap κ α) (k : κ) :
    (m.mapValues f).get? k = (m.get? k).map f := by
  rw [get?, get?, mapValues, List.find?_map, Option.map_map, Option.map_map]
  rfl

end SortedMap

/-- A node without the content it may have. -/
def Node.shape : Node → Node
  | .file _ _ => .file [] false
  | n => n

@[simp] lemma Node.shape_file (content : Bytes) (executable : Bool) :
    (Node.file content executable).shape = .file [] false := rfl

@[simp] lemma Node.shape_directory : Node.directory.shape = .directory := rfl

@[simp] lemma Node.shape_eq_directory {n : Node} : n.shape = .directory ↔ n = .directory := by
  cases n <;> simp [Node.shape]

@[simp] lemma Node.shape_eq_link {n : Node} {target : List Char} :
    n.shape = .link target ↔ n = .link target := by
  cases n <;> simp [Node.shape]

lemma Node.shape_eq_file {n : Node} {content : Bytes} {executable : Bool}
    (h : n.shape = (Node.file content executable).shape) :
    ∃ content' executable', n = .file content' executable' := by
  cases n <;> simp_all [Node.shape]

/-- A place without the content that may lie there. -/
def Place.shape : Place → Place
  | .found l n => .found l n.shape
  | .free l => .free l

namespace FileSystem

/-- A file system without the contents of its files. -/
def shape (fs : FileSystem) : FileSystem := { fs with nodes := fs.nodes.mapValues Node.shape }

variable {fs fs' fs'' : FileSystem} {ending : Ending} {l here : Location}
  {pieces : List (List Char)} {p : Path}

@[simp] lemma nodeAt_shape (fs : FileSystem) (l : Location) :
    fs.shape.nodeAt l = (fs.nodeAt l).map Node.shape := by
  rw [nodeAt, nodeAt, shape, SortedMap.get?_mapValues]
  split_ifs <;> rfl

/-! ### Following -/

lemma followWith_shape {onLink onLink' : Location → List Char → List (List Char) → Except OsError Place}
    (hlink : ∀ here target rest, onLink' here target rest = (onLink here target rest).map Place.shape) :
    fs.shape.followWith ending onLink' here pieces =
      (fs.followWith ending onLink here pieces).map Place.shape := by
  induction pieces generalizing here with
  | nil => rfl
  | cons piece rest ih =>
    simp only [followWith, nodeAt_shape]
    by_cases hblank : piece = [] ∨ piece = ['.']
    · simpa only [if_pos hblank] using ih
    by_cases hparent : piece = ['.', '.']
    · simpa only [if_neg hblank, if_pos hparent] using ih
    by_cases hslash : ending = .file ∧ rest ≠ [] ∧ rest.all (· = [])
    · simp only [if_neg hblank, if_neg hparent, if_pos hslash]
      rfl
    by_cases hsize : Utf8.size piece > maxNameBytes
    · simp only [if_neg hblank, if_neg hparent, if_neg hslash, if_pos hsize]
      rfl
    simp only [if_neg hblank, if_neg hparent, if_neg hslash, if_neg hsize]
    cases fs.nodeAt (here ++ [piece]) with
    | none =>
      simp only [Option.map_none]
      split_ifs <;> rfl
    | some node =>
      cases node with
      | directory => exact ih
      | file content executable =>
        simp only [Option.map_some, Node.shape]
        split_ifs <;> rfl
      | link target =>
        simp only [Option.map_some, Node.shape]
        split_ifs
        · rfl
        · exact hlink here target rest

lemma followPieces_shape (links : Nat) :
    fs.shape.followPieces ending links here pieces =
      (fs.followPieces ending links here pieces).map Place.shape := by
  induction links generalizing here pieces with
  | zero => exact followWith_shape fun _ _ _ => rfl
  | succ links ih =>
    refine followWith_shape fun here target rest => ?_
    split_ifs
    · rfl
    · exact ih
    · exact ih

/-- What a path leads to does not depend on contents. -/
theorem resolve_shape : fs.shape.resolve ending p = (fs.resolve ending p).map Place.shape := by
  rw [resolve, resolve, nodeAt_shape]
  have hdir : (fs.nodeAt fs.shape.workingDir).map Node.shape = some .directory ↔
      fs.nodeAt fs.workingDir = some .directory := by
    simp [shape]
  split_ifs <;> first | rfl | exact followPieces_shape _ | simp_all

lemma find_shape :
    fs.shape.find p = (fs.find p).map fun place => (place.1, place.2.shape) := by
  rw [find, find, resolve_shape]
  cases fs.resolve .target p with
  | error e => rfl
  | ok place => cases place <;> rfl

/-! ### Growth -/

/-- The later file system has all nodes that the earlier one has, where they were; the contents of
files may be others. -/
def Grows (earlier later : FileSystem) : Prop := Extends earlier.shape later.shape

lemma Grows.refl (fs : FileSystem) : Grows fs fs := Extends.refl _

lemma Grows.trans (h : Grows fs fs') (h' : Grows fs' fs'') : Grows fs fs'' := Extends.trans h h'

lemma Grows.of_shape_eq (h : fs'.shape = fs.shape) : Grows fs fs' := by
  rw [Grows, h]
  exact Extends.refl _

lemma Grows.nodeAt (h : Grows fs fs') {n : Node} (hn : fs.nodeAt l = some n) :
    ∃ n', fs'.nodeAt l = some n' ∧ n'.shape = n.shape := by
  have hshape := Extends.nodeAt h (l := l) (n := n.shape) (by simp [hn])
  simpa using hshape

lemma Grows.nodeAt_eq_none (h : Grows fs fs') (hl : fs'.nodeAt l = none) : fs.nodeAt l = none := by
  by_contra hthere
  obtain ⟨n, hn⟩ := Option.ne_none_iff_exists'.mp hthere
  obtain ⟨n', hn', -⟩ := h.nodeAt hn
  simp [hl] at hn'

lemma Grows.nodeAt_directory (h : Grows fs fs') (hl : fs.nodeAt l = some .directory) :
    fs'.nodeAt l = some .directory := by
  obtain ⟨n, hn, hshape⟩ := h.nodeAt hl
  rw [hn, Node.shape_eq_directory.mp hshape]

lemma Grows.nodeAt_file (h : Grows fs fs') {content : Bytes} {executable : Bool}
    (hl : fs.nodeAt l = some (.file content executable)) :
    ∃ content' executable', fs'.nodeAt l = some (.file content' executable') := by
  obtain ⟨n, hn, hshape⟩ := h.nodeAt hl
  obtain ⟨content', executable', rfl⟩ := Node.shape_eq_file hshape
  exact ⟨content', executable', hn⟩

/-- What a path leads to is where it was, with the content that it has now. -/
theorem Grows.find (h : Grows fs fs') {n : Node} (hfind : fs.find p = .ok (l, n)) :
    ∃ n', fs'.find p = .ok (l, n') ∧ n'.shape = n.shape := by
  have hshape : fs.shape.find p = .ok (l, n.shape) := by
    rw [find_shape, hfind]
    rfl
  have hlater := Extends.find h hshape
  rw [find_shape] at hlater
  cases hfind' : fs'.find p with
  | error e => simp [hfind', Except.map] at hlater
  | ok found =>
    obtain ⟨l', n'⟩ := found
    obtain ⟨rfl, hn'⟩ : l' = l ∧ n'.shape = n.shape := by simpa [hfind', Except.map] using hlater
    exact ⟨n', rfl, hn'⟩

lemma Grows.find_directory (h : Grows fs fs') (hfind : fs.find p = .ok (l, .directory)) :
    fs'.find p = .ok (l, .directory) := by
  obtain ⟨n, hn, hshape⟩ := h.find hfind
  rw [hn, Node.shape_eq_directory.mp hshape]

lemma Grows.find_file (h : Grows fs fs') {content : Bytes} {executable : Bool}
    (hfind : fs.find p = .ok (l, .file content executable)) :
    ∃ content' executable', fs'.find p = .ok (l, .file content' executable') := by
  obtain ⟨n, hn, hshape⟩ := h.find hfind
  obtain ⟨content', executable', rfl⟩ := Node.shape_eq_file hshape
  exact ⟨content', executable', hn⟩

lemma Grows.followPieces_directory (h : Grows fs fs') {links : Nat}
    (hfollow : fs.followPieces ending links here pieces = .ok (.found l .directory)) :
    fs'.followPieces ending links here pieces = .ok (.found l .directory) := by
  have hshape : fs.shape.followPieces ending links here pieces = .ok (.found l .directory) := by
    rw [followPieces_shape, hfollow]
    rfl
  have hlater := followPieces_of_extends h hshape
  rw [followPieces_shape] at hlater
  cases hplace : fs'.followPieces ending links here pieces with
  | error e => simp [hplace, Except.map] at hlater
  | ok place => cases place <;> simp_all [Except.map, Place.shape]

lemma Extends.grows (h : Extends fs fs') : Grows fs fs' := by
  refine ⟨h.workingDir, fun {l n} hn => ?_⟩
  rw [nodeAt_shape] at hn ⊢
  obtain ⟨node, hnode, rfl⟩ := Option.map_eq_some_iff.mp hn
  rw [h.nodeAt hnode, Option.map_some]

/-- A node at a free location moves nothing. -/
lemma Grows.put_free (h : fs.nodeAt l = none) (n : Node) : Grows fs (fs.put l n) :=
  (Extends.put h n).grows

lemma insertEntry_mapValues {entries : List (Location × Node)} {n n' : Node}
    (hsorted : entries.Pairwise fun a b => a.1 < b.1) (hmem : (l, n) ∈ entries)
    (hshape : n'.shape = n.shape) :
    (SortedMap.insertEntry l n' entries).map (fun e => (e.1, e.2.shape)) =
      entries.map fun e => (e.1, e.2.shape) := by
  induction entries with
  | nil => simp at hmem
  | cons e entries ih =>
    obtain ⟨hfirst, hsorted⟩ := List.pairwise_cons.mp hsorted
    rw [SortedMap.insertEntry]
    rcases List.mem_cons.mp hmem with rfl | hmem
    · rw [if_neg (List.lt_irrefl l), if_pos rfl]
      simp [hshape]
    · have hlt := hfirst _ hmem
      have hne : l ≠ e.1 := by
        intro heq
        exact List.lt_irrefl _ (heq ▸ hlt)
      rw [if_neg (List.lt_asymm hlt), if_neg hne]
      simp [ih hsorted hmem]

/-- Writing over a file moves nothing. -/
theorem shape_put_file {content content' : Bytes} {executable executable' : Bool}
    (h : fs.nodeAt l = some (.file content executable)) :
    (fs.put l (.file content' executable')).shape = fs.shape := by
  have hl : l ≠ [] := by
    rintro rfl
    simp at h
  rw [FileSystem.nodeAt, if_neg hl, SortedMap.get?, Option.map_eq_some_iff] at h
  obtain ⟨⟨k, n⟩, hfind, rfl : n = .file content executable⟩ := h
  obtain rfl : k = l := by simpa using List.find?_some hfind
  have hsame : (Node.file content' executable').shape = (Node.file content executable).shape := rfl
  have hentries :=
    insertEntry_mapValues fs.nodes.sorted (List.mem_of_find?_eq_some hfind) hsame
  rw [shape, shape]
  congr 1
  rw [SortedMap.mapValues, SortedMap.mapValues, SortedMap.mk.injEq]
  exact hentries

end FileSystem
end ConstPromotion
