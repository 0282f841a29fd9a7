import ConstPromotion.Proofs.FileSystem.Following

/-!
# File systems stay trees

What a path leads to is a node of the tree, or a free name in a directory of it (`resolve_fits`).
Operations put nodes there only, or take away all that lies below a location, so they keep a file
system a tree.
-/

namespace ConstPromotion.FileSystem

variable {fs fs' : FileSystem} {l here : Location} {n : Node} {ending : Ending} {p : Path}

/-! ### Changes of a tree -/

/-- What lies in a directory that is not there can be put there, and what is no directory can be
replaced. -/
lemma IsTree.put (hfs : fs.IsTree) {dir : Location} {name : Name}
    (hdir : fs.nodeAt dir = some .directory) (hnot : fs.nodeAt (dir ++ [name]) ≠ some .directory)
    (n : Node) : (fs.put (dir ++ [name]) n).IsTree := by
  have hne : dir ++ [name] ≠ [] := List.concat_ne_nil name dir
  intro l child hchild
  have hother : dir ++ [name] ≠ l := by
    rintro rfl
    rw [nodeAt_put_of_ne hne (by simp)] at hchild
    exact hchild (hfs.nodeAt_append hnot (List.cons_ne_nil child []))
  rw [nodeAt_put_of_ne hne hother]
  by_cases hsame : dir ++ [name] = l ++ [child]
  · obtain ⟨rfl, -⟩ := List.append_inj' hsame rfl
    exact hdir
  · rw [nodeAt_put_of_ne hne hsame] at hchild
    exact hfs l child hchild

lemma nodeAt_removeAt (fs : FileSystem) (l : Location) {k : Location} (hk : k ≠ []) :
    (fs.removeAt l).nodeAt k = if l <+: k then none else fs.nodeAt k := by
  rw [nodeAt, nodeAt, if_neg hk, if_neg hk, removeAt, SortedMap.get?_restrict]
  by_cases h : l <+: k
  · simp [h, List.isPrefixOf_iff_prefix.mpr h]
  · have hnot : l.isPrefixOf k = false := by
      rwa [← Bool.not_eq_true, List.isPrefixOf_iff_prefix]
    simp [h, hnot]

lemma IsTree.removeAt (hfs : fs.IsTree) (l : Location) : (fs.removeAt l).IsTree := by
  intro k child hchild
  rw [nodeAt_removeAt fs l (List.concat_ne_nil child k)] at hchild
  split_ifs at hchild with hprefix
  · exact absurd rfl hchild
  · have hdir := hfs k child hchild
    by_cases hk : k = []
    · rw [hk, nodeAt_nil]
    · have hnot : ¬ l <+: k := fun h => hprefix (h.trans (List.prefix_append k [child]))
      rw [nodeAt_removeAt fs l hk, if_neg hnot, hdir]

/-! ### What paths lead to -/

/-- A place as it is in a tree. -/
def Fits (fs : FileSystem) : Place → Prop
  | .found l n => fs.nodeAt l = some n
  | .free l => fs.nodeAt l = none ∧
      ∃ dir name, l = dir ++ [name] ∧ fs.nodeAt dir = some .directory

lemma IsTree.nodeAt_dropLast (hfs : fs.IsTree) (h : fs.nodeAt l = some .directory) :
    fs.nodeAt l.dropLast = some .directory := by
  rcases List.eq_nil_or_concat' l with rfl | ⟨dir, name, rfl⟩
  · exact h
  · rw [List.dropLast_concat]
    exact hfs dir name (by simp [h])

/-- Pieces that are followed from a directory lead to a place of the tree. -/
lemma Follows.fits (hfs : fs.IsTree) {links : Nat} {pieces : List (List Char)} {place : Place}
    (h : fs.Follows ending links here pieces place) (hhere : fs.nodeAt here = some .directory) :
    fs.Fits place := by
  induction h with
  | here => exact hhere
  | blank _ _ ih => exact ih hhere
  | parent _ ih => exact ih (hfs.nodeAt_dropLast hhere)
  | free hstep hnode => exact ⟨hnode, _, _, rfl, hhere⟩
  | directory hstep hnode _ ih => exact ih hnode
  | file hstep hnode => exact hnode
  | link hstep hnode => exact hnode
  | follow _ _ _ _ _ ih =>
    refine ih ?_
    split_ifs
    · exact nodeAt_nil fs
    · exact hhere

/-- What a path leads to is a place of the tree. -/
theorem resolve_fits (hfs : fs.IsTree) {place : Place} (h : fs.resolve ending p = .ok place) :
    fs.Fits place := by
  rw [resolve] at h
  split_ifs at h with _ _ _ habsolute hdir
  · exact (followPieces_eq_ok_iff.mp h).fits hfs (nodeAt_nil fs)
  · exact (followPieces_eq_ok_iff.mp h).fits hfs hdir

/-- What is found lies there. -/
lemma IsTree.nodeAt_of_find (hfs : fs.IsTree) (h : fs.find p = .ok (l, n)) :
    fs.nodeAt l = some n :=
  resolve_fits hfs (find_eq_ok_iff.mp h)

/-! ### Operations -/

lemma exists_of_bind_eq_ok {ε α β : Type} {x : Except ε α} {f : α → Except ε β} {b : β}
    (h : x >>= f = .ok b) : ∃ a, x = .ok a ∧ f a = .ok b := by
  cases x with
  | error e => simp [bind, Except.bind] at h
  | ok a => exact ⟨a, rfl, h⟩

/-- A node can be put where a path leads to anything but a directory. -/
lemma IsTree.put_of_fits (hfs : fs.IsTree) {place : Place} (hplace : fs.Fits place)
    (h : place = .free l ∨ ∃ old, place = .found l old ∧ old ≠ .directory) (n : Node) :
    (fs.put l n).IsTree := by
  rcases h with rfl | ⟨old, rfl, hold⟩
  · obtain ⟨hfree, dir, name, rfl, hdir⟩ := hplace
    exact hfs.put hdir (by simp [hfree]) n
  · have hnode : fs.nodeAt l = some old := hplace
    rcases List.eq_nil_or_concat' l with rfl | ⟨dir, name, rfl⟩
    · rw [nodeAt_nil, Option.some_inj] at hnode
      exact absurd hnode.symm hold
    · exact hfs.put (hfs dir name (by simp [hnode])) (by simpa [hnode] using hold) n

lemma resolve_of_writePlace {executable : Bool} (h : fs.writePlace p = .ok (l, executable)) :
    ∃ place, fs.resolve .file p = .ok place ∧
      (place = .free l ∨ ∃ old, place = .found l old ∧ old ≠ .directory) := by
  obtain ⟨place, hplace, h⟩ := exists_of_bind_eq_ok h
  refine ⟨place, hplace, ?_⟩
  split at h
  next l' content executable' =>
    obtain ⟨rfl, -⟩ := Prod.mk.inj (Except.ok.inj h)
    exact .inr ⟨_, rfl, by simp⟩
  next => simp at h
  next l' =>
    obtain ⟨rfl, -⟩ := Prod.mk.inj (Except.ok.inj h)
    exact .inl rfl

theorem IsTree.write (hfs : fs.IsTree) {content : Bytes} (h : fs.write p content = .ok fs') :
    fs'.IsTree := by
  obtain ⟨⟨l, executable⟩, hplace, h⟩ := exists_of_bind_eq_ok h
  obtain rfl := Except.ok.inj h
  obtain ⟨place, hresolve, hl⟩ := resolve_of_writePlace hplace
  exact hfs.put_of_fits (resolve_fits hfs hresolve) hl _

lemma nodeAt_put_put (fs : FileSystem) (l : Location) (n n' : Node) (k : Location) :
    ((fs.put l n).put l n').nodeAt k = (fs.put l n').nodeAt k := by
  simp only [nodeAt, FileSystem.put, SortedMap.get?_insert]
  split_ifs <;> rfl

theorem IsTree.copy (hfs : fs.IsTree) {target : Path} {size : Nat}
    (h : fs.copy p target = .ok (size, fs')) : fs'.IsTree := by
  obtain ⟨⟨source, node⟩, -, h⟩ := exists_of_bind_eq_ok h
  cases node with
  | directory => simp at h
  | link target => simp at h
  | file content executable =>
    obtain ⟨⟨l, executable'⟩, hplace, h⟩ := exists_of_bind_eq_ok h
    obtain ⟨read, -, h⟩ := exists_of_bind_eq_ok h
    obtain ⟨-, rfl⟩ := Prod.mk.inj (Except.ok.inj h)
    obtain ⟨place, hresolve, hl⟩ := resolve_of_writePlace hplace
    have htree := hfs.put_of_fits (resolve_fits hfs hresolve) hl (.file read executable)
    have hsame := nodeAt_put_put fs l (.file [] executable) (.file read executable)
    intro dir name hname
    rw [hsame] at hname ⊢
    exact htree dir name hname

theorem IsTree.createDirectory (hfs : fs.IsTree) (h : fs.createDirectory p = .ok fs') :
    fs'.IsTree := by
  obtain ⟨place, hresolve, h⟩ := exists_of_bind_eq_ok h
  cases place with
  | found l node => simp at h
  | free l =>
    obtain rfl := Except.ok.inj h
    exact hfs.put_of_fits (resolve_fits hfs hresolve) (.inl rfl) _

/-- What holds of a file system and is kept by making a directory holds of what making a directory
with its parents leaves, also where one of them could not be made. -/
theorem createDirectoriesWithin_induction {P : FileSystem → Prop}
    (hmake : ∀ fs p fs', P fs → fs.createDirectory p = .ok fs' → P fs') (hfs : P fs) (p : Path)
    (parents : Nat) : P (fs.createDirectoriesWithin p parents).2 := by
  induction parents generalizing fs p with
  | zero => exact hfs
  | succ parents ih =>
    rw [FileSystem.createDirectoriesWithin]
    by_cases hnil : p.chars = []
    · rw [if_pos hnil]
      exact hfs
    rw [if_neg hnil]
    cases hcreate : fs.createDirectory p with
    | ok fs₁ => exact hmake fs p fs₁ hfs hcreate
    | error e =>
      cases hparent : p.parent? with
      | none =>
        simp only
        split_ifs <;> exact hfs
      | some parent =>
        rcases hwithin : fs.createDirectoriesWithin parent parents with ⟨result, fs₁⟩
        have hfs₁ : P fs₁ := by
          simpa [hwithin] using ih hfs parent
        simp only [hwithin]
        split_ifs with hmissing
        · -- the parents are made, and the directory is tried again
          cases result with
          | error e => exact hfs₁
          | ok _ =>
            cases hagain : fs₁.createDirectory p with
            | ok fs₂ =>
              simp only [hagain]
              exact hmake fs₁ p fs₂ hfs₁ hagain
            | error e =>
              simp only [hagain]
              split_ifs <;> exact hfs₁
        · exact hfs
        · exact hfs

/-- A directory is made where nothing was. -/
lemma Extends.createDirectory (hfs : fs.IsTree) (h : fs.createDirectory p = .ok fs') :
    Extends fs fs' := by
  obtain ⟨place, hresolve, h⟩ := exists_of_bind_eq_ok h
  cases place with
  | found l node => simp at h
  | free l =>
    obtain rfl := Except.ok.inj h
    obtain ⟨hfree, -⟩ : fs.Fits (.free l) := resolve_fits hfs hresolve
    exact Extends.put hfree .directory

/-- Making a directory with its parents keeps a tree and all that is in it. -/
theorem IsTree.createDirectories (hfs : fs.IsTree) (p : Path) :
    (fs.createDirectories p).2.IsTree ∧ Extends fs (fs.createDirectories p).2 := by
  refine createDirectoriesWithin_induction (P := fun fs' => fs'.IsTree ∧ Extends fs fs') ?_
    ⟨hfs, .refl fs⟩ p (p.spans.length + 1)
  rintro fs₁ p fs₂ ⟨htree, hextends⟩ hcreate
  exact ⟨htree.createDirectory hcreate, hextends.trans (.createDirectory htree hcreate)⟩

theorem IsTree.createLink (hfs : fs.IsTree) {target : List Char}
    (h : fs.createLink target p = .ok fs') : fs'.IsTree := by
  obtain ⟨place, hresolve, h⟩ := exists_of_bind_eq_ok h
  cases place with
  | found l node => simp at h
  | free l =>
    obtain rfl := Except.ok.inj h
    exact hfs.put_of_fits (resolve_fits hfs hresolve) (.inl rfl) _

theorem IsTree.removeTree (hfs : fs.IsTree) (h : fs.removeTree p = .ok fs') : fs'.IsTree := by
  obtain ⟨place, -, h⟩ := exists_of_bind_eq_ok h
  cases place with
  | found l node =>
    obtain rfl := Except.ok.inj h
    exact hfs.removeAt l
  | free l => simp at h

theorem IsTree.setExecutable (hfs : fs.IsTree) {executable : Bool}
    (h : fs.setExecutable p executable = .ok fs') : fs'.IsTree := by
  obtain ⟨⟨l, node⟩, hfind, h⟩ := exists_of_bind_eq_ok h
  have hfits := resolve_fits hfs (find_eq_ok_iff.mp hfind)
  cases node with
  | directory =>
    obtain rfl := Except.ok.inj h
    exact hfs
  | link target =>
    obtain rfl := Except.ok.inj h
    exact hfs
  | file content executable' =>
    obtain rfl := Except.ok.inj h
    exact hfs.put_of_fits hfits (.inr ⟨_, rfl, by simp⟩) _

end ConstPromotion.FileSystem
