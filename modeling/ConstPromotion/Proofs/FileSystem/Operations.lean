import ConstPromotion.Proofs.FileSystem.Following

/-!
# Operations on children

What the operations on files do to an entry of a directory, by the location of the directory and
the name of the entry.
-/

namespace ConstPromotion.FileSystem

variable {fs : FileSystem} {l : Location} {p : Path} {n : Name}

lemma find_child (hp : fs.find p = .ok (l, .directory)) (hn : IsValidName n)
    (hshort : (p.child n).IsShort) {node : Node} (hnode : fs.nodeAt (l ++ [n]) = some node)
    (hlink : ∀ target, node ≠ .link target) : fs.find (p.child n) = .ok (l ++ [n], node) := by
  have hnot : ∀ target, fs.nodeAt (l ++ [n]) ≠ some (.link target) := by
    intro target h
    rw [hnode, Option.some_inj] at h
    exact hlink target h
  rw [find_eq_ok_iff, resolve_child hp hn hshort (.inr hnot), placeAt, hnode]

lemma read_child (hp : fs.find p = .ok (l, .directory)) (hn : IsValidName n)
    (hshort : (p.child n).IsShort) {content : Bytes} {executable : Bool}
    (hnode : fs.nodeAt (l ++ [n]) = some (.file content executable)) :
    fs.read (p.child n) = .ok content := by
  rw [read, find_child hp hn hshort hnode (by simp)]
  rfl

lemma createDirectory_child (hp : fs.find p = .ok (l, .directory)) (hn : IsValidName n)
    (hshort : (p.child n).IsShort) (hnode : fs.nodeAt (l ++ [n]) = none) :
    fs.createDirectory (p.child n) = .ok (fs.put (l ++ [n]) .directory) := by
  rw [createDirectory, Path.dropSlashes_child hn.toIsEntryName,
    resolve_child hp hn hshort (.inl rfl), placeAt, hnode]
  rfl

/-- A name that is taken is in the way of a directory. -/
lemma createDirectory_child_of_taken (hp : fs.find p = .ok (l, .directory)) (hn : IsValidName n)
    (hshort : (p.child n).IsShort) (hnode : fs.nodeAt (l ++ [n]) ≠ none) :
    fs.createDirectory (p.child n) = .error .exists := by
  obtain ⟨node, hnode⟩ := Option.ne_none_iff_exists'.mp hnode
  rw [createDirectory, Path.dropSlashes_child hn.toIsEntryName,
    resolve_child hp hn hshort (.inl rfl), placeAt, hnode]
  rfl

lemma write_child (hp : fs.find p = .ok (l, .directory)) (hn : IsValidName n)
    (hshort : (p.child n).IsShort) (hnode : fs.nodeAt (l ++ [n]) = none) (content : Bytes) :
    fs.write (p.child n) content = .ok (fs.put (l ++ [n]) (.file content false)) := by
  rw [write, writePlace, resolve_child hp hn hshort (.inr (by simp [hnode])), placeAt, hnode]
  rfl

lemma removeTree_child (hp : fs.find p = .ok (l, .directory)) (hn : IsValidName n)
    (hshort : (p.child n).IsShort) (hnode : fs.nodeAt (l ++ [n]) ≠ none) :
    fs.removeTree (p.child n) = .ok (fs.removeAt (l ++ [n])) := by
  obtain ⟨node, hnode⟩ := Option.ne_none_iff_exists'.mp hnode
  rw [removeTree, resolve_child hp hn hshort (.inl rfl), placeAt, hnode]
  rfl

/-! ### New entries -/

/-- A new directory is found, and nothing else changes. -/
lemma exists_createDirectory_child (hp : fs.find p = .ok (l, .directory)) (hn : IsValidName n)
    (hshort : (p.child n).IsShort) (hnode : fs.nodeAt (l ++ [n]) = none) :
    ∃ fs', fs.createDirectory (p.child n) = .ok fs' ∧ Extends fs fs' ∧
      fs'.find (p.child n) = .ok (l ++ [n], .directory) ∧
      ∀ k ≠ l ++ [n], fs'.nodeAt k = fs.nodeAt k := by
  have hne : l ++ [n] ≠ [] := List.concat_ne_nil n l
  have hextends := Extends.put hnode .directory
  refine ⟨_, createDirectory_child hp hn hshort hnode, hextends, ?_, fun k hk => ?_⟩
  · exact find_child (hextends.find hp) hn hshort (nodeAt_put_self hne fs _) (by simp)
  · exact nodeAt_put_of_ne hne hk.symm fs _

/-- A new file is read, and nothing else changes. -/
lemma exists_write_child (hp : fs.find p = .ok (l, .directory)) (hn : IsValidName n)
    (hshort : (p.child n).IsShort) (hnode : fs.nodeAt (l ++ [n]) = none) (content : Bytes) :
    ∃ fs', fs.write (p.child n) content = .ok fs' ∧ Extends fs fs' ∧
      fs'.read (p.child n) = .ok content ∧ ∀ k ≠ l ++ [n], fs'.nodeAt k = fs.nodeAt k := by
  have hne : l ++ [n] ≠ [] := List.concat_ne_nil n l
  have hextends := Extends.put hnode (.file content false)
  refine ⟨_, write_child hp hn hshort hnode content, hextends, ?_, fun k hk => ?_⟩
  · exact read_child (hextends.find hp) hn hshort (nodeAt_put_self hne fs _)
  · exact nodeAt_put_of_ne hne hk.symm fs _

end ConstPromotion.FileSystem
