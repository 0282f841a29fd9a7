import ConstPromotion.Proofs.FileSystem.Below

/-!
# Making and removing entries

What making a directory and writing a file do to an entry by its path, if they succeed
(`IsEntry.createDirectory_eq`, `IsEntry.write_eq`), and how a removal takes back whatever was
put below a location (`removeAt_put`, `IsTree.removeAt_eq_self`).
-/

namespace ConstPromotion

namespace SortedMap

variable {κ α : Type} [LT κ] [DecidableEq κ]

lemma get?_ne_none_of_mem {m : SortedMap κ α} {e : κ × α} (he : e ∈ m.entries) :
    m.get? e.1 ≠ none := by
  rw [get?, ne_eq, Option.map_eq_none_iff, List.find?_eq_none]
  intro hnone
  simpa using hnone e he

variable [DecidableLT κ]

/-- Entries that a test leaves out may as well not be made. -/
lemma filter_insertEntry (keep : κ → Bool) {k : κ} (hk : keep k = false) (v : α)
    (entries : List (κ × α)) :
    (insertEntry k v entries).filter (fun e => keep e.1) = entries.filter fun e => keep e.1 := by
  induction entries with
  | nil => simp [insertEntry, hk]
  | cons e entries ih =>
    rw [insertEntry]
    split_ifs with hlt heq
    · rw [List.filter_cons_of_neg (by simp [hk])]
    · rw [List.filter_cons_of_neg (by simp [hk]), List.filter_cons_of_neg (by simp [← heq, hk])]
    · rw [List.filter_cons, List.filter_cons, ih]

end SortedMap

namespace FileSystem

variable {fs fs' : FileSystem} {l dir : Location} {p : Path} {n : Name} {ending : Ending}
  {place : Place}

/-! ### Entries that are made -/

/-- A path with a name appended that leads somewhere stands for the entry of that name in some
directory. -/
lemma exists_isEntry_child (hn : Path.IsEntryName n) (hp : p.chars ≠ [])
    (h : fs.resolve ending (p.child n) = .ok place) : ∃ l, fs.IsEntry (p.child n) l n := by
  have hpieces := Path.pieces_child_eq hn hp
  obtain ⟨hnul, -, -⟩ := spelling_of_resolve h
  obtain ⟨start, hstart, hfollow⟩ := exists_start?_of_resolve h
  rw [hpieces] at hfollow
  obtain ⟨l, left, hdir, -⟩ := exists_followPieces_concat hn.ne_nil hfollow
  refine ⟨l, hn, start, p.base, [], hstart, hpieces, ?_, by simp, by simpa using hdir⟩
  intro piece hpiece hmem
  exact hnul ((Path.mem_chars_iff (by decide)).mpr ⟨piece, by simp [hpieces, hpiece], hmem⟩)

/-- A directory is made where nothing is. -/
lemma IsEntry.createDirectory_eq (h : fs.IsEntry (p.child n) l n)
    (hcreate : fs.createDirectory (p.child n) = .ok fs') :
    IsValidName n ∧ (p.child n).IsShort ∧ fs.nodeAt (l ++ [n]) = none ∧
      fs' = fs.put (l ++ [n]) .directory := by
  rw [createDirectory, Path.dropSlashes_child h.isEntryName] at hcreate
  obtain ⟨place, hresolve, hcreate⟩ := exists_of_bind_eq_ok hcreate
  obtain ⟨hn, hshort⟩ := h.isValidName_of_resolve hresolve
  rw [h.resolve hn hshort (.inl rfl), placeAt] at hresolve
  cases hnode : fs.nodeAt (l ++ [n]) with
  | none =>
    rw [hnode, Except.ok.injEq] at hresolve
    subst hresolve
    exact ⟨hn, hshort, rfl, (Except.ok.inj hcreate).symm⟩
  | some node =>
    rw [hnode, Except.ok.injEq] at hresolve
    subst hresolve
    simp at hcreate

/-- A file is written where nothing is. -/
lemma IsEntry.write_eq {content : Bytes} (h : fs.IsEntry p l n)
    (hfree : fs.nodeAt (l ++ [n]) = none) (hwrite : fs.write p content = .ok fs') :
    fs' = fs.put (l ++ [n]) (.file content false) := by
  obtain ⟨⟨k, executable⟩, hplace, hput⟩ := exists_of_bind_eq_ok hwrite
  obtain ⟨place, hresolve, hplace⟩ := exists_of_bind_eq_ok hplace
  obtain ⟨hn, hshort⟩ := h.isValidName_of_resolve hresolve
  rw [h.resolve hn hshort (.inr (by simp [hfree])), placeAt, hfree, Except.ok.injEq] at hresolve
  subst hresolve
  obtain ⟨rfl, rfl⟩ := Prod.mk.inj (Except.ok.inj hplace)
  exact (Except.ok.inj hput).symm

/-- A directory that was made is found. -/
lemma IsEntry.find_directory (h : fs.IsEntry p l n) (hn : IsValidName n) (hshort : p.IsShort)
    (hfree : fs.nodeAt (l ++ [n]) = none) :
    (fs.put (l ++ [n]) .directory).find p = .ok (l ++ [n], .directory) := by
  have hnode := nodeAt_put_self (List.concat_ne_nil n l) fs .directory
  exact ((h.mono (.put_free hfree _)).find_iff (by simp [hnode])).mpr ⟨hn, hshort, rfl, hnode⟩

/-! ### Removal -/

/-- What was put below a location is removed with it. -/
lemma removeAt_put {k : Location} (hk : l <+: k) (node : Node) :
    (fs.put k node).removeAt l = fs.removeAt l := by
  have hkeep : (!l.isPrefixOf k) = false := by simpa using List.isPrefixOf_iff_prefix.mpr hk
  have hentries := SortedMap.filter_insertEntry (fun k => !l.isPrefixOf k) hkeep node
    fs.nodes.entries
  simp only [removeAt, put, SortedMap.restrict, SortedMap.insert, hentries]

/-- In a tree, the removal of what is not there changes nothing. -/
lemma IsTree.removeAt_eq_self (hfs : fs.IsTree) (hl : fs.nodeAt l = none) : fs.removeAt l = fs := by
  have hkept : ∀ e ∈ fs.nodes.entries, (!l.isPrefixOf e.1) = true := by
    intro e he
    by_contra hnot
    obtain ⟨below, hbelow⟩ : l <+: e.1 := by simpa using hnot
    have hne : e.1 ≠ [] := by
      intro hnil
      have hroot : l = [] := (List.append_eq_nil_iff.mp (hbelow.trans hnil)).1
      simp [hroot] at hl
    have hthere : fs.nodeAt e.1 ≠ none := by
      rw [nodeAt, if_neg hne]
      exact SortedMap.get?_ne_none_of_mem he
    rw [← hbelow] at hthere
    rcases eq_or_ne below [] with rfl | hbelow
    · exact hthere (by rw [List.append_nil, hl])
    · exact hthere (hfs.nodeAt_append (by simp [hl]) hbelow)
  have hentries := List.filter_eq_self.mpr hkept
  rw [FileSystem.removeAt, SortedMap.restrict]
  congr

end FileSystem

end ConstPromotion
