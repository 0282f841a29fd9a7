import ConstPromotion.Proofs.FileSystem.Entries

/-!
# Spellings that lead to one place

An absolute path leads to the same place from every working directory (`find_within`). Pieces that
are blank change nothing before the name that a path ends in (`resolve_eq_of_dropsBlanks`): a slash
may be doubled there (`find_doubled_slash`), and paths that denote the same components lead to the
same place (`find_eq_of_same`).
-/

namespace ConstPromotion

/-! ### Blank pieces -/

namespace Path

variable {p q : Path} {n : List Char} {xs ys : List (List Char)}

/-- The second pieces are the first ones without some blank ones, none of which is the last. -/
inductive DropsBlanks : List (List Char) → List (List Char) → Prop
  | last {n : List Char} (hn : n ≠ []) : DropsBlanks [n] [n]
  | keep (piece : List Char) {xs ys : List (List Char)} (h : DropsBlanks xs ys) :
    DropsBlanks (piece :: xs) (piece :: ys)
  | drop {piece : List Char} {xs ys : List (List Char)} (hpiece : IsBlank piece)
    (h : DropsBlanks xs ys) : DropsBlanks (piece :: xs) ys

namespace DropsBlanks

/-- What is left ends in the same piece. -/
lemma exists_ne_nil (h : DropsBlanks xs ys) : ∃ n, n ≠ [] ∧ n ∈ xs ∧ n ∈ ys := by
  induction h with
  | last hn => exact ⟨_, hn, by simp, by simp⟩
  | keep piece _ ih =>
    obtain ⟨n, hn, hxs, hys⟩ := ih
    exact ⟨n, hn, List.mem_cons_of_mem _ hxs, List.mem_cons_of_mem _ hys⟩
  | drop _ _ ih =>
    obtain ⟨n, hn, hxs, hys⟩ := ih
    exact ⟨n, hn, List.mem_cons_of_mem _ hxs, hys⟩

lemma append_left (zs : List (List Char)) (h : DropsBlanks xs ys) :
    DropsBlanks (zs ++ xs) (zs ++ ys) := by
  induction zs with
  | nil => exact h
  | cons z zs ih => exact .keep z ih

lemma refl (hn : n ≠ []) (before : List (List Char)) :
    DropsBlanks (before ++ [n]) (before ++ [n]) := (DropsBlanks.last hn).append_left before

lemma blanks_append {blanks : List (List Char)} (hblanks : ∀ piece ∈ blanks, IsBlank piece)
    (h : DropsBlanks xs ys) : DropsBlanks (blanks ++ xs) ys := by
  induction blanks with
  | nil => exact h
  | cons blank blanks ih =>
    obtain ⟨hblank, hblanks⟩ := List.forall_mem_cons.mp hblanks
    exact .drop hblank (ih hblanks)

/-- Blank pieces have no characters but dots. -/
lemma exists_mem_iff (h : DropsBlanks xs ys) {c : Char} (hc : c ≠ '.') :
    (∃ piece ∈ xs, c ∈ piece) ↔ ∃ piece ∈ ys, c ∈ piece := by
  induction h with
  | last => exact Iff.rfl
  | keep piece _ ih => simp only [List.exists_mem_cons_iff, ih]
  | drop hpiece _ ih =>
    rw [List.exists_mem_cons_iff, ih, or_iff_right]
    rcases hpiece with rfl | rfl <;> simp [hc]

end DropsBlanks

/-- The pieces that are not blank. -/
def steps (xs : List (List Char)) : List (List Char) := xs.filter fun x => ¬ IsBlank x

lemma dropsBlanks_steps (hlast : xs.getLast? = some n) (hn : ¬ IsBlank n) :
    DropsBlanks xs (steps xs) := by
  obtain ⟨before, rfl⟩ := List.getLast?_eq_some_iff.mp hlast
  clear hlast
  induction before with
  | nil =>
    rw [List.nil_append, steps, List.filter_cons_of_pos (by simpa using hn), List.filter_nil]
    exact .last fun hnil => hn (.inl hnil)
  | cons piece before ih =>
    rw [List.cons_append, steps]
    by_cases hpiece : IsBlank piece
    · rw [List.filter_cons_of_neg (by simpa using hpiece)]
      exact .drop hpiece ih
    · rw [List.filter_cons_of_pos (by simpa using hpiece)]
      exact .keep piece ih

end Path

/-- The piece that a component comes from, unless it is the root or a `.` that a path starts with.
-/
def Component.step? : Component → Option (List Char)
  | .name n => some n
  | .parent => some ['.', '.']
  | _ => none

namespace Path

variable {p q : Path} {xs : List (List Char)}

lemma filterMap_step?_componentsFrom (opening : Bool) (xs : List (List Char)) :
    (componentsFrom opening xs).filterMap Component.step? = steps xs := by
  induction xs generalizing opening with
  | nil => rfl
  | cons piece xs ih =>
    have hsteps : steps (piece :: xs) = steps [piece] ++ steps xs := List.filter_append [piece] xs
    rw [componentsFrom, List.filterMap_append, ih, hsteps, component?]
    congr 1
    split_ifs with h₁ h₂ h₃ h₄ <;> simp_all [steps, IsBlank, Component.step?]

/-- The components of a path tell all of its pieces but the blank ones. -/
lemma steps_eq_of_same (h : p.same q) : steps p.pieces = steps q.pieces := by
  have hsteps (p : Path) : p.components.filterMap Component.step? = steps p.pieces := by
    rw [components_eq, List.filterMap_append, filterMap_step?_componentsFrom]
    split_ifs <;> rfl
  rw [← hsteps, ← hsteps, of_decide_eq_true h]

lemma isAbsolute_eq_of_same (h : p.same q) : p.isAbsolute = q.isAbsolute := by
  rw [Bool.eq_iff_iff, ← root_mem_components, ← root_mem_components, of_decide_eq_true h]

end Path

namespace FileSystem

variable {fs : FileSystem} {ending : Ending} {l here : Location} {p q : Path} {n m : List Char}
  {pieces xs ys : List (List Char)}
  {onLink onLink' : Location → List Char → List (List Char) → Except OsError Place}

/-! ### Working directories -/

/-- The files as they are seen from a directory. -/
def within (fs : FileSystem) (l : Location) : FileSystem := { fs with workingDir := l }

@[simp] lemma nodeAt_within (fs : FileSystem) (l k : Location) :
    (fs.within l).nodeAt k = fs.nodeAt k := rfl

lemma followWith_within
    (hlink : ∀ here target rest, onLink here target rest = onLink' here target rest) :
    (fs.within l).followWith ending onLink here pieces =
      fs.followWith ending onLink' here pieces := by
  obtain rfl : onLink = onLink' := by
    funext here target rest
    exact hlink here target rest
  induction pieces generalizing here with
  | nil => rfl
  | cons piece rest ih => simp only [followWith, nodeAt_within, ih]

lemma followPieces_within {links : Nat} :
    (fs.within l).followPieces ending links here pieces =
      fs.followPieces ending links here pieces := by
  induction links generalizing here pieces with
  | zero => exact followWith_within fun _ _ _ => rfl
  | succ links ih =>
    refine followWith_within fun here target rest => ?_
    simp only [ih]

/-- An absolute path is followed from the root, wherever the working directory is. -/
lemma resolve_within (hp : p.isAbsolute = true) :
    (fs.within l).resolve ending p = fs.resolve ending p := by
  simp only [resolve, hp, if_true, followPieces_within]

theorem find_within (hp : p.isAbsolute = true) : (fs.within l).find p = fs.find p := by
  simp only [find, resolve_within hp]

/-! ### Blank pieces on the way -/

lemma followWith_of_dropsBlanks (h : Path.DropsBlanks xs ys)
    (hlink : ∀ here target xs ys, Path.DropsBlanks xs ys →
      onLink here target xs = onLink here target ys) :
    fs.followWith .target onLink here xs = fs.followWith .target onLink here ys := by
  induction h generalizing here with
  | last => rfl
  | drop hpiece _ ih =>
    rw [followWith_blank hpiece]
    exact ih
  | @keep piece xs ys hrest ih =>
    -- the name at the end tells apart neither what may be missing nor what has to be a directory
    obtain ⟨n, hn, hxs, hys⟩ := hrest.exists_ne_nil
    have hall {zs : List (List Char)} (hzs : n ∈ zs) : zs.all (· = []) = false :=
      List.all_eq_false.mpr ⟨n, hzs, by simpa using hn⟩
    simp only [followWith, ih, hlink _ _ _ _ hrest, hall hxs, hall hys, List.ne_nil_of_mem hxs,
      List.ne_nil_of_mem hys, reduceCtorEq, false_and, if_false]

lemma followPieces_of_dropsBlanks {links : Nat} (h : Path.DropsBlanks xs ys) :
    fs.followPieces .target links here xs = fs.followPieces .target links here ys := by
  induction links generalizing here xs ys with
  | zero => exact followWith_of_dropsBlanks h fun _ _ _ _ _ => rfl
  | succ links ih =>
    refine followWith_of_dropsBlanks h fun here target xs ys hrest => ?_
    rw [ih (hrest.append_left _)]

/-- Two paths lead to the same place if their pieces are the same without some that are blank. -/
theorem resolve_eq_of_dropsBlanks (hp : Path.DropsBlanks p.pieces xs)
    (hq : Path.DropsBlanks q.pieces xs) (habsolute : p.isAbsolute = q.isAbsolute)
    (hpshort : p.IsShort) (hqshort : q.IsShort) : fs.resolve .target p = fs.resolve .target q := by
  have hnul : p.chars.contains '\x00' = q.chars.contains '\x00' := by
    rw [Bool.eq_iff_iff, List.contains_iff_mem, List.contains_iff_mem,
      Path.mem_chars_iff (by decide), Path.mem_chars_iff (by decide),
      hp.exists_mem_iff (by decide), hq.exists_mem_iff (by decide)]
  have hne {p : Path} (hp : Path.DropsBlanks p.pieces xs) : p.chars ≠ [] := by
    intro hnil
    obtain ⟨n, hn, hmem, -⟩ := hp.exists_ne_nil
    rw [Path.pieces, hnil, List.splitOn_nil, List.mem_singleton] at hmem
    exact hn hmem
  have hfollow (start : Location) : fs.followPieces .target maxLinks start (p.chars.splitOn '/') =
      fs.followPieces .target maxLinks start (q.chars.splitOn '/') :=
    (followPieces_of_dropsBlanks hp).trans (followPieces_of_dropsBlanks hq).symm
  rw [resolve, resolve, hnul, habsolute, if_neg (hne hp), if_neg (hne hq),
    if_neg (not_le.mpr hpshort), if_neg (not_le.mpr hqshort)]
  simp only [hfollow]

/-- Paths that denote the same components and end in a name lead to the same place, links or not. -/
theorem find_eq_of_same (h : p.same q) (hp : p.pieces.getLast? = some n)
    (hq : q.pieces.getLast? = some m) (hn : Path.IsEntryName n) (hm : Path.IsEntryName m)
    (hpshort : p.IsShort) (hqshort : q.IsShort) : fs.find p = fs.find q := by
  have hdrops := Path.dropsBlanks_steps hp (not_or.mpr ⟨hn.ne_nil, hn.ne_current⟩)
  have hdrops' := Path.dropsBlanks_steps hq (not_or.mpr ⟨hm.ne_nil, hm.ne_current⟩)
  rw [← Path.steps_eq_of_same h] at hdrops'
  rw [find, find, resolve_eq_of_dropsBlanks hdrops hdrops' (Path.isAbsolute_eq_of_same h) hpshort
    hqshort]

/-! ### Doubled slashes -/

/-- A name in a directory is found whether or not a slash is doubled before it. -/
theorem find_doubled_slash (hslash : '/' ∉ n) (hn : n ≠ []) (hp : p.isAbsolute = true)
    (hshort : (⟨p.chars ++ '/' :: n⟩ : Path).IsShort) :
    fs.find ⟨p.chars ++ '/' :: n⟩ = fs.find (p.join ⟨n⟩) := by
  have hnil : p.chars ≠ [] := by
    intro hnil
    simp [Path.isAbsolute, hnil] at hp
  have hname : (⟨n⟩ : Path).isAbsolute = false := Path.isAbsolute_of_slash_notMem hslash
  have hself : (⟨n⟩ : Path).pieces = [n] := List.splitOn_eq_singleton hslash
  -- both have the pieces of the directory and then the name, but for the blank one of a slash
  have hdrops : Path.DropsBlanks (⟨p.chars ++ '/' :: n⟩ : Path).pieces (p.base ++ [n]) := by
    obtain ⟨blanks, hbase, hblanks⟩ := p.exists_base_append
    rw [Path.pieces] at hbase
    rw [Path.pieces, List.splitOn_append_cons_self, hbase, List.splitOn_eq_singleton hslash,
      List.append_assoc]
    exact .append_left _ (.blanks_append hblanks (.last hn))
  have hdrops' : Path.DropsBlanks (p.join ⟨n⟩).pieces (p.base ++ [n]) := by
    rw [Path.pieces_join hname hnil, hself]
    exact .refl hn _
  have habsolute : (⟨p.chars ++ '/' :: n⟩ : Path).isAbsolute = (p.join ⟨n⟩).isAbsolute := by
    rw [Path.isAbsolute_join hname hnil, Path.isAbsolute, Path.isAbsolute,
      List.head?_append_of_ne_nil _ hnil]
  have hjoin : (p.join ⟨n⟩).IsShort := by
    rw [Path.join, hname, if_neg Bool.false_ne_true]
    split_ifs
    · refine lt_of_le_of_lt ?_ hshort
      simp only [Utf8.size, Utf8.encode, List.flatMap_append, List.flatMap_cons, List.length_append]
      omega
    · exact hshort
  rw [find, find, resolve_eq_of_dropsBlanks hdrops hdrops' habsolute hshort hjoin]

end FileSystem
end ConstPromotion
