import ConstPromotion.Proofs.FileSystem.Walk

/-!
# Paths below a directory

A path that is spelled from a directory leads below it, name by name (`exists_spells_of_find`). The
walk of the directory spells the same place in the shortest way, so what is short enough in any
spelling is short enough there (`Spells.isShort_descend`, `Spells.isShort_withFileName`).
-/

namespace ConstPromotion

namespace Path

variable {p q dir : Path} {n m : Name} {above names : Location} {xs ys zs : List (List Char)}

/-! ### Sizes -/

lemma size_intercalate_cons (hys : ys ≠ []) (x : List Char) :
    Utf8.size (['/'].intercalate (x :: ys)) =
      Utf8.size x + (1 + Utf8.size (['/'].intercalate ys)) := by
  have hslash : (String.utf8EncodeChar '/').length = 1 := by decide
  rw [List.intercalate_cons_of_ne_nil hys, Utf8.size, Utf8.size, Utf8.size]
  simp only [Utf8.encode_append, Utf8.encode_cons, Utf8.encode_nil, List.length_append, hslash,
    List.length_nil, Nat.add_zero, Nat.add_assoc]

lemma size_intercalate_le (h : xs.Sublist ys) :
    Utf8.size (['/'].intercalate xs) ≤ Utf8.size (['/'].intercalate ys) := by
  induction h with
  | slnil => rfl
  | @cons xs ys x h ih =>
    rcases eq_or_ne ys [] with rfl | hys
    · simp [List.sublist_nil.mp h, Utf8.size]
    · rw [size_intercalate_cons hys]
      omega
  | @cons_cons xs ys x h ih =>
    rcases eq_or_ne ys [] with rfl | hys
    · simp [List.sublist_nil.mp h]
    · rcases eq_or_ne xs [] with rfl | hxs
      · rw [size_intercalate_cons hys, List.intercalate_singleton]
        omega
      · rw [size_intercalate_cons hys, size_intercalate_cons hxs]
        omega

/-- A path with fewer pieces is no longer. -/
lemma IsShort.of_sublist (hq : q.IsShort) (h : p.pieces.Sublist q.pieces) : p.IsShort := by
  rw [IsShort, ← intercalate_pieces] at hq ⊢
  exact (size_intercalate_le h).trans_lt hq

lemma sublist_dropWhile {α : Type} {xs ys : List α} (test : α → Bool) (h : xs.Sublist ys) :
    (xs.dropWhile test).Sublist (ys.dropWhile test) := by
  induction h with
  | slnil => exact List.Sublist.slnil
  | cons y h ih =>
    rw [List.dropWhile_cons]
    split_ifs
    · exact ih
    · exact ((List.dropWhile_sublist test).trans h).cons y
  | cons_cons y h ih =>
    rw [List.dropWhile_cons, List.dropWhile_cons]
    split_ifs
    · exact ih
    · exact h.cons_cons y

lemma sublist_trim_append (hzs : zs ≠ []) (h : xs.Sublist ys) :
    (trim (zs ++ xs)).Sublist (trim (zs ++ ys)) := by
  obtain ⟨z, zs, rfl⟩ := List.exists_cons_of_ne_nil hzs
  have hrest : (zs ++ xs).Sublist (zs ++ ys) := h.append_left zs
  exact ((sublist_dropWhile _ hrest.reverse).reverse).cons_cons z

lemma trim_sublist (xs : List (List Char)) : (trim xs).Sublist xs := by
  obtain ⟨blanks, hxs, -⟩ := exists_trim_append xs
  nth_rewrite 2 [hxs]
  exact List.sublist_append_left _ _

/-! ### Spellings -/

/-- A path that is spelled from a directory and lies under it: after the pieces of the directory it
has others, with a name and without `..` among them. -/
structure IsSpelledFrom (p dir : Path) : Prop where
  isAbsolute : p.isAbsolute = dir.isAbsolute
  leads : ∃ rest, p.pieces = dir.base ++ rest ∧ ['.', '.'] ∉ rest ∧ entryNames rest ≠ []

/-- What a relative path adds to a directory is spelled from there. -/
lemma isSpelledFrom_join (hq : q.isAbsolute = false) (hdots : .parent ∉ q.components)
    (hnames : q.names ≠ []) (hdir : dir.chars ≠ []) : (dir.join q).IsSpelledFrom dir :=
  ⟨isAbsolute_join hq hdir, q.pieces, pieces_join hq hdir, mt parent_mem_components.mpr hdots,
    names_eq q ▸ hnames⟩

/-- A path is spelled from a directory through those at `above`, and ends in the name `n`. -/
structure Spells (dir p : Path) (above : Location) (n : Name) : Prop where
  isEntryName : IsEntryName n
  isAbsolute : p.isAbsolute = dir.isAbsolute
  leads : ∃ before, p.pieces = dir.base ++ before ++ [n] ∧ entryNames before = above ∧
    ['.', '.'] ∉ before

lemma base_child (hm : IsEntryName m) (hp : p.chars ≠ []) : (p.child m).base = p.base ++ [m] := by
  have hlast : (p.child m).chars.getLast? ≠ some '/' := by
    rw [← intercalate_pieces, pieces_child_eq hm hp, getLast?_intercalate_concat hm.ne_nil]
    exact fun h => hm.slash_notMem (List.mem_of_getLast? h)
  rw [base, if_neg hlast, pieces_child_eq hm hp]

lemma pieces_descend (hnames : ∀ n ∈ names, IsEntryName n) (hne : names ≠ []) (hp : p.chars ≠ []) :
    (p.descend names).pieces = p.base ++ names := by
  induction names generalizing p with
  | nil => exact absurd rfl hne
  | cons n names ih =>
    obtain ⟨hn, hnames⟩ := List.forall_mem_cons.mp hnames
    rw [descend_cons]
    rcases eq_or_ne names [] with rfl | hrest
    · exact pieces_child_eq hn hp
    · rw [ih hnames hrest (chars_child_ne_nil hn p), base_child hn hp, List.append_assoc,
        List.singleton_append]

namespace Spells

lemma components_eq (h : dir.Spells p above n) :
    p.components = dir.components ++ (above ++ [n]).map .name := by
  obtain ⟨before, hpieces, rfl, hdots⟩ := h.leads
  have hbefore : componentsFrom false before = (entryNames before).map .name :=
    components_of_not_parent_mem (mt parent_mem_componentsFrom.mp hdots)
  rw [Path.components_eq, Path.components_eq dir, h.isAbsolute, hpieces,
    componentsFrom_concat h.isEntryName, componentsFrom_append dir.base_ne_nil, componentsFrom_base,
    hbefore]
  simp

lemma isEntryName_of_mem (h : dir.Spells p above n) (hm : m ∈ above) : IsEntryName m := by
  obtain ⟨before, hpieces, rfl, -⟩ := h.leads
  obtain ⟨hmem, hname⟩ := List.mem_filter.mp hm
  have hslash : '/' ∉ m := slash_notMem_of_mem_pieces (p := p) (by simp [hpieces, hmem])
  simp only [IsBlank, not_or, decide_eq_true_eq] at hname
  exact ⟨hname.1.1, hslash, hname.1.2, hname.2⟩

/-- The directory of a short path is short as the walk spells it. -/
lemma isShort_descend (h : dir.Spells p above n) (hne : dir.chars ≠ []) (hdir : dir.IsShort)
    (hp : p.IsShort) : (dir.descend above).IsShort := by
  rcases eq_or_ne above [] with rfl | habove
  · exact hdir
  · refine hp.of_sublist ?_
    rw [pieces_descend (fun m hm => h.isEntryName_of_mem hm) habove hne]
    obtain ⟨before, hpieces, rfl, -⟩ := h.leads
    rw [hpieces]
    exact (List.filter_sublist.append_left _).trans (List.sublist_append_left _ _)

/-- A name beside a path has a short path from the walk if it has one from the path. -/
lemma isShort_withFileName (h : dir.Spells p above n) (hne : dir.chars ≠ []) (hm : IsEntryName m)
    (hp : (p.withFileName m).IsShort) :
    (((dir.descend (above ++ [m])).withFileName n).withFileName m).IsShort := by
  have hnames : ∀ k ∈ above ++ [m], IsEntryName k := by
    simpa [or_imp, forall_and] using ⟨fun k => h.isEntryName_of_mem, hm⟩
  have hwalk := pieces_descend hnames (List.concat_ne_nil m above) hne
  rw [← List.append_assoc] at hwalk
  have hsource := (pieces_withFileName hwalk hm h.isEntryName).1
  refine hp.of_sublist ?_
  rw [(pieces_withFileName hsource h.isEntryName hm).1]
  obtain ⟨before, hpieces, rfl, -⟩ := h.leads
  rw [(pieces_withFileName hpieces h.isEntryName hm).1]
  refine ((trim_sublist _).trans ?_).append_right [m]
  exact sublist_trim_append dir.base_ne_nil List.filter_sublist

end Spells

end Path

/-! ### Places -/

namespace FileSystem

variable {fs : FileSystem} {ending : Ending} {l k : Location} {node : Node} {place : Place}
  {p root : Path}

lemma placeAt_inj (h : fs.placeAt l = fs.placeAt k) : l = k := by
  rw [placeAt, placeAt] at h
  split at h <;> split at h <;> simp_all

/-- A path that is spelled from a directory leads below it, name by name. -/
lemma resolve_of_pieces {rest : List (List Char)} (hfs : fs.IsTree)
    (hroot : fs.find root = .ok (l, .directory)) (hlinks : fs.IsLinkFree l)
    (habsolute : p.isAbsolute = root.isAbsolute) (hpieces : p.pieces = root.base ++ rest)
    (hdots : ['.', '.'] ∉ rest) (hrest : Path.entryNames rest ≠ [])
    (h : fs.resolve ending p = .ok place) :
    place = fs.placeAt (l ++ Path.entryNames rest) := by
  rw [find_eq_ok_iff] at hroot
  have hl : fs.nodeAt l = some .directory := resolve_fits hfs hroot
  obtain ⟨start, hstart, hfollow⟩ := exists_start?_of_resolve hroot
  obtain ⟨start', hstart', hfollow'⟩ := exists_start?_of_resolve h
  rw [start?, habsolute, ← start?, hstart, Option.some_inj] at hstart'
  subst hstart'
  obtain ⟨blanks, hbase, hblanks⟩ := root.exists_base_append
  rw [hbase] at hfollow
  rw [hpieces] at hfollow'
  have hmore : ∃ q ∈ rest, q ≠ [] := by
    obtain ⟨n, names, hnames⟩ := List.exists_cons_of_ne_nil hrest
    have hn : n ∈ Path.entryNames rest := hnames ▸ List.mem_cons_self
    obtain ⟨hmem, hname⟩ := List.mem_filter.mp hn
    exact ⟨n, hmem, fun hnil => by simp [hnil, Path.IsBlank] at hname⟩
  obtain ⟨left, hleft⟩ := exists_followPieces_append hblanks hmore hfollow
  rw [hleft] at hfollow'
  exact followPieces_eq_placeAt hlinks hl hdots hfollow'

/-- A path that is spelled from a directory and leads to a file spells the place of the file. -/
theorem exists_spells_of_find (hfs : fs.IsTree) (hroot : fs.find root = .ok (l, .directory))
    (hlinks : fs.IsLinkFree l) (hp : p.IsSpelledFrom root) (hfind : fs.find p = .ok (k, node))
    (hnode : node ≠ .directory) :
    ∃ above n, root.Spells p above n ∧ fs.IsEntry p (l ++ above) n ∧ IsValidName n ∧ p.IsShort ∧
      k = l ++ above ++ [n] := by
  obtain ⟨dir, n, hentry, hn, hshort, -⟩ := exists_isEntry_of_find hfind hnode
  obtain ⟨rest, hpieces, hdots, hrest⟩ := hp.leads
  have hplace : fs.resolve .link p = .ok (fs.placeAt (dir ++ [n])) :=
    hentry.resolve hn hshort (.inl rfl)
  -- the entry and the node that is found are both spelled by the pieces below the directory
  have hdir := placeAt_inj
    (resolve_of_pieces hfs hroot hlinks hp.isAbsolute hpieces hdots hrest hplace)
  have hk := resolve_of_pieces hfs hroot hlinks hp.isAbsolute hpieces hdots hrest
    (find_eq_ok_iff.mp hfind)
  obtain ⟨before, x, rfl⟩ := (List.eq_nil_or_concat' rest).resolve_left fun hnil => by
    simp [hnil, Path.entryNames] at hrest
  obtain rfl : n = x := by
    obtain ⟨-, before', -, -, hpieces', -⟩ := hentry.leads
    have hlast := congrArg List.getLast? (hpieces.symm.trans hpieces')
    rw [← List.append_assoc, List.getLast?_concat, List.getLast?_concat] at hlast
    exact (Option.some.inj hlast).symm
  rw [Path.entryNames_append, Path.entryNames_singleton hentry.isEntryName, ← List.append_assoc]
    at hdir hk
  obtain ⟨rfl, -⟩ := List.append_inj' hdir rfl
  refine ⟨Path.entryNames before, n, ⟨hentry.isEntryName, hp.isAbsolute, before, ?_, rfl, ?_⟩, hentry,
    hn, hshort, ?_⟩
  · rw [hpieces, List.append_assoc]
  · exact fun hmem => hdots (List.mem_append_left _ hmem)
  · exact (found_eq_placeAt_iff.mp hk).1

/-- What is added to the path of a directory stands for an entry of it. -/
lemma isEntry_child {dir : Path} {n : Name} (hdir : fs.find dir = .ok (l, .directory))
    (hn : Path.IsEntryName n) : fs.IsEntry (dir.child n) l n := by
  rw [find_eq_ok_iff] at hdir
  obtain ⟨hnul, hne, -⟩ := spelling_of_resolve hdir
  obtain ⟨start, hstart, hfollow⟩ := exists_start?_of_resolve hdir
  obtain ⟨blanks, hbase, hblanks⟩ := dir.exists_base_append
  refine ⟨hn, start, dir.base, blanks, ?_, Path.pieces_child_eq hn hne, fun piece hpiece hmem => ?_,
    hblanks, hbase ▸ hfollow⟩
  · rwa [start?, Path.isAbsolute_child hn hne, ← start?]
  · refine hnul ((Path.mem_chars_iff (by decide)).mpr ⟨piece, ?_, hmem⟩)
    rw [hbase]
    exact List.mem_append_left _ hpiece

end FileSystem

end ConstPromotion
