import ConstPromotion.Proofs.FileSystem.Shape
import ConstPromotion.Proofs.FileSystem.Trees

/-!
# Entries by path

A path that leads to anything but a directory ends in a name, and the pieces before the name lead to
a directory (`exists_isEntry_of_find`): the path stands for the entry of that name. The same path
with another name in place of the last one stands for the entry of the other name in the same
directory (`IsEntry.withFileName`), so a file and what is put beside it are always found together.
-/

namespace ConstPromotion.FileSystem

variable {fs fs' : FileSystem} {ending : Ending} {l here dir : Location} {p : Path} {n m : Name}
  {before pieces : List (List Char)} {piece : List Char} {place : Place} {node : Node}

/-! ### The last piece -/

/-- Pieces that lead somewhere lead to a directory without the last one, and on from there. -/
lemma Follows.exists_concat {links : Nat} (h : fs.Follows ending links here pieces place)
    (hpieces : pieces = before ++ [piece]) (hpiece : piece ≠ []) :
    ∃ dir left, fs.Follows .target links here before (.found dir .directory) ∧
      fs.Follows ending left dir [piece] place := by
  -- the last piece stays the last one behind the target of a link
  have hwhole := h
  induction h generalizing before with
  | here => simp at hpieces
  | blank hfirst h ih =>
    rcases List.cons_eq_append_iff.mp hpieces with ⟨rfl, -⟩ | ⟨before, rfl, rfl⟩
    · exact ⟨_, _, .here, hpieces ▸ hwhole⟩
    · obtain ⟨dir, left, hdir, hlast⟩ := ih rfl h
      exact ⟨dir, left, .blank hfirst hdir, hlast⟩
  | parent h ih =>
    rcases List.cons_eq_append_iff.mp hpieces with ⟨rfl, -⟩ | ⟨before, rfl, rfl⟩
    · exact ⟨_, _, .here, hpieces ▸ hwhole⟩
    · obtain ⟨dir, left, hdir, hlast⟩ := ih rfl h
      exact ⟨dir, left, .parent hdir, hlast⟩
  | free hstep hnode hrest =>
    rcases List.cons_eq_append_iff.mp hpieces with ⟨rfl, -⟩ | ⟨before, rfl, rfl⟩
    · exact ⟨_, _, .here, hpieces ▸ hwhole⟩
    · exact absurd (hrest piece (by simp)) hpiece
  | directory hstep hnode h ih =>
    rcases List.cons_eq_append_iff.mp hpieces with ⟨rfl, -⟩ | ⟨before, rfl, rfl⟩
    · exact ⟨_, _, .here, hpieces ▸ hwhole⟩
    · obtain ⟨dir, left, hdir, hlast⟩ := ih rfl h
      exact ⟨dir, left, .directory hstep.target hnode hdir, hlast⟩
  | file | link =>
    rcases List.cons_eq_append_iff.mp hpieces with ⟨rfl, hsingle⟩ | ⟨before, -, hnil⟩
    · obtain rfl := List.singleton_inj.mp hsingle
      exact ⟨_, _, .here, hwhole⟩
    · simp at hnil
  | follow hstep hnode _ htarget h ih =>
    rcases List.cons_eq_append_iff.mp hpieces with ⟨rfl, -⟩ | ⟨before, rfl, rfl⟩
    · exact ⟨_, _, .here, hpieces ▸ hwhole⟩
    · obtain ⟨dir, left, hdir, hlast⟩ := ih (List.append_assoc ..).symm h
      exact ⟨dir, left, .follow hstep.target hnode (by simp) htarget hdir, hlast⟩

lemma exists_followPieces_concat {links : Nat} (hpiece : piece ≠ [])
    (h : fs.followPieces ending links here (before ++ [piece]) = .ok place) :
    ∃ dir left, fs.followPieces .target links here before = .ok (.found dir .directory) ∧
      fs.followPieces ending left dir [piece] = .ok place := by
  simp only [followPieces_eq_ok_iff] at h ⊢
  exact h.exists_concat rfl hpiece

/-- After a slash there can only be a directory. -/
lemma Follows.eq_directory {links : Nat} (h : fs.Follows ending links here pieces place)
    (hlast : ∀ q ∈ pieces.getLast?, q = []) (hplace : place = .found l node) :
    node = .directory := by
  induction h with
  | here => exact (Place.found.inj hplace).2.symm
  | blank _ _ ih | parent _ ih | directory _ _ _ ih =>
    exact ih (fun q hq => hlast q (List.mem_getLast?_cons hq)) hplace
  | free => simp at hplace
  | file hstep | link hstep => exact absurd (.inl (hlast _ rfl)) hstep.ne_blank
  | @follow _ _ piece _ rest _ hstep _ _ _ _ ih =>
    have hrest : rest ≠ [] := by
      rintro rfl
      exact hstep.ne_blank (.inl (hlast piece rfl))
    refine ih (fun q hq => ?_) hplace
    rw [List.getLast?_append_of_ne_nil _ hrest] at hq
    exact hlast q (List.mem_getLast?_cons hq)

lemma followPieces_concat_nil {links : Nat}
    (h : fs.followPieces ending links here (before ++ [[]]) = .ok (.found l node)) :
    node = .directory :=
  (followPieces_eq_ok_iff.mp h).eq_directory (by simp) rfl

/-- A single piece that leads to anything but a directory is a name. -/
lemma isEntryName_of_followPieces {links : Nat} (hslash : '/' ∉ piece) (hnode : node ≠ .directory)
    (h : fs.followPieces ending links dir [piece] = .ok (.found l node)) :
    Path.IsEntryName piece := by
  rw [followPieces_eq] at h
  rcases piece_cases h with hblank | hparent | hstep
  · rw [followWith_blank hblank, followWith] at h
    exact absurd (Place.found.inj (Except.ok.inj h)).2.symm hnode
  · rw [followWith_parent hparent, followWith] at h
    exact absurd (Place.found.inj (Except.ok.inj h)).2.symm hnode
  · have hne := hstep.ne_blank
    rw [not_or] at hne
    exact ⟨hne.1, hslash, hne.2, hstep.ne_parent⟩

lemma size_le_of_followPieces {links : Nat} (hn : Path.IsEntryName n)
    (h : fs.followPieces ending links dir [n] = .ok place) : Utf8.size n ≤ maxNameBytes := by
  rw [followPieces_eq] at h
  rcases piece_cases h with (hnil | hcurrent) | hparent | hstep
  · exact absurd hnil hn.ne_nil
  · exact absurd hcurrent hn.ne_current
  · exact absurd hparent hn.ne_parent
  · exact hstep.size_le

lemma exists?_eq_true_iff : fs.exists? p = true ↔ ∃ l node, fs.find p = .ok (l, node) := by
  rw [exists?]
  cases fs.find p with
  | error e => simp [Except.toOption]
  | ok found => exact iff_of_true rfl ⟨found.1, found.2, rfl⟩

lemma Extends.exists? (h : Extends fs fs') (hp : fs.exists? p = true) : fs'.exists? p = true := by
  obtain ⟨l, node, hfind⟩ := exists?_eq_true_iff.mp hp
  exact exists?_eq_true_iff.mpr ⟨l, node, h.find hfind⟩

lemma isShort_of_exists? (hp : fs.exists? p = true) : p.IsShort := by
  obtain ⟨l, node, hfind⟩ := exists?_eq_true_iff.mp hp
  exact isShort_of_find hfind

/-! ### Entries -/

/-- Where a path starts. -/
def start? (fs : FileSystem) (p : Path) : Option Location :=
  if p.isAbsolute then some []
  else if fs.nodeAt fs.workingDir = some .directory then some fs.workingDir
  else none

lemma Grows.start? (h : Grows fs fs') {start : Location} (hstart : fs.start? p = some start) :
    fs'.start? p = some start := by
  have hworkingDir : fs'.workingDir = fs.workingDir := h.workingDir
  rw [FileSystem.start?] at hstart ⊢
  rw [hworkingDir]
  split_ifs at hstart with habsolute hdir
  · rwa [if_pos habsolute]
  · rwa [if_neg habsolute, if_pos (h.nodeAt_directory hdir)]

lemma resolve_of_start? {start : Location} (hnul : '\x00' ∉ p.chars) (hshort : p.IsShort)
    (hnil : p.chars ≠ []) (hstart : fs.start? p = some start) :
    fs.resolve ending p = fs.followPieces ending maxLinks start p.pieces := by
  rw [start?] at hstart
  rw [resolve_eq hnul hnil hshort]
  split_ifs at hstart ⊢ with habsolute hdir <;> obtain rfl := Option.some.inj hstart <;> rfl

lemma exists_start?_of_resolve (h : fs.resolve ending p = .ok place) :
    ∃ start, fs.start? p = some start ∧
      fs.followPieces ending maxLinks start p.pieces = .ok place := by
  obtain ⟨hnul, hnil, hshort⟩ := spelling_of_resolve h
  rw [resolve_eq hnul hnil hshort] at h
  rw [start?]
  split_ifs at h ⊢ with habsolute hdir
  · exact ⟨[], rfl, h⟩
  · exact ⟨fs.workingDir, rfl, h⟩

/-- What a path leads to is known by what its pieces lead to from where it starts. -/
lemma resolve_of_follows {ending' : Ending} {place' : Place} (h : fs.resolve ending p = .ok place)
    (hfollows : ∀ start, fs.start? p = some start →
      fs.Follows ending maxLinks start p.pieces place →
      fs'.start? p = some start ∧ fs'.Follows ending' maxLinks start p.pieces place') :
    fs'.resolve ending' p = .ok place' := by
  obtain ⟨hnul, hnil, hshort⟩ := spelling_of_resolve h
  obtain ⟨start, hstart, hfollow⟩ := exists_start?_of_resolve h
  obtain ⟨hstart', hfollow'⟩ := hfollows start hstart (followPieces_eq_ok_iff.mp hfollow)
  rw [resolve_of_start? hnul hshort hnil hstart', hfollow'.followPieces_eq_ok]

/-- Slashes lead to the root. -/
lemma find_of_forall_slash (hnil : p.chars ≠ []) (hslash : ∀ c ∈ p.chars, c = '/')
    (hshort : p.IsShort) : fs.find p = .ok ([], .directory) := by
  have hnul : '\x00' ∉ p.chars := fun hmem => absurd (hslash _ hmem) (by decide)
  have hstart : fs.start? p = some [] := by
    obtain ⟨c, rest, hchars⟩ := List.exists_cons_of_ne_nil hnil
    obtain rfl : c = '/' := hslash c (by simp [hchars])
    rw [start?, Path.isAbsolute, hchars, if_pos (by simp)]
  have hblank : ∀ piece ∈ p.pieces, Path.IsBlank piece := by
    refine fun piece hpiece => .inl (List.eq_nil_iff_forall_not_mem.mpr fun c hc => ?_)
    have hne : c ≠ '/' := fun heq => Path.slash_notMem_of_mem_pieces hpiece (heq ▸ hc)
    exact hne (hslash c ((Path.mem_chars_iff hne).mpr ⟨piece, hpiece, hc⟩))
  rw [find_eq_ok_iff, resolve_of_start? hnul hshort hnil hstart]
  exact followPieces_blanks hblank

/-- A path stands for the entry of a name in a directory: its last piece is the name, and the pieces
before it, with or without blank ones after them, lead to the directory. -/
structure IsEntry (fs : FileSystem) (p : Path) (dir : Location) (n : Name) : Prop where
  isEntryName : Path.IsEntryName n
  leads : ∃ start before blanks, fs.start? p = some start ∧ p.pieces = before ++ [n] ∧
    (∀ piece ∈ before, '\x00' ∉ piece) ∧ (∀ piece ∈ blanks, Path.IsBlank piece) ∧
    fs.followPieces .target maxLinks start (before ++ blanks) = .ok (.found dir .directory)

namespace IsEntry

lemma fileName? (h : fs.IsEntry p dir n) : p.fileName? = some n := by
  obtain ⟨-, before, -, -, hpieces, -⟩ := h.leads
  exact Path.fileName?_of_pieces hpieces h.isEntryName

lemma chars_ne_nil (h : fs.IsEntry p dir n) : p.chars ≠ [] := by
  obtain ⟨-, before, -, -, hpieces, -⟩ := h.leads
  exact Path.chars_ne_nil_of_pieces hpieces h.isEntryName

/-- A path stands for the entry that is beside its own and has another name, if that name stands in
place of its last one. -/
theorem withFileName (h : fs.IsEntry p dir n) (hm : Path.IsEntryName m) :
    fs.IsEntry (p.withFileName m) dir m := by
  obtain ⟨start, before, blanks, hstart, hpieces, hnul, hblanks, hdir⟩ := h.leads
  obtain ⟨hpieces', habsolute⟩ := Path.pieces_withFileName hpieces h.isEntryName hm
  obtain ⟨blanks', htrim, hblanks'⟩ := Path.exists_trim_append before
  refine ⟨hm, start, Path.trim before, blanks' ++ blanks, ?_, hpieces', ?_, ?_, ?_⟩
  · rw [start?, habsolute]
    exact hstart
  · refine fun piece hpiece => hnul piece ?_
    rw [htrim]
    exact List.mem_append_left _ hpiece
  · simpa [or_imp, forall_and] using ⟨hblanks', hblanks⟩
  · rwa [← List.append_assoc, ← htrim]

lemma mono (h : fs.IsEntry p dir n) (hfs : Grows fs fs') : fs'.IsEntry p dir n := by
  obtain ⟨start, before, blanks, hstart, hpieces, hnul, hblanks, hdir⟩ := h.leads
  exact ⟨h.isEntryName, start, before, blanks, hfs.start? hstart, hpieces, hnul, hblanks,
    hfs.followPieces_directory hdir⟩

lemma nul_notMem_chars (h : fs.IsEntry p dir n) (hn : '\x00' ∉ n) : '\x00' ∉ p.chars := by
  obtain ⟨-, before, -, -, hpieces, hnul, -⟩ := h.leads
  rw [Path.mem_chars_iff (by decide), hpieces]
  simpa [or_imp, forall_and] using ⟨hnul, hn⟩

/-- The path of an entry leads to what lies there, unless it is too long or the name cannot be one. -/
theorem resolve (h : fs.IsEntry p dir n) (hn : IsValidName n) (hshort : p.IsShort)
    (hlink : ending = .link ∨ ∀ target, fs.nodeAt (dir ++ [n]) ≠ some (.link target)) :
    fs.resolve ending p = .ok (fs.placeAt (dir ++ [n])) := by
  obtain ⟨start, before, blanks, hstart, hpieces, hnul, hblanks, hdir⟩ := h.leads
  rw [resolve_of_start? (h.nul_notMem_chars hn.nul_notMem) hshort h.chars_ne_nil hstart, hpieces]
  have hmore : ∃ q ∈ [n], q ≠ [] := ⟨n, List.mem_singleton_self n, hn.ne_nil⟩
  obtain ⟨left, hleft⟩ := exists_followPieces_append hblanks hmore hdir
  rw [hleft, followPieces_name hn hlink]

/-- A path of an entry that leads somewhere is short enough, and its name can be one. -/
lemma isValidName_of_resolve (h : fs.IsEntry p dir n) (hplace : fs.resolve ending p = .ok place) :
    IsValidName n ∧ p.IsShort := by
  obtain ⟨-, before, -, -, hpieces, -, -, -⟩ := h.leads
  obtain ⟨hnul, -, hshort⟩ := spelling_of_resolve hplace
  obtain ⟨start, -, hfollow⟩ := exists_start?_of_resolve hplace
  rw [hpieces] at hfollow
  obtain ⟨dir', left, -, hlast⟩ := exists_followPieces_concat h.isEntryName.ne_nil hfollow
  rw [Path.mem_chars_iff (by decide), hpieces] at hnul
  refine ⟨⟨h.isEntryName, fun hmem => hnul ⟨n, by simp, hmem⟩, ?_⟩, hshort⟩
  exact size_le_of_followPieces h.isEntryName hlast

/-- The path of an entry leads to what lies there, if the path can be followed at all. -/
theorem find_iff (h : fs.IsEntry p dir n)
    (hlink : ∀ target, fs.nodeAt (dir ++ [n]) ≠ some (.link target)) :
    fs.find p = .ok (l, node) ↔
      IsValidName n ∧ p.IsShort ∧ l = dir ++ [n] ∧ fs.nodeAt (dir ++ [n]) = some node := by
  rw [find_eq_ok_iff]
  constructor
  · intro hfind
    obtain ⟨hn, hshort⟩ := h.isValidName_of_resolve hfind
    rw [h.resolve hn hshort (.inr hlink), Except.ok.injEq, eq_comm, found_eq_placeAt_iff] at hfind
    exact ⟨hn, hshort, hfind⟩
  · rintro ⟨hn, hshort, rfl, hnode⟩
    rw [h.resolve hn hshort (.inr hlink), placeAt, hnode]

lemma exists?_iff (h : fs.IsEntry p dir n)
    (hlink : ∀ target, fs.nodeAt (dir ++ [n]) ≠ some (.link target)) :
    fs.exists? p = true ↔ IsValidName n ∧ p.IsShort ∧ fs.nodeAt (dir ++ [n]) ≠ none := by
  rw [exists?_eq_true_iff, Option.ne_none_iff_exists']
  constructor
  · rintro ⟨l, node, hfind⟩
    obtain ⟨hn, hshort, -, hnode⟩ := (h.find_iff hlink).mp hfind
    exact ⟨hn, hshort, node, hnode⟩
  · rintro ⟨hn, hshort, node, hnode⟩
    exact ⟨_, node, (h.find_iff hlink).mpr ⟨hn, hshort, rfl, hnode⟩⟩

end IsEntry

/-- A path that leads to anything but a directory stands for an entry, which is what it leads to
unless there is a link in its place. -/
theorem exists_isEntry_of_find (h : fs.find p = .ok (l, node)) (hnode : node ≠ .directory) :
    ∃ dir n, fs.IsEntry p dir n ∧ IsValidName n ∧ p.IsShort ∧
      ((∀ target, fs.nodeAt (dir ++ [n]) ≠ some (.link target)) → l = dir ++ [n]) := by
  rw [find_eq_ok_iff] at h
  obtain ⟨hnul, -, hshort⟩ := spelling_of_resolve h
  obtain ⟨start, hstart, hfollow⟩ := exists_start?_of_resolve h
  obtain ⟨before, piece, hpieces⟩ := (List.eq_nil_or_concat' p.pieces).resolve_left p.pieces_ne_nil
  have hslash : '/' ∉ piece := Path.slash_notMem_of_mem_pieces (p := p) (by simp [hpieces])
  rw [hpieces] at hfollow
  -- after a slash there could only be a directory
  have hne : piece ≠ [] := by
    rintro rfl
    exact hnode (followPieces_concat_nil hfollow)
  obtain ⟨dir, left, hdir, hlast⟩ := exists_followPieces_concat hne hfollow
  have hname := isEntryName_of_followPieces hslash hnode hlast
  rw [Path.mem_chars_iff (by decide), hpieces] at hnul
  have hvalid : IsValidName piece :=
    ⟨hname, fun hmem => hnul ⟨piece, by simp, hmem⟩, size_le_of_followPieces hname hlast⟩
  refine ⟨dir, piece, ⟨hname, start, before, [], hstart, hpieces, ?_, by simp, by simpa using hdir⟩,
    hvalid, hshort, fun hlink => ?_⟩
  · exact fun b hb hmem => hnul ⟨b, by simp [hb], hmem⟩
  · rw [followPieces_name hvalid (.inr hlink), Except.ok.injEq, eq_comm,
      found_eq_placeAt_iff] at hlast
    exact hlast.1

/-! ### Without links -/

/-- There are no links at a location and below it. -/
def IsLinkFree (fs : FileSystem) (l : Location) : Prop :=
  ∀ below target, fs.nodeAt (l ++ below) ≠ some (.link target)

/-- There are no links if each entry is a directory or a file. -/
lemma isLinkFree_of_forall
    (h : ∀ e ∈ fs.nodes.entries, e.2.shape = .directory ∨ e.2.shape = .file [] false)
    (l : Location) : fs.IsLinkFree l := by
  intro below target hnode
  by_cases hnil : l ++ below = []
  · simp [hnil] at hnode
  · have hshape := h _ (mem_entries_of_nodeAt hnil hnode)
    simp [Node.shape] at hshape

lemma IsLinkFree.append (h : fs.IsLinkFree l) (below : Location) : fs.IsLinkFree (l ++ below) := by
  intro below' target
  rw [List.append_assoc]
  exact h _ _

lemma IsLinkFree.put (h : fs.IsLinkFree l) {k : Location} (hk : k ≠ []) (content : Bytes)
    (executable : Bool) : (fs.put k (.file content executable)).IsLinkFree l := by
  intro below target
  rw [nodeAt_put hk]
  split_ifs
  · simp
  · exact h below target

/-- Two paths to one file end in the same name. -/
lemma fileName?_eq_of_find {q : Path} {node' : Node} (hlinks : fs.IsLinkFree [])
    (hp : fs.find p = .ok (l, node)) (hq : fs.find q = .ok (l, node')) (hnode : node ≠ .directory)
    (hnode' : node' ≠ .directory) : p.fileName? = q.fileName? := by
  obtain ⟨dir, n, hentry, -, -, hl⟩ := exists_isEntry_of_find hp hnode
  obtain ⟨dir', m, hentry', -, -, hl'⟩ := exists_isEntry_of_find hq hnode'
  obtain ⟨-, hname⟩ := List.append_inj' ((hl (hlinks _)).symm.trans (hl' (hlinks _))) rfl
  rw [hentry.fileName?, hentry'.fileName?, List.singleton_inj.mp hname]

lemma IsStep.entryNames_eq {rest : List (List Char)} (h : IsStep ending piece rest) :
    Path.entryNames [piece] = [piece] := by
  have hne : ¬ Path.IsBlank piece := h.ne_blank
  simp [Path.entryNames, hne, h.ne_parent]

/-- Without links and `..`, pieces lead to the location that their names spell. -/
lemma Follows.eq_placeAt {links : Nat} (h : fs.Follows ending links here pieces place)
    (hlinks : fs.IsLinkFree here) (hhere : fs.nodeAt here = some .directory)
    (hdots : ['.', '.'] ∉ pieces) : place = fs.placeAt (here ++ Path.entryNames pieces) := by
  induction h with
  | here => simp [placeAt, Path.entryNames, hhere]
  | blank hpiece _ ih =>
    rw [Path.entryNames_cons, Path.entryNames_of_forall_isBlank (List.forall_mem_singleton.mpr hpiece)]
    exact ih hlinks hhere (List.not_mem_of_not_mem_cons hdots)
  | parent => simp at hdots
  | free hstep hnode hrest =>
    rw [Path.entryNames_cons, hstep.entryNames_eq,
      Path.entryNames_of_forall_isBlank fun q hq => .inl (hrest q hq)]
    simp [placeAt, hnode]
  | @directory _ here piece _ _ hstep hnode _ ih =>
    rw [Path.entryNames_cons, hstep.entryNames_eq, ← List.append_assoc]
    exact ih (hlinks.append [piece]) hnode (List.not_mem_of_not_mem_cons hdots)
  | file hstep hnode => rw [hstep.entryNames_eq, placeAt, hnode]
  | link _ hnode | follow _ hnode => exact absurd hnode (hlinks _ _)

lemma followPieces_eq_placeAt {links : Nat} (hlinks : fs.IsLinkFree here)
    (hhere : fs.nodeAt here = some .directory) (hdots : ['.', '.'] ∉ pieces)
    (h : fs.followPieces ending links here pieces = .ok place) :
    place = fs.placeAt (here ++ Path.entryNames pieces) :=
  (followPieces_eq_ok_iff.mp h).eq_placeAt hlinks hhere hdots

/-- An absolute path is followed from the root. -/
lemma followPieces_of_isAbsolute (habsolute : p.isAbsolute) (h : fs.resolve ending p = .ok place) :
    fs.followPieces ending maxLinks [] p.pieces = .ok place := by
  obtain ⟨start, hstart, hfollow⟩ := exists_start?_of_resolve h
  rw [start?, if_pos habsolute, Option.some_inj] at hstart
  rwa [hstart]

/-- Where there are no links, an absolute path without `..` leads to the location that its names
spell. -/
theorem resolve_eq_placeAt (hlinks : fs.IsLinkFree []) (habsolute : p.isAbsolute)
    (hdots : .parent ∉ p.components) (h : fs.resolve ending p = .ok place) :
    place = fs.placeAt p.names := by
  have hfollow := followPieces_of_isAbsolute habsolute h
  rw [Path.parent_mem_components] at hdots
  rw [followPieces_eq_placeAt hlinks (nodeAt_nil fs) hdots hfollow, List.nil_append, Path.names_eq]

/-- Where there are no links, a plain path leads to the location that its names spell. -/
lemma location_eq_names (hlinks : fs.IsLinkFree []) (hplain : p.IsPlain)
    (h : fs.find p = .ok (l, node)) : l = p.names := by
  have hplace :=
    resolve_eq_placeAt hlinks hplain.isAbsolute hplain.parent_notMem (find_eq_ok_iff.mp h)
  exact (found_eq_placeAt_iff.mp hplace).1

/-- Two paths lead to the same place. -/
def SamePlace (fs : FileSystem) (p q : Path) : Prop :=
  ∃ l node node', fs.find p = .ok (l, node) ∧ fs.find q = .ok (l, node')

instance (fs : FileSystem) (p q : Path) : Decidable (fs.SamePlace p q) :=
  decidable_of_iff (∃ l ∈ (fs.find p).toOption.map Prod.fst, l ∈ (fs.find q).toOption.map Prod.fst)
    (by
      cases hp : fs.find p <;> cases hq : fs.find q <;>
        simp [SamePlace, hp, hq, Except.toOption, Prod.ext_iff])

/-- Paths that lead to the same place still do so when there is more. -/
lemma SamePlace.mono {q : Path} (h : fs.SamePlace p q) (hfs : Grows fs fs') :
    fs'.SamePlace p q := by
  obtain ⟨l, node, node', hp, hq⟩ := h
  obtain ⟨later, hp', -⟩ := hfs.find hp
  obtain ⟨later', hq', -⟩ := hfs.find hq
  exact ⟨l, later, later', hp', hq'⟩

/-- Where there are no links, plain paths that lead to the same place are the same. -/
lemma SamePlace.same {q : Path} (h : fs.SamePlace p q) (hlinks : fs.IsLinkFree []) (hp : p.IsPlain)
    (hq : q.IsPlain) : p.same q := by
  obtain ⟨l, node, node', hpl, hql⟩ := h
  rw [hp.same_iff hq, ← location_eq_names hlinks hp hpl, location_eq_names hlinks hq hql]

lemma IsEntry.names_eq (h : fs.IsEntry p dir n) (hlinks : fs.IsLinkFree []) (habsolute : p.isAbsolute)
    (hdots : .parent ∉ p.components) : p.names = dir ++ [n] := by
  obtain ⟨start, before, blanks, hstart, hpieces, -, hblanks, hdir⟩ := h.leads
  rw [start?, if_pos habsolute, Option.some_inj] at hstart
  subst hstart
  rw [Path.parent_mem_components, hpieces, List.mem_append, not_or] at hdots
  have hmem : ['.', '.'] ∉ before ++ blanks := by
    rw [List.mem_append, not_or]
    refine ⟨hdots.1, fun hmem => ?_⟩
    rcases hblanks _ hmem with hblank | hblank <;> simp at hblank
  obtain ⟨rfl, -⟩ :=
    found_eq_placeAt_iff.mp (followPieces_eq_placeAt hlinks (nodeAt_nil fs) hmem hdir)
  rw [Path.names_eq, hpieces, Path.entryNames_append, Path.entryNames_append,
    Path.entryNames_singleton h.isEntryName, Path.entryNames_of_forall_isBlank hblanks,
    List.append_nil, List.nil_append]

end ConstPromotion.FileSystem
