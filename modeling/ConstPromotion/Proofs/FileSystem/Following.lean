import ConstPromotion.Proofs.FileSystem.Nodes
import ConstPromotion.Proofs.Path.Pieces

/-!
# Following paths

A path to a directory with a name appended leads to what lies under that name in the directory
(`resolve_child`), whatever links the path goes through. What a path leads to is still there after
other nodes were made (`Extends.find`). With these two, the operations on files are described by
locations alone.

A path is followed by two recursions, one along its pieces and one along the links that may still be
followed. `Follows` is the relation of what they do, and `followPieces_eq_ok_iff` its agreement with
them; what pieces lead to is shown by induction on it.
-/

namespace ConstPromotion

/-- A path that is short enough to be followed. -/
def Path.IsShort (p : Path) : Prop := Utf8.size p.chars < FileSystem.maxPathBytes

instance (p : Path) : Decidable p.IsShort := inferInstanceAs (Decidable (_ < _))

namespace FileSystem

/-- The names that an entry can be given. -/
structure IsValidName (n : Name) : Prop extends Path.IsEntryName n where
  nul_notMem : '\x00' ∉ n
  size_le : Utf8.size n ≤ maxNameBytes

instance : DecidablePred IsValidName := fun n =>
  decidable_of_iff (Path.IsEntryName n ∧ '\x00' ∉ n ∧ Utf8.size n ≤ maxNameBytes)
    ⟨fun h => ⟨h.1, h.2.1, h.2.2⟩, fun h => ⟨h.toIsEntryName, h.nul_notMem, h.size_le⟩⟩

/-- What a location is without regard to links. -/
def placeAt (fs : FileSystem) (l : Location) : Place :=
  match fs.nodeAt l with
  | none => .free l
  | some n => .found l n

variable {fs fs' : FileSystem} {ending : Ending} {l here : Location} {pieces : List (List Char)}
  {onLink onLink' : Location → List Char → List (List Char) → Except OsError Place}

lemma found_eq_placeAt_iff {n : Node} :
    .found l n = fs.placeAt here ↔ l = here ∧ fs.nodeAt here = some n := by
  rw [placeAt]
  cases fs.nodeAt here <;> simp [eq_comm]

lemma free_eq_placeAt_iff : .free l = fs.placeAt here ↔ l = here ∧ fs.nodeAt here = none := by
  rw [placeAt]
  cases fs.nodeAt here <;> simp

/-! ### One piece -/

/-- A piece stands for an entry of the directory it is followed from, given the pieces after it. -/
structure IsStep (ending : Ending) (piece : List Char) (rest : List (List Char)) : Prop where
  ne_blank : ¬ (piece = [] ∨ piece = ['.'])
  ne_parent : piece ≠ ['.', '.']
  noSlash : ¬ (ending = .file ∧ rest ≠ [] ∧ rest.all (· = []))
  size_le : Utf8.size piece ≤ maxNameBytes

/-- For a file, no slash may stand after the name. -/
lemma IsStep.eq_nil_of_forall {piece : List Char} {rest : List (List Char)}
    (h : IsStep .file piece rest) (hrest : ∀ q ∈ rest, q = []) : rest = [] := by
  by_contra hne
  exact h.noSlash ⟨rfl, hne, by simpa using hrest⟩

lemma IsStep.target {piece : List Char} {rest rest' : List (List Char)}
    (h : IsStep ending piece rest) : IsStep .target piece rest' :=
  ⟨h.ne_blank, h.ne_parent, by simp, h.size_le⟩

lemma IsStep.file_of_nil {piece : List Char} (h : IsStep ending piece []) : IsStep .file piece [] :=
  ⟨h.ne_blank, h.ne_parent, by simp, h.size_le⟩

/-- Goes on with the entry that a piece stands for. -/
def enter (fs : FileSystem) (ending : Ending)
    (onLink : Location → List Char → List (List Char) → Except OsError Place) (here : Location)
    (piece : List Char) (rest : List (List Char)) : Except OsError Place :=
  match fs.nodeAt (here ++ [piece]) with
  | none =>
    if rest.all (· = []) then .ok (.free (here ++ [piece])) else .error .notFound
  | some .directory => fs.followWith ending onLink (here ++ [piece]) rest
  | some (.file content executable) =>
    if rest = [] then .ok (.found (here ++ [piece]) (.file content executable))
    else .error .notDirectory
  | some (.link target) =>
    if rest = [] ∧ ending = .link then .ok (.found (here ++ [piece]) (.link target))
    else onLink here target rest

section Piece

variable {piece : List Char} {rest : List (List Char)}

lemma followWith_blank (h : piece = [] ∨ piece = ['.']) :
    fs.followWith ending onLink here (piece :: rest) = fs.followWith ending onLink here rest := by
  rw [followWith, if_pos h]

lemma followWith_parent (h : piece = ['.', '.']) :
    fs.followWith ending onLink here (piece :: rest) =
      fs.followWith ending onLink here.dropLast rest := by
  rw [followWith, if_neg (by simp [h]), if_pos h]

lemma IsStep.followWith_eq (h : IsStep ending piece rest) :
    fs.followWith ending onLink here (piece :: rest) =
      fs.enter ending onLink here piece rest := by
  rw [followWith, if_neg h.ne_blank, if_neg h.ne_parent, if_neg h.noSlash, if_neg h.size_le.not_gt]
  rfl

/-- All that a piece can be on a path that leads somewhere. -/
lemma piece_cases {place : Place}
    (h : fs.followWith ending onLink here (piece :: rest) = .ok place) :
    (piece = [] ∨ piece = ['.']) ∨ piece = ['.', '.'] ∨ IsStep ending piece rest := by
  rw [followWith] at h
  by_cases hblank : piece = [] ∨ piece = ['.']
  · exact .inl hblank
  by_cases hparent : piece = ['.', '.']
  · exact .inr (.inl hparent)
  rw [if_neg hblank, if_neg hparent] at h
  by_cases hslash : ending = .file ∧ rest ≠ [] ∧ rest.all (· = [])
  · rw [if_pos hslash] at h
    simp at h
  rw [if_neg hslash] at h
  by_cases hsize : Utf8.size piece > maxNameBytes
  · simp [hsize] at h
  exact .inr (.inr ⟨hblank, hparent, hslash, not_lt.mp hsize⟩)

end Piece

/-! ### What pieces lead to -/

/-- What comes of a link on the way, given how many links may be followed. -/
def followLink (fs : FileSystem) (ending : Ending) : (links : Nat) → (here : Location) →
    (target : List Char) → List (List Char) → Except OsError Place
  | 0, _, _, _ => .error .tooManyLinks
  | links + 1, here, target, rest =>
    if target = [] then .error .notFound
    else
      fs.followPieces ending links (if target.head? = some '/' then [] else here)
        (target.splitOn '/' ++ rest)

lemma followPieces_eq (fs : FileSystem) (ending : Ending) (links : Nat) (here : Location)
    (pieces : List (List Char)) :
    fs.followPieces ending links here pieces =
      fs.followWith ending (fs.followLink ending links) here pieces := by
  cases links <;> rfl

section Piece

variable {links : Nat} {piece target : List Char} {rest : List (List Char)}

@[simp] lemma followPieces_nil :
    fs.followPieces ending links here [] = .ok (.found here .directory) := by
  rw [followPieces_eq, followWith]

lemma followPieces_blank (h : Path.IsBlank piece) :
    fs.followPieces ending links here (piece :: rest) = fs.followPieces ending links here rest := by
  rw [followPieces_eq, followPieces_eq, followWith_blank h]

lemma followPieces_parent :
    fs.followPieces ending links here (['.', '.'] :: rest) =
      fs.followPieces ending links here.dropLast rest := by
  rw [followPieces_eq, followPieces_eq, followWith_parent rfl]

namespace IsStep

lemma followPieces_eq (h : IsStep ending piece rest) :
    fs.followPieces ending links here (piece :: rest) =
      fs.enter ending (fs.followLink ending links) here piece rest := by
  rw [FileSystem.followPieces_eq, h.followWith_eq]

lemma followPieces_directory (h : IsStep ending piece rest)
    (hnode : fs.nodeAt (here ++ [piece]) = some .directory) :
    fs.followPieces ending links here (piece :: rest) =
      fs.followPieces ending links (here ++ [piece]) rest := by
  rw [h.followPieces_eq, FileSystem.followPieces_eq, enter, hnode]

lemma followPieces_link (h : IsStep ending piece rest)
    (hnode : fs.nodeAt (here ++ [piece]) = some (.link target))
    (hend : ¬ (rest = [] ∧ ending = .link)) (htarget : target ≠ []) :
    fs.followPieces ending (links + 1) here (piece :: rest) =
      fs.followPieces ending links (if target.head? = some '/' then [] else here)
        (target.splitOn '/' ++ rest) := by
  rw [h.followPieces_eq, enter, hnode]
  simp only [if_neg hend, followLink, if_neg htarget]

end IsStep
end Piece

/-- Pieces lead from a directory to a place, with at most so many links on the way. -/
inductive Follows (fs : FileSystem) (ending : Ending) :
    (links : Nat) → (here : Location) → List (List Char) → Place → Prop
  | here {links : Nat} {here : Location} : Follows fs ending links here [] (.found here .directory)
  | blank {links : Nat} {here : Location} {piece : List Char} {rest : List (List Char)}
      {place : Place} (hpiece : Path.IsBlank piece) (h : Follows fs ending links here rest place) :
      Follows fs ending links here (piece :: rest) place
  | parent {links : Nat} {here : Location} {rest : List (List Char)} {place : Place}
      (h : Follows fs ending links here.dropLast rest place) :
      Follows fs ending links here (['.', '.'] :: rest) place
  /-- Nothing is there, and only slashes come after the name. -/
  | free {links : Nat} {here : Location} {piece : List Char} {rest : List (List Char)}
      (hstep : IsStep ending piece rest) (hnode : fs.nodeAt (here ++ [piece]) = none)
      (hrest : ∀ q ∈ rest, q = []) :
      Follows fs ending links here (piece :: rest) (.free (here ++ [piece]))
  | directory {links : Nat} {here : Location} {piece : List Char} {rest : List (List Char)}
      {place : Place} (hstep : IsStep ending piece rest)
      (hnode : fs.nodeAt (here ++ [piece]) = some .directory)
      (h : Follows fs ending links (here ++ [piece]) rest place) :
      Follows fs ending links here (piece :: rest) place
  | file {links : Nat} {here : Location} {piece : List Char} {content : Bytes} {executable : Bool}
      (hstep : IsStep ending piece [])
      (hnode : fs.nodeAt (here ++ [piece]) = some (.file content executable)) :
      Follows fs ending links here [piece] (.found (here ++ [piece]) (.file content executable))
  /-- A link at the end that stands for itself. -/
  | link {links : Nat} {here : Location} {piece target : List Char} (hstep : IsStep ending piece [])
      (hnode : fs.nodeAt (here ++ [piece]) = some (.link target)) (hending : ending = .link) :
      Follows fs ending links here [piece] (.found (here ++ [piece]) (.link target))
  /-- A link that is followed: the pieces of its target come before those that are left. -/
  | follow {links : Nat} {here : Location} {piece target : List Char} {rest : List (List Char)}
      {place : Place} (hstep : IsStep ending piece rest)
      (hnode : fs.nodeAt (here ++ [piece]) = some (.link target))
      (hend : ¬ (rest = [] ∧ ending = .link)) (htarget : target ≠ [])
      (h : Follows fs ending links (if target.head? = some '/' then [] else here)
        (target.splitOn '/' ++ rest) place) :
      Follows fs ending (links + 1) here (piece :: rest) place

variable {links : Nat} {place : Place}

lemma Follows.followPieces_eq_ok (h : fs.Follows ending links here pieces place) :
    fs.followPieces ending links here pieces = .ok place := by
  induction h with
  | here => exact followPieces_nil
  | blank hpiece _ ih => rwa [followPieces_blank hpiece]
  | parent _ ih => rwa [followPieces_parent]
  | free hstep hnode hrest =>
    rw [hstep.followPieces_eq, enter, hnode]
    simpa using hrest
  | directory hstep hnode _ ih => rwa [hstep.followPieces_directory hnode]
  | file hstep hnode =>
    rw [hstep.followPieces_eq, enter, hnode]
    simp
  | link hstep hnode hending =>
    rw [hstep.followPieces_eq, enter, hnode]
    simp [hending]
  | follow hstep hnode hend htarget _ ih => rwa [hstep.followPieces_link hnode hend htarget]

lemma follows_of_followPieces (h : fs.followPieces ending links here pieces = .ok place) :
    fs.Follows ending links here pieces place := by
  -- along the pieces, and from a link on with one link less
  induction links using Nat.strong_induction_on generalizing here pieces with
  | _ links ihlinks =>
    induction pieces generalizing here with
    | nil =>
      obtain rfl := Except.ok.inj (followPieces_nil.symm.trans h)
      exact .here
    | cons piece rest ih =>
      rcases piece_cases (followPieces_eq .. ▸ h) with hblank | rfl | hstep
      · exact .blank hblank (ih (followPieces_blank hblank ▸ h))
      · exact .parent (ih (followPieces_parent ▸ h))
      cases hnode : fs.nodeAt (here ++ [piece]) with
      | none =>
        simp only [hstep.followPieces_eq, enter, hnode] at h
        split_ifs at h with hrest
        obtain rfl := Except.ok.inj h
        exact .free hstep hnode (by simpa using hrest)
      | some node =>
        cases node with
        | directory => exact .directory hstep hnode (ih (hstep.followPieces_directory hnode ▸ h))
        | file content executable =>
          simp only [hstep.followPieces_eq, enter, hnode] at h
          split_ifs at h with hrest
          obtain rfl := Except.ok.inj h
          subst hrest
          exact .file hstep hnode
        | link target =>
          simp only [hstep.followPieces_eq, enter, hnode] at h
          split_ifs at h with hend
          · obtain rfl := Except.ok.inj h
            obtain ⟨rfl, hending⟩ := hend
            exact .link hstep hnode hending
          · cases links with
            | zero => simp [followLink] at h
            | succ links =>
              by_cases htarget : target = []
              · simp [followLink, htarget] at h
              · rw [followLink, if_neg htarget] at h
                exact .follow hstep hnode hend htarget (ihlinks links (Nat.lt_succ_self links) h)

/-- Following the pieces is what the relation says, links and all. -/
theorem followPieces_eq_ok_iff :
    fs.followPieces ending links here pieces = .ok place ↔
      fs.Follows ending links here pieces place :=
  ⟨follows_of_followPieces, Follows.followPieces_eq_ok⟩

/-! ### Beyond a directory -/

lemma followPieces_blanks {blanks : List (List Char)} (h : ∀ b ∈ blanks, Path.IsBlank b) :
    fs.followPieces ending links here blanks = .ok (.found here .directory) := by
  induction blanks with
  | nil => exact followPieces_nil
  | cons b blanks ih =>
    obtain ⟨hb, hblanks⟩ := List.forall_mem_cons.mp h
    rw [followPieces_blank hb, ih hblanks]

/-- A piece that is followed by others, the last ones blank, is followed by others in their place. -/
lemma IsStep.exists_append {piece : List Char} {rest blanks more : List (List Char)}
    (h : IsStep .target piece rest) (hrest : piece :: rest = pieces ++ blanks)
    (hblanks : ∀ b ∈ blanks, Path.IsBlank b) (hmore : ∃ q ∈ more, q ≠ []) :
    ∃ pieces', pieces = piece :: pieces' ∧ rest = pieces' ++ blanks ∧
      IsStep ending piece (pieces' ++ more) := by
  rcases List.cons_eq_append_iff.mp hrest with ⟨-, rfl⟩ | ⟨pieces', rfl, rfl⟩
  · exact absurd (hblanks piece List.mem_cons_self) h.ne_blank
  · obtain ⟨q, hq, hne⟩ := hmore
    refine ⟨pieces', rfl, rfl, h.ne_blank, h.ne_parent, fun hslash => hne ?_, h.size_le⟩
    simpa using List.all_eq_true.mp hslash.2.2 q (List.mem_append_right _ hq)

/-- Pieces that lead to a directory, and others after them, lead where the others lead from there,
with some of the links used up. -/
lemma Follows.exists_append {blanks more all : List (List Char)}
    (h : fs.Follows .target links here all place) (hplace : place = .found l .directory)
    (hall : all = pieces ++ blanks) (hblanks : ∀ b ∈ blanks, Path.IsBlank b)
    (hmore : ∃ q ∈ more, q ≠ []) :
    ∃ left, fs.followPieces ending links here (pieces ++ more) =
      fs.followPieces ending left l more := by
  -- the blank pieces are the end of those that are left, also behind the target of a link
  induction h generalizing pieces blanks with
  | here =>
    obtain ⟨rfl, -⟩ := List.append_eq_nil_iff.mp hall.symm
    obtain ⟨rfl, -⟩ := Place.found.inj hplace
    exact ⟨_, rfl⟩
  | blank hpiece _ ih =>
    rcases List.cons_eq_append_iff.mp hall with ⟨rfl, rfl⟩ | ⟨pieces', rfl, rfl⟩
    · exact ih hplace (List.nil_append _).symm (List.forall_mem_cons.mp hblanks).2
    · rw [List.cons_append, followPieces_blank hpiece]
      exact ih hplace rfl hblanks
  | parent _ ih =>
    rcases List.cons_eq_append_iff.mp hall with ⟨rfl, rfl⟩ | ⟨pieces', rfl, rfl⟩
    · exact absurd (List.forall_mem_cons.mp hblanks).1 (by decide)
    · rw [List.cons_append, followPieces_parent]
      exact ih hplace rfl hblanks
  | free | file | link => simp at hplace
  | directory hstep hnode _ ih =>
    obtain ⟨pieces', rfl, hrest, hstep'⟩ := hstep.exists_append hall hblanks hmore
    rw [List.cons_append, hstep'.followPieces_directory hnode]
    exact ih hplace hrest hblanks
  | follow hstep hnode _ htarget _ ih =>
    obtain ⟨pieces', rfl, rfl, hstep'⟩ := hstep.exists_append hall hblanks hmore
    have hend : ¬ (pieces' ++ more = [] ∧ ending = .link) := by
      obtain ⟨q, hq, -⟩ := hmore
      exact fun hnil => List.append_ne_nil_of_right_ne_nil _ (List.ne_nil_of_mem hq) hnil.1
    rw [List.cons_append, hstep'.followPieces_link hnode hend htarget, ← List.append_assoc]
    exact ih hplace (List.append_assoc ..).symm hblanks

lemma exists_followPieces_append {blanks more : List (List Char)}
    (hblanks : ∀ b ∈ blanks, Path.IsBlank b) (hmore : ∃ q ∈ more, q ≠ [])
    (h : fs.followPieces .target links here (pieces ++ blanks) = .ok (.found l .directory)) :
    ∃ left, fs.followPieces ending links here (pieces ++ more) =
      fs.followPieces ending left l more :=
  (followPieces_eq_ok_iff.mp h).exists_append rfl rfl hblanks hmore

/-- The name of an entry leads to what lies under it. -/
lemma followPieces_name {n : Name} (hn : IsValidName n)
    (hlink : ending = .link ∨ ∀ target, fs.nodeAt (l ++ [n]) ≠ some (.link target)) (links : Nat) :
    fs.followPieces ending links l [n] = .ok (fs.placeAt (l ++ [n])) := by
  have hstep (onLink) : fs.followWith ending onLink l [n] = .ok (fs.placeAt (l ++ [n])) := by
    have hname : IsStep ending n [] :=
      ⟨by simp [hn.ne_nil, hn.ne_current], hn.ne_parent, by simp, hn.size_le⟩
    rw [hname.followWith_eq, enter, placeAt]
    cases hnode : fs.nodeAt (l ++ [n]) with
    | none => simp
    | some node =>
      cases node with
      | directory => simp [followWith]
      | file content executable => simp
      | link target =>
        have hending : ending = .link := hlink.resolve_right fun hnot => hnot target hnode
        simp [hending]
  cases links <;> exact hstep _

/-! ### Children -/

lemma resolve_eq {p : Path} (hnul : '\x00' ∉ p.chars) (hnil : p.chars ≠ []) (hshort : p.IsShort) :
    fs.resolve ending p =
      if p.isAbsolute then fs.followPieces ending maxLinks [] (p.chars.splitOn '/')
      else if fs.nodeAt fs.workingDir = some .directory then
        fs.followPieces ending maxLinks fs.workingDir (p.chars.splitOn '/')
      else .error .notFound := by
  rw [resolve, if_neg (by simpa using hnul), if_neg hnil, if_neg (not_le.mpr hshort)]

lemma spelling_of_resolve {p : Path} {place : Place} (h : fs.resolve ending p = .ok place) :
    '\x00' ∉ p.chars ∧ p.chars ≠ [] ∧ p.IsShort := by
  rw [resolve] at h
  split_ifs at h with hnul hnil hlong
  all_goals exact ⟨by simpa using hnul, hnil, not_le.mp hlong⟩

lemma find_eq_ok_iff {p : Path} {n : Node} :
    fs.find p = .ok (l, n) ↔ fs.resolve .target p = .ok (.found l n) := by
  rw [find]
  cases h : fs.resolve .target p with
  | error e => simp [bind, Except.bind]
  | ok place => cases place <;> simp [bind, Except.bind, pure, Except.pure]

lemma chars_ne_nil_of_find {p : Path} {n : Node} (h : fs.find p = .ok (l, n)) : p.chars ≠ [] :=
  (spelling_of_resolve (find_eq_ok_iff.mp h)).2.1

lemma isShort_of_find {p : Path} {n : Node} (h : fs.find p = .ok (l, n)) : p.IsShort :=
  (spelling_of_resolve (find_eq_ok_iff.mp h)).2.2

/-- A path leads to one place. -/
lemma find_inj {p : Path} {k : Location} {n m : Node} (h : fs.find p = .ok (l, n))
    (h' : fs.find p = .ok (k, m)) : l = k ∧ n = m :=
  Prod.mk.inj (Except.ok.inj (h.symm.trans h'))

/-- A child of a path to a directory leads to what lies under its name. -/
theorem resolve_child {p : Path} {n : Name} (hp : fs.find p = .ok (l, .directory))
    (hn : IsValidName n) (hshort : (p.child n).IsShort)
    (hlink : ending = .link ∨ ∀ target, fs.nodeAt (l ++ [n]) ≠ some (.link target)) :
    fs.resolve ending (p.child n) = .ok (fs.placeAt (l ++ [n])) := by
  rw [find_eq_ok_iff] at hp
  obtain ⟨hnul, hnil, hpshort⟩ := spelling_of_resolve hp
  have hchildNul : '\x00' ∉ (p.child n).chars := by
    intro h
    rcases Path.mem_chars_child hn.toIsEntryName h with h | h | h
    · exact hnul h
    · exact absurd h (by decide)
    · exact hn.nul_notMem h
  obtain ⟨pieces, blanks, hblanks, hpieces, hchild⟩ :=
    Path.exists_pieces_child hn.toIsEntryName hnil
  have hmore : ∃ q ∈ [n], q ≠ [] := ⟨n, List.mem_singleton_self n, hn.ne_nil⟩
  rw [resolve_eq hnul hnil hpshort, hpieces] at hp
  rw [resolve_eq hchildNul (Path.chars_child_ne_nil hn.toIsEntryName p) hshort, hchild,
    Path.isAbsolute_child hn.toIsEntryName hnil]
  split_ifs at hp ⊢ with habsolute hdir
  all_goals
    obtain ⟨left, hleft⟩ := exists_followPieces_append (fun b hb => .inl (hblanks b hb)) hmore hp
    rw [hleft, followPieces_name hn hlink]

/-! ### Extension -/

lemma Follows.of_extends (hfs : Extends fs fs') {n : Node}
    (h : fs.Follows ending links here pieces place) (hplace : place = .found l n) :
    fs'.Follows ending links here pieces place := by
  induction h with
  | here => exact .here
  | blank hpiece _ ih => exact .blank hpiece (ih hplace)
  | parent _ ih => exact .parent (ih hplace)
  | free => simp at hplace
  | directory hstep hnode _ ih => exact .directory hstep (hfs.nodeAt hnode) (ih hplace)
  | file hstep hnode => exact .file hstep (hfs.nodeAt hnode)
  | link hstep hnode hending => exact .link hstep (hfs.nodeAt hnode) hending
  | follow hstep hnode hend htarget _ ih =>
    exact .follow hstep (hfs.nodeAt hnode) hend htarget (ih hplace)

lemma followPieces_of_extends (hfs : Extends fs fs') {n : Node}
    (h : fs.followPieces ending links here pieces = .ok (.found l n)) :
    fs'.followPieces ending links here pieces = .ok (.found l n) := by
  rw [followPieces_eq_ok_iff] at h ⊢
  exact h.of_extends hfs rfl

/-- What a path leads to is where it was after other nodes were made. -/
theorem Extends.find (hfs : Extends fs fs') {p : Path} {n : Node} (h : fs.find p = .ok (l, n)) :
    fs'.find p = .ok (l, n) := by
  rw [find_eq_ok_iff] at h ⊢
  obtain ⟨hnul, hnil, hshort⟩ := spelling_of_resolve h
  rw [resolve_eq hnul hnil hshort] at h ⊢
  rw [hfs.workingDir]
  split_ifs at h with habsolute hdir
  · rw [if_pos habsolute]
    exact followPieces_of_extends hfs h
  · rw [if_neg habsolute, if_pos (hfs.nodeAt hdir)]
    exact followPieces_of_extends hfs h

end FileSystem
end ConstPromotion
