import Mathlib.Data.List.Fold
import Mathlib.Data.List.MinMax
import ConstPromotion.Proofs.Attempt
import ConstPromotion.Proofs.FileSystem.Disk
import ConstPromotion.Proofs.FileSystem.Operations
import ConstPromotion.Proofs.FileSystem.Writing
import ConstPromotion.Proofs.Text.Decoding

/-!
# Walks

The files that a walk on a disk visits are known by their locations below the directory where it
starts (`Disk.fileLocations`). These are in order (`pairwise_fileLocations`), each is the location of
a file (`nodeAt_of_mem_fileLocations`), and there is one for each file that the disk shows in a
directory with a path short enough to be followed (`mem_fileLocations_iff`). What a walk collects
without changing anything are the paths of these files (`filesBelow_eq`).
-/

namespace ConstPromotion

/-! ### Names below a path -/

variable {p : Path} {n : Name}

/-- The path that names lead to from a directory. -/
def Path.descend (p : Path) (names : Location) : Path := names.foldl Path.child p

@[simp] lemma Path.descend_nil (p : Path) : p.descend [] = p := rfl

@[simp] lemma Path.descend_cons (p : Path) (n : Name) (names : Location) :
    p.descend (n :: names) = (p.child n).descend names := rfl

lemma Path.descend_concat (p : Path) (names : Location) (n : Name) :
    p.descend (names ++ [n]) = (p.descend names).child n := List.foldl_concat ..

/-- A name makes a path longer. -/
lemma Path.size_lt_child (hn : IsEntryName n) (p : Path) :
    Utf8.size p.chars < Utf8.size (p.child n).chars := by
  have hsize : 0 < (Utf8.encode n).length :=
    List.length_pos_iff.mpr (Utf8.encode_ne_nil hn.ne_nil)
  rw [Utf8.size, Utf8.size]
  rcases chars_child hn p with ⟨before, hp, hchild⟩ | ⟨hp, hchild⟩ | ⟨-, hchild⟩
  · simpa [hp, hchild] using hsize
  · simpa [hp, hchild] using hsize
  · simp only [hchild, Utf8.encode_append, Utf8.encode_cons, List.length_append]
    omega

/-- A path that is short enough is above only paths that were. -/
lemma Path.isShort_of_descend {names : Location} (hnames : ∀ n ∈ names, IsEntryName n)
    (h : (p.descend names).IsShort) : p.IsShort := by
  induction names generalizing p with
  | nil => exact h
  | cons n names ih =>
    obtain ⟨hn, hnames⟩ := List.forall_mem_cons.mp hnames
    exact (size_lt_child hn p).trans (ih hnames h)

lemma Path.chars_descend_ne_nil {names : Location} (hnames : ∀ n ∈ names, IsEntryName n)
    (hp : p.chars ≠ []) : (p.descend names).chars ≠ [] := by
  rcases List.eq_nil_or_concat' names with rfl | ⟨before, n, rfl⟩
  · exact hp
  · rw [descend_concat]
    exact chars_child_ne_nil (hnames n (by simp)) _

lemma Path.components_descend {names : Location} (hnames : ∀ n ∈ names, IsEntryName n)
    (hp : p.chars ≠ []) : (p.descend names).components = p.components ++ names.map .name := by
  induction names generalizing p with
  | nil => simp
  | cons n names ih =>
    obtain ⟨hn, hnames⟩ := List.forall_mem_cons.mp hnames
    rw [descend_cons, ih hnames (chars_child_ne_nil hn p), components_child hn hp]
    simp

/-! ### Entries of a directory -/

namespace FileSystem

variable {fs : FileSystem} {l : Location} {node : Node}

lemma nodeAt_eq_some_iff (hl : l ≠ []) :
    fs.nodeAt l = some node ↔ (l, node) ∈ fs.nodes.entries := by
  refine ⟨mem_entries_of_nodeAt hl, fun h => ?_⟩
  have hnodup : (fs.nodes.entries.map Prod.fst).Nodup := by
    rw [List.Nodup, List.pairwise_map]
    refine fs.nodes.sorted.imp fun {a b} hlt heq => ?_
    rw [heq] at hlt
    exact List.lt_irrefl _ hlt
  have hfound : (fs.nodes.entries.find? (·.1 = l)).isSome := by
    rw [List.find?_isSome]
    exact ⟨_, h, decide_eq_true rfl⟩
  obtain ⟨e, he⟩ := Option.isSome_iff_exists.mp hfound
  have hkey : e.1 = l := by simpa using List.find?_some he
  have heq := List.inj_on_of_nodup_map hnodup (List.mem_of_find?_eq_some he) h hkey
  rw [nodeAt, if_neg hl, SortedMap.get?, he, heq]
  rfl

lemma mem_childrenAt : (n, node) ∈ fs.childrenAt l ↔ fs.nodeAt (l ++ [n]) = some node := by
  rw [nodeAt_eq_some_iff (List.concat_ne_nil n l), childrenAt, List.mem_filterMap]
  constructor
  · rintro ⟨⟨k, node'⟩, hmem, h⟩
    simp only at h
    split at h
    next name hprefix =>
      obtain ⟨rfl, rfl⟩ := Prod.mk.inj (Option.some.inj h)
      rwa [List.isPrefixOf?_eq_some_iff_append_eq.mp hprefix]
    next => simp at h
  · intro hmem
    refine ⟨_, hmem, ?_⟩
    simp [List.isPrefixOf?_eq_some_iff_append_eq.mpr (rfl : l ++ [n] = l ++ [n])]

lemma append_lt_append_iff {a b : Location} : l ++ a < l ++ b ↔ a < b := by
  induction l with
  | nil => rfl
  | cons n l ih => simp [ih]

lemma pairwise_childrenAt (fs : FileSystem) (l : Location) :
    (fs.childrenAt l).Pairwise fun a b => a.1 < b.1 := by
  rw [childrenAt, List.pairwise_filterMap]
  refine fs.nodes.sorted.imp fun {a b} hlt child h child' h' => ?_
  simp only at h h'
  split at h
  next name hprefix =>
    split at h'
    next name' hprefix' =>
      obtain rfl := Option.some.inj h
      obtain rfl := Option.some.inj h'
      rw [← List.isPrefixOf?_eq_some_iff_append_eq.mp hprefix,
        ← List.isPrefixOf?_eq_some_iff_append_eq.mp hprefix', append_lt_append_iff,
        List.cons_lt_cons_iff] at hlt
      simpa using hlt
    next => simp at h'
  next => simp at h

/-! ### Files below a directory -/

/-- Where the files are that a walk visits for an entry of the directory at `dir`, given where they
are below a directory. -/
def entryLocations (below : Path → List Location) (dir : Path) : Name × Node → List Location
  | (name, .file _ _) => [[name]]
  | (name, .directory) => (below (dir.child name)).map (name :: ·)
  | (_, .link _) => []

lemma mem_entryLocations {files : Path → List Location} {dir : Path} {k : Location} :
    k ∈ entryLocations files dir (n, node) ↔
      (k = [n] ∧ ∃ content executable, node = .file content executable) ∨
        node = .directory ∧ ∃ rest ∈ files (dir.child n), k = n :: rest := by
  cases node <;> simp [entryLocations, eq_comm]

lemma entriesOf_eq {dir : Path} (hdir : fs.find dir = .ok (l, .directory)) :
    fs.entriesOf dir = fs.childrenAt l := by
  rw [entriesOf, children, hdir]
  rfl

/-- What has entries is a directory. -/
lemma exists_find_of_mem_entriesOf {dir : Path} {entry : Name × Node}
    (h : entry ∈ fs.entriesOf dir) : ∃ l, fs.find dir = .ok (l, .directory) := by
  rw [entriesOf, children] at h
  cases hdir : fs.find dir with
  | error e =>
    rw [hdir] at h
    exact absurd h List.not_mem_nil
  | ok found =>
    obtain ⟨l, node⟩ := found
    rw [hdir] at h
    cases node with
    | directory => exact ⟨l, rfl⟩
    | file content executable => exact absurd h List.not_mem_nil
    | link target => exact absurd h List.not_mem_nil

lemma pairwise_entriesOf (fs : FileSystem) (dir : Path) :
    (fs.entriesOf dir).Pairwise fun a b => a.1 < b.1 := by
  cases hentries : fs.entriesOf dir with
  | nil => exact .nil
  | cons entry entries =>
    obtain ⟨l, hdir⟩ := exists_find_of_mem_entriesOf (hentries ▸ List.mem_cons_self)
    rw [← hentries, entriesOf_eq hdir]
    exact fs.pairwise_childrenAt l

/-- All names of nodes can be names of entries. -/
def HasValidNames (fs : FileSystem) : Prop := ∀ l n, fs.nodeAt (l ++ [n]) ≠ none → IsValidName n

/-- The names of nodes can be names of entries if those of all entries can. -/
lemma hasValidNames_of_forall
    (h : ∀ e ∈ fs.nodes.entries, ∀ n ∈ e.1, IsValidName n) : fs.HasValidNames := by
  intro l n hnode
  obtain ⟨node, hnode⟩ := Option.ne_none_iff_exists'.mp hnode
  exact h _ (mem_entries_of_nodeAt (List.concat_ne_nil n l) hnode) n (by simp)

/-- In a tree, all names that lead to a node can be names of entries. -/
lemma HasValidNames.forall_mem (hnames : fs.HasValidNames) (hfs : fs.IsTree)
    (hnode : fs.nodeAt l ≠ none) : ∀ n ∈ l, IsValidName n := by
  intro n hn
  obtain ⟨before, after, rfl⟩ := List.append_of_mem hn
  refine hnames before n fun hnone => ?_
  rw [List.append_cons] at hnode
  rcases eq_or_ne after [] with rfl | hafter
  · exact hnode (by rwa [List.append_nil])
  · exact hnode (hfs.nodeAt_append (by simp [hnone]) hafter)

lemma length_le_depth (h : fs.nodeAt l ≠ none) : l.length ≤ fs.depth := by
  rcases eq_or_ne l [] with rfl | hl
  · exact Nat.zero_le _
  · obtain ⟨node, hnode⟩ := Option.ne_none_iff_exists'.mp h
    rw [depth, List.foldl_eq_foldr]
    exact List.le_max_of_le' 0 (List.mem_map_of_mem (mem_keys_of_nodeAt hl hnode)) le_rfl

/-- The names of a node lead to it from a directory, if the path they make is short enough to be
followed. -/
lemma find_descend {dir : Path} {below : Location} (hnames : fs.HasValidNames) (hfs : fs.IsTree)
    (hdir : fs.find dir = .ok (l, .directory)) (hnode : fs.nodeAt (l ++ below) = some node)
    (hlink : ∀ target, node ≠ .link target) (hshort : (dir.descend below).IsShort) :
    fs.find (dir.descend below) = .ok (l ++ below, node) := by
  induction below using List.reverseRecOn generalizing node with
  | nil =>
    have hl : fs.nodeAt l = some .directory := hfs.nodeAt_of_find hdir
    obtain rfl : node = .directory := Option.some.inj (hnode.symm.trans (by rwa [List.append_nil]))
    simpa using hdir
  | append_singleton above n ih =>
    rw [← List.append_assoc] at hnode ⊢
    have hne : fs.nodeAt (l ++ above ++ [n]) ≠ none := by
      rw [hnode]
      exact Option.some_ne_none node
    have hn := hnames (l ++ above) n hne
    rw [Path.descend_concat] at hshort ⊢
    have habove := hfs (l ++ above) n hne
    have hfind := ih habove (by simp) ((Path.size_lt_child hn.toIsEntryName _).trans hshort)
    exact find_child hfind hn hshort hnode hlink

/-- A walk of a directory. -/
lemma walk_eq {m : Type → Type} [Monad m] {β : Type} {dir : Path}
    (list : Path → m (List (Name × Node))) (visit : Path → m (List β))
    (hdir : fs.find dir = .ok (l, .directory)) :
    fs.walk list visit dir = walkDirectory list visit (fs.depth + 1) dir := by
  have hdir' := find_eq_ok_iff.mp hdir
  rw [walk, hdir]
  split
  next hfile =>
    rw [resolve_target (by simp) hfile] at hdir'
    simp at hdir'
  next => rfl
  next h => exact absurd rfl (h _)

end FileSystem

/-! ### What a disk shows -/

namespace Disk

variable {disk : Disk} {fs : FileSystem} {l below k : Location} {dir : Path} {node : Node}
  {depth : Nat}

/-- Every directory on the way from `dir` down the names can be followed, and each name comes up when
the directory above it is listed. -/
def Shows (disk : Disk) : (dir : Path) → Location → Prop
  | _, [] => True
  | dir, n :: names =>
    disk.pathError? dir = none ∧ disk.lists dir n = true ∧ disk.Shows (dir.child n) names

lemma shows_plain (dir : Path) (names : Location) : Disk.plain.Shows dir names := by
  induction names generalizing dir with
  | nil => exact trivial
  | cons n names ih => exact ⟨rfl, rfl, ih _⟩

/-- Where the files are that a walk of the directory at `dir` on a disk visits, as seen from there.
-/
def fileLocations (disk : Disk) (fs : FileSystem) : (depth : Nat) → (dir : Path) → List Location
  | 0, _ => []
  | depth + 1, dir =>
    (disk.entriesOf fs dir).flatMap (FileSystem.entryLocations (disk.fileLocations fs depth) dir)

lemma mem_entriesOf : (n, node) ∈ disk.entriesOf fs dir ↔
    disk.pathError? dir = none ∧ disk.lists dir n = true ∧ (n, node) ∈ fs.entriesOf dir := by
  rw [entriesOf]
  cases disk.pathError? dir with
  | none => simp [and_comm]
  | some e => simp

lemma pairwise_entriesOf (disk : Disk) (fs : FileSystem) (dir : Path) :
    (disk.entriesOf fs dir).Pairwise fun a b => a.1 < b.1 := by
  rw [entriesOf]
  split_ifs
  · exact (fs.pairwise_entriesOf dir).filter _
  · exact .nil

/-- Files are visited in the order of their locations, each once. -/
theorem pairwise_fileLocations (disk : Disk) (fs : FileSystem) (depth : Nat) (dir : Path) :
    (disk.fileLocations fs depth dir).Pairwise (· < ·) := by
  induction depth generalizing dir with
  | zero => exact .nil
  | succ depth ih =>
    rw [fileLocations, List.pairwise_flatMap]
    refine ⟨fun ⟨n, node⟩ _ => ?inside, (disk.pairwise_entriesOf fs dir).imp ?between⟩
    case inside =>
      cases node with
      | file content executable => exact List.pairwise_singleton ..
      | directory => exact List.pairwise_map.mpr ((ih _).imp fun hlt => by simpa using hlt)
      | link target => exact .nil
    case between =>
      rintro ⟨n, node⟩ ⟨n', node'⟩ hlt k hk k' hk'
      -- locations of different entries differ in their first names
      have hhead {n : Name} {node : Node} {k : Location}
          (hk : k ∈ FileSystem.entryLocations (disk.fileLocations fs depth) dir (n, node)) :
          ∃ rest, k = n :: rest := by
        rcases FileSystem.mem_entryLocations.mp hk with ⟨rfl, -⟩ | ⟨-, rest, -, rfl⟩
        · exact ⟨[], rfl⟩
        · exact ⟨rest, rfl⟩
      obtain ⟨rest, rfl⟩ := hhead hk
      obtain ⟨rest', rfl⟩ := hhead hk'
      exact List.cons_lt_cons_iff.mpr (.inl hlt)

/-- What a walk visits is shown. -/
lemma shows_of_mem_fileLocations (h : below ∈ disk.fileLocations fs depth dir) :
    disk.Shows dir below := by
  induction depth generalizing dir below with
  | zero => exact absurd h List.not_mem_nil
  | succ depth ih =>
    rw [fileLocations, List.mem_flatMap] at h
    obtain ⟨⟨n, node⟩, hentry, h⟩ := h
    obtain ⟨hfollows, hlists, -⟩ := mem_entriesOf.mp hentry
    rcases FileSystem.mem_entryLocations.mp h with ⟨rfl, -⟩ | ⟨-, rest, hrest, rfl⟩
    · exact ⟨hfollows, hlists, trivial⟩
    · exact ⟨hfollows, hlists, ih hrest⟩

lemma exists_find_of_mem_fileLocations (h : below ∈ disk.fileLocations fs depth dir) :
    ∃ l, fs.find dir = .ok (l, .directory) := by
  cases depth with
  | zero => exact absurd h List.not_mem_nil
  | succ depth =>
    rw [fileLocations, List.mem_flatMap] at h
    obtain ⟨⟨n, node⟩, hentry, -⟩ := h
    exact FileSystem.exists_find_of_mem_entriesOf (mem_entriesOf.mp hentry).2.2

/-- What a walk visits are files, each in a directory that the walk gets to. -/
theorem nodeAt_of_mem_fileLocations (hnames : fs.HasValidNames)
    (hdir : fs.find dir = .ok (l, .directory)) (h : below ∈ disk.fileLocations fs depth dir) :
    ∃ above n content executable, below = above ++ [n] ∧
      fs.find (dir.descend above) = .ok (l ++ above, .directory) ∧
      fs.nodeAt (l ++ below) = some (.file content executable) := by
  induction depth generalizing dir l below with
  | zero => exact absurd h List.not_mem_nil
  | succ depth ih =>
    rw [fileLocations, List.mem_flatMap] at h
    obtain ⟨⟨n, node⟩, hentry, h⟩ := h
    obtain ⟨-, -, hentry⟩ := mem_entriesOf.mp hentry
    rw [FileSystem.entriesOf_eq hdir, FileSystem.mem_childrenAt] at hentry
    rcases FileSystem.mem_entryLocations.mp h with
      ⟨rfl, content, executable, rfl⟩ | ⟨rfl, rest, hrest, rfl⟩
    · exact ⟨[], n, content, executable, rfl, by simpa using hdir, hentry⟩
    · obtain ⟨l', hchild⟩ := exists_find_of_mem_fileLocations hrest
      have hshort := FileSystem.isShort_of_find hchild
      have hn := hnames l n (by simp [hentry])
      obtain ⟨above, m, content, executable, rfl, habove, hnode⟩ :=
        ih (FileSystem.find_child hdir hn hshort hentry (by simp)) hrest
      refine ⟨n :: above, m, content, executable, rfl, ?_, ?_⟩
      · simpa using habove
      · simpa using hnode

/-- A walk gets to a file that is shown in a directory that has a path short enough to be followed.
-/
theorem mem_fileLocations (hnames : fs.HasValidNames) (hfs : fs.IsTree)
    (hdir : fs.find dir = .ok (l, .directory)) {above : Location} {content : Bytes}
    {executable : Bool} (hnode : fs.nodeAt (l ++ above ++ [n]) = some (.file content executable))
    (hdepth : above.length < depth) (hshort : (dir.descend above).IsShort)
    (hshows : disk.Shows dir (above ++ [n])) :
    above ++ [n] ∈ disk.fileLocations fs depth dir := by
  induction depth generalizing dir l above with
  | zero => simp at hdepth
  | succ depth ih =>
    rw [fileLocations, List.mem_flatMap]
    cases above with
    | nil =>
      obtain ⟨hfollows, hlists, -⟩ := hshows
      rw [List.append_nil] at hnode
      refine ⟨(n, .file content executable), mem_entriesOf.mpr ⟨hfollows, hlists, ?_⟩,
        FileSystem.mem_entryLocations.mpr (.inl ⟨rfl, _, _, rfl⟩)⟩
      rw [FileSystem.entriesOf_eq hdir]
      exact FileSystem.mem_childrenAt.mpr hnode
    | cons m above =>
      obtain ⟨hfollows, hlists, hrestShows⟩ := hshows
      rw [List.append_cons l m above] at hnode
      have hchild : fs.nodeAt (l ++ [m]) = some .directory := by
        by_contra hchild
        rw [List.append_assoc, hfs.nodeAt_append hchild (by simp)] at hnode
        simp at hnode
      have hvalid := hnames.forall_mem hfs (by rw [hnode]; simp)
      have hrest : ∀ k ∈ above, Path.IsEntryName k := fun k hk =>
        (hvalid k (by simp [hk])).toIsEntryName
      have hfind := FileSystem.find_child hdir (hvalid m (by simp))
        (Path.isShort_of_descend hrest hshort) hchild (by simp)
      refine ⟨(m, .directory), mem_entriesOf.mpr ⟨hfollows, hlists, ?_⟩,
        FileSystem.mem_entryLocations.mpr (.inr ⟨rfl, above ++ [n],
          ih hfind hnode (Nat.lt_of_succ_lt_succ hdepth) hshort hrestShows, rfl⟩)⟩
      rw [FileSystem.entriesOf_eq hdir]
      exact FileSystem.mem_childrenAt.mpr hchild

/-- A walk visits the files that are shown in a directory with a path short enough to be followed. -/
theorem mem_fileLocations_iff (hnames : fs.HasValidNames) (hfs : fs.IsTree)
    (hdir : fs.find dir = .ok (l, .directory)) :
    below ∈ disk.fileLocations fs (fs.depth + 1) dir ↔
      disk.Shows dir below ∧ (dir.descend below.dropLast).IsShort ∧
        ∃ content executable, fs.nodeAt (l ++ below) = some (.file content executable) := by
  constructor
  · intro h
    obtain ⟨above, n, content, executable, rfl, habove, hnode⟩ :=
      nodeAt_of_mem_fileLocations hnames hdir h
    rw [List.dropLast_concat]
    exact ⟨shows_of_mem_fileLocations h, FileSystem.isShort_of_find habove, content, executable,
      hnode⟩
  · rintro ⟨hshows, hshort, content, executable, hnode⟩
    have hl : fs.nodeAt l = some .directory := hfs.nodeAt_of_find hdir
    rcases List.eq_nil_or_concat' below with rfl | ⟨above, n, rfl⟩
    · simp [hl] at hnode
    · rw [List.dropLast_concat] at hshort
      rw [← List.append_assoc] at hnode
      have hlength := FileSystem.length_le_depth (by rw [hnode]; simp)
      refine mem_fileLocations hnames hfs hdir hnode ?_ hshort hshows
      simp only [List.length_append, List.length_singleton] at hlength
      omega

/-- A directory that cannot be followed is not walked. -/
lemma fileLocations_of_pathError {e : OsError} (h : disk.pathError? dir = some e) (depth : Nat) :
    disk.fileLocations fs depth dir = [] := by
  cases depth with
  | zero => rfl
  | succ depth => rw [fileLocations, entriesOf, h, Option.isNone_some, if_neg Bool.false_ne_true,
      List.flatMap_nil]

lemma walkDirectory_pure (disk : Disk) (fs : FileSystem) (depth : Nat) (dir : Path) :
    Id.run (walkDirectory (fun dir => pure (disk.entriesOf fs dir)) (fun p => pure [p]) depth dir) =
      (disk.fileLocations fs depth dir).map dir.descend := by
  induction depth generalizing dir with
  | zero => rfl
  | succ depth ih =>
    -- along the entries, of which the directories are known by the outer induction
    have hentries (entries : List (Name × Node)) :
        Id.run (walkEntries (fun p => pure [p])
          (walkDirectory (fun dir => pure (disk.entriesOf fs dir)) (fun p => pure [p]) depth) dir
          entries) =
        (entries.flatMap
          (FileSystem.entryLocations (disk.fileLocations fs depth) dir)).map dir.descend := by
      induction entries with
      | nil => rfl
      | cons entry entries ihEntries =>
        obtain ⟨n, node⟩ := entry
        rw [List.flatMap_cons, List.map_append, ← ihEntries]
        cases node with
        | file content executable => rfl
        | directory =>
          have hbelow : (FileSystem.entryLocations (disk.fileLocations fs depth) dir
              (n, .directory)).map dir.descend =
              (disk.fileLocations fs depth (dir.child n)).map (dir.child n).descend := by
            rw [FileSystem.entryLocations, List.map_map]
            rfl
          rw [hbelow, ← ih]
          rfl
        | link target => rfl
    exact hentries (disk.entriesOf fs dir)

/-- A walk of a directory of a disk. -/
lemma walk_eq {m : Type → Type} [Monad m] {β : Type} (list : Path → m (List (Name × Node)))
    (visit : Path → m (List β)) (hdir : fs.find dir = .ok (l, .directory)) :
    disk.walk fs list visit dir = if (disk.pathError? dir).isNone then
      walkDirectory list visit (fs.depth + 1) dir else pure [] := by
  rw [walk, FileSystem.walk_eq _ _ hdir]

/-- The files of a tree are those that a walk of its root visits. -/
theorem filesBelow_eq (hdir : fs.find dir = .ok (l, .directory)) :
    disk.filesBelow fs dir = (disk.fileLocations fs (fs.depth + 1) dir).map dir.descend := by
  rw [filesBelow, walk_eq _ _ hdir]
  cases hfollows : disk.pathError? dir with
  | none => rw [Option.isNone_none, if_pos rfl, walkDirectory_pure]
  | some e =>
    rw [fileLocations_of_pathError hfollows]
    rfl

end Disk

end ConstPromotion
