import Mathlib.Data.List.Sort
import ConstPromotion.Proofs.FileSystem.Walk

/-!
# Walks that change files

A visit may change the tree that is walked, and the walk lists a directory only when it gets there.
If each visit puts files only into the directory that it visits, then a walk visits the files that
were there at the start, one after the other (`visitingBelow_walkDirectory`): the directories that
it has not listed yet are as they were, and it does not list one twice.
-/

namespace ConstPromotion

/-- One location is strictly below another. -/
def Location.IsBelow (l k : Location) : Prop := ∃ below, below ≠ [] ∧ k = l ++ below

lemma Location.IsBelow.of_concat {l k : Location} {n : Name} (h : IsBelow (l ++ [n]) k) :
    IsBelow l k := by
  obtain ⟨below, -, rfl⟩ := h
  exact ⟨n :: below, List.cons_ne_nil _ _, by simp⟩

/-! ### Entries -/

section Monad

variable {m : Type → Type} [Monad m] {β : Type} (visit descend : Path → m (List β)) (dir : Path)
  (entries : List (Name × Node))

/-- Visits what lies under a name. -/
def visitEntry (n : Name) : Node → m (List β)
  | .file _ _ => visit (dir.child n)
  | .directory => descend (dir.child n)
  | .link _ => pure []

lemma walkEntries_cons (n : Name) (node : Node) :
    walkEntries visit descend dir ((n, node) :: entries) = do
      let here ← visitEntry visit descend dir n node
      let later ← walkEntries visit descend dir entries
      return here ++ later := by
  cases node <;> rfl

/-- Whether a node is to be walked, and how, does not depend on contents. -/
lemma walkEntries_shape :
    walkEntries visit descend dir (entries.map fun e => (e.1, e.2.shape)) =
      walkEntries visit descend dir entries := by
  induction entries with
  | nil => rfl
  | cons entry entries ih =>
    obtain ⟨n, node⟩ := entry
    rw [List.map_cons, walkEntries_cons, walkEntries_cons, ih]
    cases node <;> rfl

end Monad

namespace FileSystem

variable {fs fs' start : FileSystem} {l k : Location} {dir : Path}

lemma childrenAt_shape (fs : FileSystem) (l : Location) :
    fs.shape.childrenAt l = (fs.childrenAt l).map fun e => (e.1, e.2.shape) := by
  rw [childrenAt, childrenAt, List.map_filterMap]
  change List.filterMap _ (fs.nodes.entries.map _) = _
  rw [List.filterMap_map]
  refine List.filterMap_congr fun e _ => ?_
  simp only [Function.comp_apply]
  split <;> rfl

/-- The entries of a directory are known by the nodes in it. -/
lemma childrenAt_congr (h : ∀ n, fs'.nodeAt (l ++ [n]) = fs.nodeAt (l ++ [n])) :
    fs'.childrenAt l = fs.childrenAt l := by
  have hasymm : Std.Antisymm fun a b : Name × Node => a.1 < b.1 :=
    ⟨fun a b hlt hlt' => absurd hlt' (List.lt_asymm hlt)⟩
  have hirrefl : Std.Irrefl fun a b : Name × Node => a.1 < b.1 := ⟨fun a => List.lt_irrefl a.1⟩
  apply (fs'.pairwise_childrenAt l).eq_of_mem_iff (fs.pairwise_childrenAt l)
  rintro ⟨n, node⟩
  rw [mem_childrenAt, mem_childrenAt, h]

/-- A path that is too long to be followed has no entries. -/
lemma entriesOf_of_not_isShort (h : ¬ dir.IsShort) : fs.entriesOf dir = [] := by
  refine List.eq_nil_iff_forall_not_mem.mpr fun entry hentry => ?_
  obtain ⟨l, hdir⟩ := exists_find_of_mem_entriesOf hentry
  exact h (isShort_of_find hdir)

/-- Below a location the same nodes are there as at the start, but for the contents of files. -/
def SameBelow (start fs : FileSystem) (l : Location) : Prop :=
  ∀ k, l.IsBelow k → fs.shape.nodeAt k = start.shape.nodeAt k

lemma SameBelow.concat (h : SameBelow start fs l) (n : Name) : SameBelow start fs (l ++ [n]) :=
  fun k hk => h k hk.of_concat

end FileSystem

namespace Disk

variable {disk : Disk} {fs start : FileSystem} {l : Location} {dir : Path}

lemma entriesOf_of_not_isShort (h : ¬ dir.IsShort) : disk.entriesOf fs dir = [] := by
  rw [entriesOf, FileSystem.entriesOf_of_not_isShort h, List.filter_nil, ite_self]

lemma fileLocations_of_not_isShort (h : ¬ dir.IsShort) (depth : Nat) :
    disk.fileLocations fs depth dir = [] := by
  cases depth with
  | zero => rfl
  | succ depth => rw [fileLocations, entriesOf_of_not_isShort h, List.flatMap_nil]

/-- The same entries come up in both states of a directory, but for the contents of files. -/
lemma entriesOf_shape_eq (hfs : fs.find dir = .ok (l, .directory))
    (hstart : start.find dir = .ok (l, .directory))
    (hsame : fs.shape.childrenAt l = start.shape.childrenAt l) :
    (disk.entriesOf fs dir).map (fun e => (e.1, e.2.shape)) =
      (disk.entriesOf start dir).map fun e => (e.1, e.2.shape) := by
  have hentries (fs : FileSystem) (hfs : fs.find dir = .ok (l, .directory)) :
      (disk.entriesOf fs dir).map (fun e => (e.1, e.2.shape)) =
        if (disk.pathError? dir).isNone then
          (fs.shape.childrenAt l).filter (disk.lists dir ·.1) else [] := by
    rw [entriesOf, FileSystem.entriesOf_eq hfs, FileSystem.childrenAt_shape, List.filter_map]
    split_ifs <;> rfl
  rw [hentries fs hfs, hentries start hstart, hsame]

end Disk

/-! ### Visits -/

variable {disk : Disk} {fs fs' fs'' start : FileSystem} {ε β : Type} {Inv : FileSystem → Prop}
  {visit descend : Path → Attempt FileSystem ε (List β)} {paths paths' : List Path}
  {out out' : List β} {l : Location} {dir : Path} {n : Name} {node : Node}

/-- Files are visited one after the other, and every visit succeeds. -/
inductive Visiting (visit : Path → Attempt FileSystem ε (List β)) :
    List Path → FileSystem → List β → FileSystem → Prop where
  | nil (fs : FileSystem) : Visiting visit [] fs [] fs
  | cons {p : Path} {paths : List Path} {fs fs' fs'' : FileSystem} {here later : List β}
    (hfirst : (visit p).run.run fs = (.ok here, fs'))
    (hlater : Visiting visit paths fs' later fs'') :
    Visiting visit (p :: paths) fs (here ++ later) fs''

lemma Visiting.append (h : Visiting visit paths fs out fs')
    (h' : Visiting visit paths' fs' out' fs'') :
    Visiting visit (paths ++ paths') fs (out ++ out') fs'' := by
  induction h with
  | nil fs => exact h'
  | cons hfirst _ ih =>
    rw [List.append_assoc]
    exact .cons hfirst (ih h')

/-- The visit of a path changes contents and puts files into one directory, in every state that the
walk can be in. -/
def StaysIn (Inv : FileSystem → Prop) (visit : Path → Attempt FileSystem ε (List β)) (p : Path)
    (l : Location) : Prop :=
  ∀ fs out fs', Inv fs → (visit p).run.run fs = (.ok out, fs') →
    Inv fs' ∧ ∀ k, (∀ n, k ≠ l ++ [n]) → fs'.shape.nodeAt k = fs.shape.nodeAt k

/-- Files are visited one after the other, and only contents change but below a location. -/
structure VisitingBelow (Inv : FileSystem → Prop) (visit : Path → Attempt FileSystem ε (List β))
    (l : Location) (paths : List Path) (fs : FileSystem) (out : List β) (fs' : FileSystem) :
    Prop where
  visiting : Visiting visit paths fs out fs'
  inv : Inv fs'
  nodeAt_eq : ∀ k, ¬ l.IsBelow k → fs'.shape.nodeAt k = fs.shape.nodeAt k

namespace VisitingBelow

lemma nil (hfs : Inv fs) : VisitingBelow Inv visit l [] fs [] fs := ⟨.nil fs, hfs, fun _ _ => rfl⟩

lemma append (h : VisitingBelow Inv visit l paths fs out fs')
    (h' : VisitingBelow Inv visit l paths' fs' out' fs'') :
    VisitingBelow Inv visit l (paths ++ paths') fs (out ++ out') fs'' :=
  ⟨h.visiting.append h'.visiting, h'.inv,
    fun k hk => (h'.nodeAt_eq k hk).trans (h.nodeAt_eq k hk)⟩

/-- What changes only below an entry changes nothing below the other entries. -/
lemma sameBelow {n' : Name} (h : VisitingBelow Inv visit (l ++ [n]) paths fs out fs') (hne : n ≠ n')
    (hsame : FileSystem.SameBelow start fs (l ++ [n'])) :
    FileSystem.SameBelow start fs' (l ++ [n']) := by
  intro k hk
  refine (h.nodeAt_eq k ?_).trans (hsame k hk)
  rintro ⟨below, -, rfl⟩
  obtain ⟨below', -, heq⟩ := hk
  rw [List.append_assoc, List.append_assoc, List.append_cancel_left_eq, List.singleton_append,
    List.singleton_append] at heq
  exact hne (List.cons.inj heq).1

end VisitingBelow

lemma StaysIn.visitingBelow (h : StaysIn Inv visit (dir.child n) l) (hfs : Inv fs)
    (hrun : (visit (dir.child n)).run.run fs = (.ok out, fs')) :
    VisitingBelow Inv visit l [dir.child n] fs out fs' := by
  obtain ⟨hinv, hsame⟩ := h fs out fs' hfs hrun
  have hvisiting := Visiting.cons hrun (.nil fs')
  rw [List.append_nil] at hvisiting
  exact ⟨hvisiting, hinv, fun k hk => hsame k fun n heq => hk ⟨[n], by simp, heq⟩⟩

/-! ### Walks -/

/-- A directory is listed when the walk gets there. -/
lemma run_walkDirectory_succ (depth : Nat) (dir : Path) (fs : FileSystem) :
    (walkDirectory (fun dir => do return disk.entriesOf (← get) dir) visit (depth + 1) dir).run.run
        fs =
      (walkEntries visit
        (walkDirectory (fun dir => do return disk.entriesOf (← get) dir) visit depth) dir
        (disk.entriesOf fs dir)).run.run fs := rfl

/-- A file is visited, and the directories beside it stay as they were. -/
lemma StaysIn.sameBelow {m : Name} (h : StaysIn Inv visit (dir.child n) l) (hfs : Inv fs)
    (hrun : (visit (dir.child n)).run.run fs = (.ok out, fs'))
    (hsame : FileSystem.SameBelow start fs (l ++ [m])) :
    FileSystem.SameBelow start fs' (l ++ [m]) := by
  intro k hk
  refine ((h fs out fs' hfs hrun).2 k fun m' heq => ?_).trans (hsame k hk)
  obtain ⟨below, hbelow, rfl⟩ := hk
  rw [List.append_assoc, List.append_cancel_left_eq, List.singleton_append] at heq
  exact hbelow (List.cons.inj heq).2

section Entries

variable {files : Path → List Location} {entries : List (Name × Node)}
  (hdescend : ∀ n, (n, .directory) ∈ entries → ∀ fs out fs', Inv fs →
    FileSystem.SameBelow start fs (l ++ [n]) →
    (descend (dir.child n)).run.run fs = (.ok out, fs') →
    VisitingBelow Inv visit (l ++ [n]) ((files (dir.child n)).map (dir.child n).descend) fs out fs')
  (hstays : ∀ n content executable, (n, .file content executable) ∈ entries →
    StaysIn Inv visit (dir.child n) l)

include hdescend hstays

/-- What lies under a name is visited, and the directories with other names stay as they were. -/
lemma visitingBelow_visitEntry (hmem : (n, node) ∈ entries) (hfs : Inv fs)
    (hsame : node = .directory → FileSystem.SameBelow start fs (l ++ [n]))
    (h : (visitEntry visit descend dir n node).run.run fs = (.ok out, fs')) :
    VisitingBelow Inv visit l ((FileSystem.entryLocations files dir (n, node)).map dir.descend) fs
        out fs' ∧
      ∀ m, n ≠ m → FileSystem.SameBelow start fs (l ++ [m]) →
        FileSystem.SameBelow start fs' (l ++ [m]) := by
  cases node with
  | file content executable =>
    have hstay := hstays n content executable hmem
    exact ⟨hstay.visitingBelow hfs h, fun m _ => hstay.sameBelow hfs h⟩
  | directory =>
    have hthere := hdescend n hmem _ _ _ hfs (hsame rfl) h
    refine ⟨⟨?_, hthere.inv, fun k hk => hthere.nodeAt_eq k fun hk' => hk hk'.of_concat⟩,
      fun m hne => hthere.sameBelow hne⟩
    rw [FileSystem.entryLocations, List.map_map]
    exact hthere.visiting
  | link target =>
    obtain ⟨⟨⟩, rfl⟩ := Prod.mk.inj h
    exact ⟨.nil hfs, fun m _ => id⟩

/-- Entries are visited one after the other if the directories among them are. -/
lemma visitingBelow_walkEntries (hnames : entries.Pairwise fun a b => a.1 < b.1) (hfs : Inv fs)
    (hsame : ∀ n, (n, .directory) ∈ entries → FileSystem.SameBelow start fs (l ++ [n]))
    (h : (walkEntries visit descend dir entries).run.run fs = (.ok out, fs')) :
    VisitingBelow Inv visit l
      ((entries.flatMap (FileSystem.entryLocations files dir)).map dir.descend) fs out fs' := by
  induction entries generalizing fs out with
  | nil =>
    obtain ⟨⟨⟩, rfl⟩ := Prod.mk.inj h
    exact .nil hfs
  | cons entry entries ih =>
    obtain ⟨n, node⟩ := entry
    obtain ⟨hlt, hnames⟩ := List.pairwise_cons.mp hnames
    rw [walkEntries_cons] at h
    obtain ⟨here, fs₁, hfirst, hrun⟩ := Attempt.exists_of_run_bind h
    obtain ⟨later, fs₂, hrest, hreturn⟩ := Attempt.exists_of_run_bind hrun
    obtain ⟨⟨⟩, rfl⟩ := Prod.mk.inj hreturn
    obtain ⟨hvisit, hkeeps⟩ := visitingBelow_visitEntry hdescend hstays List.mem_cons_self hfs
      (fun hnode => hsame n (hnode ▸ List.mem_cons_self)) hfirst
    -- the directories that come later are as they were when the first entry has been visited
    have hlater (m : Name) (hm : (m, .directory) ∈ entries) :
        FileSystem.SameBelow start fs₁ (l ++ [m]) := by
      refine hkeeps m ?_ (hsame m (List.mem_cons_of_mem _ hm))
      rintro rfl
      exact List.lt_irrefl n (hlt (n, .directory) hm)
    rw [List.flatMap_cons, List.map_append]
    exact hvisit.append (ih (fun m hm => hdescend m (List.mem_cons_of_mem _ hm))
      (fun m content executable hm => hstays m content executable (List.mem_cons_of_mem _ hm))
      hnames hvisit.inv hlater hrest)

end Entries

/-- A walk whose visits each put files only into one directory visits the files that were there at
the start, one after the other. -/
theorem visitingBelow_walkDirectory {depth : Nat} (hnames : start.HasValidNames)
    (hgrows : ∀ {fs}, Inv fs → FileSystem.Grows start fs)
    (hdir : start.find dir = .ok (l, .directory))
    (hstays : ∀ above n, above ++ [n] ∈ disk.fileLocations start depth dir →
      StaysIn Inv visit (dir.descend (above ++ [n])) (l ++ above))
    (hfs : Inv fs) (hsame : FileSystem.SameBelow start fs l)
    (h : (walkDirectory (fun dir => do return disk.entriesOf (← get) dir) visit depth
      dir).run.run fs = (.ok out, fs')) :
    VisitingBelow Inv visit l ((disk.fileLocations start depth dir).map dir.descend) fs out fs' := by
  induction depth generalizing dir l fs out fs' with
  | zero =>
    obtain ⟨⟨⟩, rfl⟩ := Prod.mk.inj h
    exact .nil hfs
  | succ depth ih =>
    -- what is walked is the same as at the start, whatever the contents are now
    have hthere : fs.shape.childrenAt l = start.shape.childrenAt l :=
      FileSystem.childrenAt_congr fun n => hsame _ ⟨[n], by simp, rfl⟩
    rw [run_walkDirectory_succ, ← walkEntries_shape,
      Disk.entriesOf_shape_eq ((hgrows hfs).find_directory hdir) hdir hthere,
      walkEntries_shape] at h
    rw [Disk.fileLocations] at hstays ⊢
    have hentry {n : Name} {node : Node} (hn : (n, node) ∈ disk.entriesOf start dir) :
        start.nodeAt (l ++ [n]) = some node := by
      have hmem := (Disk.mem_entriesOf.mp hn).2.2
      rwa [FileSystem.entriesOf_eq hdir, FileSystem.mem_childrenAt] at hmem
    refine visitingBelow_walkEntries (fun n hn => ?directory) (fun n content executable hn => ?file)
      (disk.pairwise_entriesOf start dir) hfs (fun n _ => hsame.concat n) h
    case file =>
      have hmem := hstays [] n (List.mem_flatMap_of_mem hn (by simp [FileSystem.entryLocations]))
      simpa using hmem
    case directory =>
      intro fs out fs' hfs hsame hrun
      have hnode := hentry hn
      by_cases hshort : (dir.child n).IsShort
      · have hvalid := hnames l n (by simp [hnode])
        have hchild := FileSystem.find_child hdir hvalid hshort hnode (by simp)
        refine ih hchild (fun above m hm => ?_) hfs hsame hrun
        have hmem := hstays (n :: above) m
          (List.mem_flatMap_of_mem hn (by simpa [FileSystem.entryLocations] using hm))
        simpa using hmem
      · -- a directory with a path too long to be followed is not walked, now or at the start
        rw [Disk.fileLocations_of_not_isShort hshort, List.map_nil]
        cases depth with
        | zero =>
          obtain ⟨⟨⟩, rfl⟩ := Prod.mk.inj hrun
          exact .nil hfs
        | succ depth =>
          rw [run_walkDirectory_succ, Disk.entriesOf_of_not_isShort hshort] at hrun
          obtain ⟨⟨⟩, rfl⟩ := Prod.mk.inj hrun
          exact .nil hfs

/-- A walk whose visits do nothing does nothing. -/
theorem run_walkDirectory_of_idle {depth : Nat}
    (h : ∀ below ∈ disk.fileLocations fs depth dir,
      (visit (dir.descend below)).run.run fs = (.ok [], fs)) :
    (walkDirectory (fun dir => do return disk.entriesOf (← get) dir) visit depth dir).run.run fs =
      (.ok [], fs) := by
  induction depth generalizing dir with
  | zero => rfl
  | succ depth ih =>
    rw [run_walkDirectory_succ]
    rw [Disk.fileLocations] at h
    generalize disk.entriesOf fs dir = entries at h ⊢
    induction entries with
    | nil => rfl
    | cons entry entries ihEntries =>
      obtain ⟨n, node⟩ := entry
      rw [List.flatMap_cons] at h
      obtain ⟨hhere, hlater⟩ := List.forall_mem_append.mp h
      have hentry : (visitEntry visit
          (walkDirectory (fun dir => do return disk.entriesOf (← get) dir) visit depth) dir n
          node).run.run fs = (.ok [], fs) := by
        cases node with
        | file content executable => exact hhere [n] (by simp [FileSystem.entryLocations])
        | directory =>
          apply ih
          intro below hbelow
          exact hhere (n :: below) (by simpa [FileSystem.entryLocations] using hbelow)
        | link target => rfl
      rw [walkEntries_cons, Attempt.run_bind_ok hentry, Attempt.run_bind_ok (ihEntries hlater)]
      rfl

end ConstPromotion
