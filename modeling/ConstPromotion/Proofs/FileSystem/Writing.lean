import ConstPromotion.Proofs.FileSystem.Entries

/-!
# Reading what was written

Writing puts a file where the path leads to, in the place of a file or at a free location
(`exists_put_of_write`), so nothing that was there moves (`Grows.write`). The content is read under
the path that it was written under (`read_of_write`); for this there need not be a tree.
-/

namespace ConstPromotion.FileSystem

variable {fs fs' : FileSystem} {ending : Ending} {l here : Location} {p : Path} {node : Node}
  {pieces : List (List Char)} {place : Place} {content : Bytes} {executable : Bool}

/-! ### Reading -/

lemma Follows.ne_link {links : Nat} {target : List Char} (hending : ending ≠ .link)
    (h : fs.Follows ending links here pieces place) : place ≠ .found l (.link target) := by
  induction h with
  | here | free | file => simp
  | blank _ _ ih | parent _ ih | directory _ _ _ ih | follow _ _ _ _ _ ih => exact ih
  | link _ _ hlink => exact absurd hlink hending

/-- A path that is followed to its end does not lead to a link. -/
lemma find_ne_link {target : List Char} : fs.find p ≠ .ok (l, .link target) := by
  intro h
  obtain ⟨start, -, hfollow⟩ := exists_start?_of_resolve (find_eq_ok_iff.mp h)
  exact (followPieces_eq_ok_iff.mp hfollow).ne_link (by simp) rfl

lemma isFile_iff :
    fs.isFile p = true ↔ ∃ l content executable, fs.find p = .ok (l, .file content executable) := by
  rw [isFile]
  cases h : fs.find p with
  | error e => simp
  | ok found =>
    obtain ⟨l, node⟩ := found
    cases node <;> simp

lemma isDirectory_iff : fs.isDirectory p = true ↔ ∃ l, fs.find p = .ok (l, .directory) := by
  rw [isDirectory]
  cases fs.find p with
  | error e => simp
  | ok found =>
    obtain ⟨l, node⟩ := found
    cases node <;> simp

/-- What is there is a file or a directory. -/
lemma exists?_eq : fs.exists? p = (fs.isFile p || fs.isDirectory p) := by
  rw [exists?, isFile, isDirectory]
  cases h : fs.find p with
  | error e => rfl
  | ok found =>
    obtain ⟨l, node⟩ := found
    cases node with
    | file content executable => rfl
    | directory => rfl
    | link target => exact absurd h find_ne_link

lemma read_eq_ok_iff :
    fs.read p = .ok content ↔ ∃ l executable, fs.find p = .ok (l, .file content executable) := by
  rw [read]
  cases h : fs.find p with
  | error e => simp [bind, Except.bind]
  | ok found =>
    obtain ⟨l, node⟩ := found
    cases node <;> simp [bind, Except.bind, pure, Except.pure]

lemma exists_read_of_isFile (h : fs.isFile p = true) : ∃ content, fs.read p = .ok content := by
  obtain ⟨l, content, executable, hfind⟩ := isFile_iff.mp h
  exact ⟨content, read_eq_ok_iff.mpr ⟨l, executable, hfind⟩⟩

lemma Extends.read (h : Extends fs fs') (hread : fs.read p = .ok content) :
    fs'.read p = .ok content := by
  obtain ⟨l, executable, hfind⟩ := read_eq_ok_iff.mp hread
  exact read_eq_ok_iff.mpr ⟨l, executable, h.find hfind⟩

/-- Where a file is read now that was none before, there was nothing. -/
lemma Extends.exists?_eq_false (h : Extends fs fs') (hfile : fs.isFile p = false)
    (hread : fs'.read p = .ok content) : fs.exists? p = false := by
  by_contra hthere
  rw [Bool.not_eq_false] at hthere
  obtain ⟨l, node, hfind⟩ := exists?_eq_true_iff.mp hthere
  obtain ⟨l', executable, hfind'⟩ := read_eq_ok_iff.mp hread
  obtain ⟨-, rfl⟩ := find_inj (h.find hfind) hfind'
  have hbefore := isFile_iff.mpr ⟨l, content, executable, hfind⟩
  rw [hfile] at hbefore
  contradiction

/-- There is one content at one place. -/
lemma SamePlace.content_eq {q : Path} {content' : Bytes} (h : fs.SamePlace p q) (hfs : fs.IsTree)
    (hp : fs.read p = .ok content) (hq : fs.read q = .ok content') : content = content' := by
  obtain ⟨l, node, node', hpl, hql⟩ := h
  have hnode : fs.nodeAt l = some node := hfs.nodeAt_of_find hpl
  have hnode' : fs.nodeAt l = some node' := hfs.nodeAt_of_find hql
  obtain rfl := Option.some.inj (hnode.symm.trans hnode')
  obtain ⟨k, executable, hfind⟩ := read_eq_ok_iff.mp hp
  obtain ⟨k', executable', hfind'⟩ := read_eq_ok_iff.mp hq
  obtain ⟨-, rfl⟩ := find_inj hpl hfind
  obtain ⟨-, hsame⟩ := find_inj hql hfind'
  exact (Node.file.inj hsame).1

/-- A path still leads where it led, to what lies there now. -/
lemma Grows.find_of_nodeAt {later : Node} (h : Grows fs fs') (hfs' : fs'.IsTree)
    (hfind : fs.find p = .ok (l, node)) (hnode : fs'.nodeAt l = some later) :
    fs'.find p = .ok (l, later) := by
  obtain ⟨found, hfind', -⟩ := h.find hfind
  obtain rfl := Option.some.inj ((hfs'.nodeAt_of_find hfind').symm.trans hnode)
  exact hfind'

lemma Grows.read (h : Grows fs fs') (hfs' : fs'.IsTree) (hfind : fs.find p = .ok (l, node))
    (hnode : fs'.nodeAt l = some (.file content executable)) : fs'.read p = .ok content :=
  read_eq_ok_iff.mpr ⟨l, executable, h.find_of_nodeAt hfs' hfind hnode⟩

/-! ### Places for files -/

/-- A path leads to the same place whatever is wanted there, unless there is a link. -/
lemma Follows.target {links : Nat} (h : fs.Follows ending links here pieces place)
    (hplace : ending = .link → ∀ l target, place ≠ .found l (.link target)) :
    fs.Follows .target links here pieces place := by
  induction h with
  | here => exact .here
  | blank hpiece _ ih => exact .blank hpiece (ih hplace)
  | parent _ ih => exact .parent (ih hplace)
  | free hstep hnode hrest => exact .free hstep.target hnode hrest
  | directory hstep hnode _ ih => exact .directory hstep.target hnode (ih hplace)
  | file hstep hnode => exact .file hstep.target hnode
  | link _ _ hending => exact absurd rfl (hplace hending _ _)
  | follow hstep hnode _ htarget _ ih =>
    exact .follow hstep.target hnode (by simp) htarget (ih hplace)

lemma resolve_target (hplace : ending = .link → ∀ l target, place ≠ .found l (.link target))
    (h : fs.resolve ending p = .ok place) : fs.resolve .target p = .ok place :=
  resolve_of_follows h fun _ hstart hfollow => ⟨hstart, hfollow.target hplace⟩

/-- What leads to a file is a place for one. -/
lemma Follows.file_of_target {links : Nat} (h : fs.Follows .target links here pieces place)
    (hplace : place = .found l node) (hnode : node ≠ .directory) :
    fs.Follows .file links here pieces place := by
  -- a slash after the name is what is refused for a file, and it leads to a directory
  have hfile {links : Nat} {here : Location} {piece : List Char} {rest : List (List Char)}
      (hstep : IsStep .target piece rest)
      (h : fs.Follows .target links here (piece :: rest) (.found l node)) :
      IsStep .file piece rest := by
    refine ⟨hstep.ne_blank, hstep.ne_parent, fun ⟨_, hne, hall⟩ => hnode ?_, hstep.size_le⟩
    refine h.eq_directory (fun q hq => ?_) rfl
    rw [List.getLast?_cons_of_ne_nil hne] at hq
    simpa using List.all_eq_true.mp hall q (List.mem_of_getLast? hq)
  induction h with
  | here => exact .here
  | blank hpiece _ ih => exact .blank hpiece (ih hplace)
  | parent _ ih => exact .parent (ih hplace)
  | free => simp at hplace
  | directory hstep hthere h ih =>
    subst hplace
    exact .directory (hfile hstep (.directory hstep hthere h)) hthere (ih rfl)
  | file hstep hthere => exact .file hstep.file_of_nil hthere
  | link _ _ hending => simp at hending
  | follow hstep hthere hend htarget h ih =>
    subst hplace
    exact .follow (hfile hstep (.follow hstep hthere hend htarget h)) hthere (by simp) htarget
      (ih rfl)

/-- A file that is there can be written. -/
lemma exists_write_of_isFile (h : fs.isFile p = true) (content : Bytes) :
    ∃ fs', fs.write p content = .ok fs' := by
  obtain ⟨l, old, executable, hfind⟩ := isFile_iff.mp h
  have hplace : fs.resolve .file p = .ok (.found l (.file old executable)) :=
    resolve_of_follows (find_eq_ok_iff.mp hfind) fun _ hstart hfollow =>
      ⟨hstart, hfollow.file_of_target rfl (by simp)⟩
  exact ⟨fs.put l (.file content executable), by rw [write, writePlace, hplace]; rfl⟩

/-- A file that is made at a free place is what lies there. -/
lemma Follows.put {links : Nat} (h : fs.Follows .file links here pieces place)
    (hplace : place = .free l) (hl : l ≠ []) (hfree : fs.nodeAt l = none) :
    (fs.put l (.file content executable)).Follows .target links here pieces
      (.found l (.file content executable)) := by
  -- what lies on the way is not at the free place
  have hthere {k : Location} {n : Node} (hk : fs.nodeAt k = some n) :
      (fs.put l (.file content executable)).nodeAt k = some n := by
    rw [nodeAt_put_of_ne hl, hk]
    rintro rfl
    simp [hk] at hfree
  induction h with
  | here | file | link => simp at hplace
  | blank hpiece _ ih => exact .blank hpiece (ih hplace)
  | parent _ ih => exact .parent (ih hplace)
  | free hstep hnode hrest =>
    obtain rfl := Place.free.inj hplace
    obtain rfl := hstep.eq_nil_of_forall hrest
    exact .file hstep.target (nodeAt_put_self hl fs _)
  | directory hstep hnode _ ih => exact .directory hstep.target (hthere hnode) (ih hplace)
  | follow hstep hnode _ htarget _ ih =>
    exact .follow hstep.target (hthere hnode) (by simp) htarget (ih hplace)

lemma find_put (hl : l ≠ []) (hfree : fs.nodeAt l = none)
    (h : fs.resolve .file p = .ok (.free l)) :
    (fs.put l (.file content executable)).find p = .ok (l, .file content executable) := by
  rw [find_eq_ok_iff]
  exact resolve_of_follows h fun _ hstart hfollow =>
    ⟨(Grows.put_free hfree _).start? hstart, hfollow.put rfl hl hfree⟩

/-- A path that does not lead to a new file leads where it led without it. -/
lemma Follows.of_put {links : Nat} {k : Location}
    (h : (fs.put l (.file content executable)).Follows ending links here pieces place)
    (hplace : place = .found k node) (hl : l ≠ []) (hk : k ≠ l) :
    fs.Follows ending links here pieces place := by
  have hthere {k : Location} {n : Node} (hne : l ≠ k)
      (h : (fs.put l (.file content executable)).nodeAt k = some n) : fs.nodeAt k = some n := by
    rwa [nodeAt_put_of_ne hl hne] at h
  -- the new file is neither a directory nor a link on the way
  have hway {k : Location} {n : Node} (hn : ∀ content executable, n ≠ .file content executable)
      (h : (fs.put l (.file content executable)).nodeAt k = some n) : fs.nodeAt k = some n := by
    refine hthere ?_ h
    rintro rfl
    rw [nodeAt_put_self hl] at h
    exact hn _ _ (Option.some.inj h).symm
  induction h with
  | here => exact .here
  | blank hpiece _ ih => exact .blank hpiece (ih hplace)
  | parent _ ih => exact .parent (ih hplace)
  | free => simp at hplace
  | directory hstep hnode _ ih => exact .directory hstep (hway (by simp) hnode) (ih hplace)
  | file hstep hnode =>
    obtain ⟨rfl, -⟩ := Place.found.inj hplace
    exact .file hstep (hthere hk.symm hnode)
  | link hstep hnode hending => exact .link hstep (hway (by simp) hnode) hending
  | follow hstep hnode hend htarget _ ih =>
    exact .follow hstep (hway (by simp) hnode) hend htarget (ih hplace)

lemma start?_of_put {start : Location} (hl : l ≠ [])
    (h : (fs.put l (.file content executable)).start? p = some start) :
    fs.start? p = some start := by
  have hdir : (fs.put l (.file content executable)).nodeAt fs.workingDir = some .directory →
      fs.nodeAt fs.workingDir = some .directory := by
    rw [nodeAt_put hl]
    split_ifs <;> simp
  rw [start?] at h ⊢
  split_ifs at h with habsolute hwork
  · rwa [if_pos habsolute]
  · rwa [if_neg habsolute, if_pos (hdir hwork)]

lemma find_of_put {k : Location} (hl : l ≠ []) (hk : k ≠ l)
    (h : (fs.put l (.file content executable)).find p = .ok (k, node)) :
    fs.find p = .ok (k, node) := by
  rw [find_eq_ok_iff] at h ⊢
  exact resolve_of_follows h fun _ hstart hfollow =>
    ⟨start?_of_put hl hstart, hfollow.of_put rfl hl hk⟩

/-! ### Writing -/

/-- A file can be put at a location: nothing is there, or a file. -/
def TakesFile (fs : FileSystem) (l : Location) : Prop :=
  fs.nodeAt l = none ∨ ∃ content executable, fs.nodeAt l = some (.file content executable)

namespace TakesFile

lemma ne_nil (h : fs.TakesFile l) : l ≠ [] := by
  rintro rfl
  rcases h with h | ⟨content, executable, h⟩ <;> simp at h

lemma grows (h : fs.TakesFile l) (content : Bytes) (executable : Bool) :
    Grows fs (fs.put l (.file content executable)) := by
  rcases h with h | ⟨content', executable', h⟩
  · exact Grows.put_free h _
  · exact Grows.of_shape_eq (shape_put_file h)

end TakesFile

/-- A file that is written to a path goes to a location: that is where the path leads, and where the
file is found. -/
structure IsWritePlace (fs : FileSystem) (p : Path) (l : Location) : Prop where
  takesFile : fs.TakesFile l
  resolve_eq : fs.resolve .target p = .ok (fs.placeAt l)
  find_put (content : Bytes) (executable : Bool) :
    (fs.put l (.file content executable)).find p = .ok (l, .file content executable)

theorem isWritePlace_of_writePlace (hfs : fs.IsTree) (h : fs.writePlace p = .ok (l, executable)) :
    fs.IsWritePlace p l := by
  obtain ⟨place, hresolve, h⟩ := exists_of_bind_eq_ok h
  have hfits := resolve_fits hfs hresolve
  split at h
  next l' content' executable' =>
    obtain ⟨rfl, -⟩ := Prod.mk.inj (Except.ok.inj h)
    have hnode : fs.nodeAt l' = some (.file content' executable') := hfits
    have htakes : fs.TakesFile l' := .inr ⟨_, _, hnode⟩
    have htarget := resolve_target (by simp) hresolve
    refine ⟨htakes, by rw [htarget, placeAt, hnode], fun content executable => ?_⟩
    have htree : (fs.put l' (.file content executable)).IsTree :=
      hfs.put_of_fits hfits (.inr ⟨_, rfl, by simp⟩) _
    exact (Grows.of_shape_eq (shape_put_file hnode)).find_of_nodeAt htree
      (find_eq_ok_iff.mpr htarget) (nodeAt_put_self htakes.ne_nil fs _)
  next => simp at h
  next l' =>
    obtain ⟨rfl, -⟩ := Prod.mk.inj (Except.ok.inj h)
    have htakes : fs.TakesFile l' := .inl hfits.1
    exact ⟨htakes, by rw [resolve_target (by simp) hresolve, placeAt, hfits.1],
      fun _ _ => FileSystem.find_put htakes.ne_nil hfits.1 hresolve⟩

lemma IsWritePlace.isTree (h : fs.IsWritePlace p l) (hfs : fs.IsTree) (content : Bytes)
    (executable : Bool) : (fs.put l (.file content executable)).IsTree := by
  refine hfs.put_of_fits (resolve_fits hfs h.resolve_eq) ?_ _
  rcases h.takesFile with hnode | ⟨old, executable', hnode⟩
  · simp [placeAt, hnode]
  · simp [placeAt, hnode]

/-- Writing a file puts it where the path leads to, and that is where it is found. -/
theorem exists_put_of_write (hfs : fs.IsTree) (h : fs.write p content = .ok fs') :
    ∃ l executable, fs' = fs.put l (.file content executable) ∧ fs.TakesFile l ∧
      fs.resolve .target p = .ok (fs.placeAt l) ∧
      fs'.find p = .ok (l, .file content executable) := by
  obtain ⟨⟨l, executable⟩, hplace, h⟩ := exists_of_bind_eq_ok h
  obtain rfl := Except.ok.inj h
  have hl := isWritePlace_of_writePlace hfs hplace
  exact ⟨l, executable, rfl, hl.takesFile, hl.resolve_eq, hl.find_put content executable⟩

/-- Nothing moves when a file is written. -/
theorem Grows.write (hfs : fs.IsTree) (h : fs.write p content = .ok fs') : Grows fs fs' := by
  obtain ⟨l, executable, rfl, htakes, -, -⟩ := exists_put_of_write hfs h
  exact htakes.grows content executable

/-- A file is written where the path led to before. -/
lemma location_eq_of_find {k : Location} (hfind : fs.find p = .ok (k, node))
    (hplace : fs.resolve .target p = .ok (fs.placeAt l)) : k = l := by
  rw [find_eq_ok_iff, hplace, Except.ok.injEq, eq_comm, found_eq_placeAt_iff] at hfind
  exact hfind.1

/-- A path that leads to nothing leads to a free location. -/
lemma nodeAt_eq_none_of_exists? (hexists : fs.exists? p = false)
    (hplace : fs.resolve .target p = .ok (fs.placeAt l)) : fs.nodeAt l = none := by
  cases hnode : fs.nodeAt l with
  | none => rfl
  | some node =>
    rw [placeAt, hnode, ← find_eq_ok_iff] at hplace
    rw [exists?_eq_true_iff.mpr ⟨l, node, hplace⟩] at hexists
    simp at hexists

/-! ### Files that are written beside links -/

lemma Follows.exists_placeAt {links : Nat} (h : fs.Follows ending links here pieces place)
    (hplace : ∀ l, place ≠ .found l .directory) : ∃ l, place = fs.placeAt l := by
  induction h with
  | here => exact absurd rfl (hplace _)
  | blank _ _ ih | parent _ ih | directory _ _ _ ih | follow _ _ _ _ _ ih => exact ih hplace
  | free _ hnode | file _ hnode | link _ hnode => exact ⟨_, by rw [placeAt, hnode]⟩

/-- What a path leads to lies there, if it is no directory. -/
lemma exists_placeAt_of_resolve (hplace : ∀ l, place ≠ .found l .directory)
    (h : fs.resolve ending p = .ok place) : ∃ l, place = fs.placeAt l := by
  obtain ⟨start, -, hfollow⟩ := exists_start?_of_resolve h
  exact (followPieces_eq_ok_iff.mp hfollow).exists_placeAt hplace

lemma nodeAt_of_resolve_file (h : fs.resolve ending p = .ok (.found l (.file content executable))) :
    fs.nodeAt l = some (.file content executable) := by
  obtain ⟨k, hk⟩ := exists_placeAt_of_resolve (by simp) h
  obtain ⟨rfl, hnode⟩ := found_eq_placeAt_iff.mp hk
  exact hnode

lemma nodeAt_of_resolve_free (h : fs.resolve ending p = .ok (.free l)) : fs.nodeAt l = none := by
  obtain ⟨k, hk⟩ := exists_placeAt_of_resolve (by simp) h
  obtain ⟨rfl, hnode⟩ := free_eq_placeAt_iff.mp hk
  exact hnode

/-- What was written is read, whatever else there is. -/
theorem read_of_write (h : fs.write p content = .ok fs') : fs'.read p = .ok content := by
  obtain ⟨⟨l, executable⟩, hplace, h⟩ := exists_of_bind_eq_ok h
  obtain rfl := Except.ok.inj h
  obtain ⟨place, hresolve, hplace⟩ := exists_of_bind_eq_ok hplace
  rw [read_eq_ok_iff]
  split at hplace
  next k old executable' =>
    obtain ⟨rfl, rfl⟩ := Prod.mk.inj (Except.ok.inj hplace)
    have htakes : fs.TakesFile k := .inr ⟨_, _, nodeAt_of_resolve_file hresolve⟩
    have hfind := find_eq_ok_iff.mpr (resolve_target (by simp) hresolve)
    obtain ⟨new, executable, hfind'⟩ := (htakes.grows content executable').find_file hfind
    have hnew := nodeAt_of_resolve_file (find_eq_ok_iff.mp hfind')
    rw [nodeAt_put_self htakes.ne_nil, Option.some_inj, Node.file.injEq] at hnew
    exact ⟨k, executable, by rw [hfind', hnew.1]⟩
  next => simp at hplace
  next k =>
    obtain ⟨rfl, rfl⟩ := Prod.mk.inj (Except.ok.inj hplace)
    have hfree := nodeAt_of_resolve_free hresolve
    have htakes : fs.TakesFile k := .inl hfree
    exact ⟨k, false, find_put htakes.ne_nil hfree hresolve⟩

/-! ### Copying -/

variable {source target : Path} {size : Nat}

/-- Copying a file puts its content where the target leads to, unless the source leads there too:
then nothing is left to read, and nothing is put there. -/
theorem exists_put_of_copy (hfs : fs.IsTree) (h : fs.copy source target = .ok (size, fs')) :
    ∃ k content executable l copied, fs.find source = .ok (k, .file content executable) ∧
      fs.IsWritePlace target l ∧ copied = (if k = l then [] else content) ∧
      fs' = (fs.put l (.file [] executable)).put l (.file copied executable) ∧
      size = copied.length := by
  obtain ⟨⟨k, node⟩, hfind, h⟩ := exists_of_bind_eq_ok h
  cases node with
  | directory => simp at h
  | link link => simp at h
  | file content executable =>
    obtain ⟨⟨l, executable'⟩, hplace, h⟩ := exists_of_bind_eq_ok h
    have hl := isWritePlace_of_writePlace hfs hplace
    obtain ⟨copied, hread, h⟩ := exists_of_bind_eq_ok h
    obtain ⟨rfl, rfl⟩ := Prod.mk.inj (Except.ok.inj h)
    refine ⟨k, content, executable, l, copied, hfind, hl, ?_, rfl, rfl⟩
    -- the source is read where it was found, after the target was emptied
    obtain ⟨k', executable₁, hread⟩ := read_eq_ok_iff.mp hread
    obtain ⟨node, hemptied, -⟩ := (hl.takesFile.grows [] executable).find hfind
    obtain ⟨rfl, rfl⟩ := find_inj hread hemptied
    have hbefore : fs.nodeAt k' = some (.file content executable) := hfs.nodeAt_of_find hfind
    have hafter := (hl.isTree hfs [] executable).nodeAt_of_find hread
    rw [nodeAt_put hl.takesFile.ne_nil, hbefore] at hafter
    by_cases hk : l = k'
    · rw [if_pos hk, Option.some_inj, Node.file.injEq] at hafter
      rw [if_pos hk.symm, hafter.1]
    · rw [if_neg hk, Option.some_inj, Node.file.injEq] at hafter
      rw [if_neg (Ne.symm hk), hafter.1]

/-- After a copy the source and the target have the same content: that of the source, unless the
source and the target were the same place. A file that is copied over itself is emptied. -/
theorem read_of_copy (hfs : fs.IsTree) (hread : fs.read source = .ok content)
    (h : fs.copy source target = .ok (size, fs')) :
    let copied := if fs.SamePlace source target then [] else content
    size = copied.length ∧ fs'.read target = .ok copied ∧ fs'.read source = .ok copied := by
  intro copied
  have htree : fs'.IsTree := hfs.copy h
  obtain ⟨k, content', executable, l, copied', hfind, hl, hcopied, hput, hsize⟩ :=
    exists_put_of_copy hfs h
  have hne := hl.takesFile.ne_nil
  obtain rfl : content' = content := by
    obtain ⟨k', executable', hfind'⟩ := read_eq_ok_iff.mp hread
    obtain ⟨-, hnode⟩ := find_inj hfind hfind'
    exact (Node.file.inj hnode).1
  have hnode : fs.nodeAt k = some (.file content' executable) := hfs.nodeAt_of_find hfind
  have hsame : fs.SamePlace source target ↔ k = l := by
    constructor
    · rintro ⟨k', _, _, hsource, htarget⟩
      obtain ⟨rfl, -⟩ := find_inj hsource hfind
      exact location_eq_of_find htarget hl.resolve_eq
    · rintro rfl
      refine ⟨k, _, .file content' executable, hfind, ?_⟩
      rw [find_eq_ok_iff, hl.resolve_eq, placeAt, hnode]
  obtain rfl : copied' = copied := by
    rw [hcopied]
    exact if_congr hsame.symm rfl rfl
  have hlater (j : Location) : fs'.nodeAt j =
      if l = j then some (.file copied executable) else fs.nodeAt j := by
    rw [hput, nodeAt_put hne, nodeAt_put hne]
    split_ifs <;> rfl
  have hwritten : Grows (fs.put l (.file [] executable)) fs' := by
    rw [hput]
    exact .of_shape_eq (shape_put_file (nodeAt_put_self hne fs _))
  have hmoved := (hl.takesFile.grows [] executable).trans hwritten
  have hkept : fs'.nodeAt k = some (.file copied executable) := by
    rw [hlater, hnode, hcopied]
    by_cases hk : k = l
    · rw [if_pos hk.symm]
    · rw [if_neg (Ne.symm hk), if_neg hk]
  have htarget : fs'.nodeAt l = some (.file copied executable) := by rw [hlater, if_pos rfl]
  exact ⟨hsize, hwritten.read htree (hl.find_put [] executable) htarget,
    hmoved.read htree hfind hkept⟩

/-! ### Several files -/

/-- The later file system comes from the earlier one by writing files. -/
inductive Written (earlier : FileSystem) : FileSystem → Prop where
  | refl : Written earlier earlier
  | write {fs fs' : FileSystem} {p : Path} {content : Bytes} (h : Written earlier fs)
    (hwrite : fs.write p content = .ok fs') : Written earlier fs'

namespace Written

variable {fs'' : FileSystem}

lemma trans (h : Written fs fs') (h' : Written fs' fs'') : Written fs fs'' := by
  induction h' with
  | refl => exact h
  | write _ hwrite ih => exact .write ih hwrite

lemma isTree (h : Written fs fs') (hfs : fs.IsTree) : fs'.IsTree := by
  induction h with
  | refl => exact hfs
  | write _ hwrite ih => exact ih.write hwrite

theorem grows (h : Written fs fs') (hfs : fs.IsTree) : Grows fs fs' := by
  induction h with
  | refl => exact .refl fs
  | write h hwrite ih => exact ih.trans (.write (h.isTree hfs) hwrite)

lemma isLinkFree (h : Written fs fs') (hfs : fs.IsTree) (hlinks : fs.IsLinkFree l) :
    fs'.IsLinkFree l := by
  induction h with
  | refl => exact hlinks
  | write h hwrite ih =>
    obtain ⟨k, executable, rfl, htakes, -, -⟩ := exists_put_of_write (h.isTree hfs) hwrite
    exact ih.put htakes.ne_nil _ executable

/-- What a path leads to was there before, under that path, or is new. -/
theorem exists?_or_free (h : Written fs fs') (hfs : fs.IsTree) (hfind : fs'.find p = .ok (l, node)) :
    fs.exists? p = true ∨ fs.nodeAt l = none := by
  induction h generalizing node with
  | refl => exact .inl (exists?_eq_true_iff.mpr ⟨l, node, hfind⟩)
  | write h hwrite ih =>
    obtain ⟨k, executable, rfl, htakes, -, -⟩ := exists_put_of_write (h.isTree hfs) hwrite
    by_cases hk : l = k
    · subst hk
      rcases htakes with hfree | ⟨content', executable', hnode⟩
      · exact .inr ((h.grows hfs).nodeAt_eq_none hfree)
      · obtain ⟨node', hfind', -⟩ := (Grows.of_shape_eq (shape_put_file hnode).symm).find hfind
        exact ih hfind'
    · exact ih (find_of_put htakes.ne_nil hk hfind)

end Written

end ConstPromotion.FileSystem
