import ConstPromotion.Proofs.Selection
import ConstPromotion.Proofs.Text.Order

/-!
# The list of selected files

What a selection is, without regard to how it is made: the keys of the reviewed files in their
order, each the first time that it comes up, and after them the files that a scan selects
(`IsScanned`), in the order of their names in bytes. `selectCandidates_listing` says this of every
root, every tree and every disk: what a disk does not show or does not let be read is not selected. A
file below the root has its names for a key, however the root is spelled (`keyUnder_descend`).
-/

namespace ConstPromotion

variable {disk : Disk} {fs : FileSystem} {root p : Path} {policy : SelectionPolicy}
  {l below : Location}

/-- A file that a scan selects, known by its location below the root, which lies at `l`. It has a
line to promote; it is shown and can be read; its extension is text and one of those that are
scanned, up to the case of letters; and no entry of a list has its key. -/
structure IsScanned (disk : Disk) (fs : FileSystem) (root : Path) (policy : SelectionPolicy)
    (l below : Location) : Prop where
  isPromotable : ∃ content executable, fs.nodeAt (l ++ below) = some (.file content executable) ∧
    ∃ line ∈ content.splitOn 0x0A, (ArrayDeclaration.matchBytes? line).isSome
  shows : disk.Shows root below
  isReadable : ∃ content, disk.read fs (root.descend below) = .ok content
  hasExtension : ∃ extension wanted, (root.descend below).extension? = some extension ∧
    disk.isText extension = true ∧ wanted ∈ policy.extensions ∧
      wanted.toList.map Char.toLower = extension.map Char.toLower
  unlisted : ∀ entry ∈ policy.allowList ++ policy.denyList,
    ¬ (Path.keyUnder root entry).same (.ofComponents (below.map .name))

/-! ### Reviewed files -/

/-- The keys of the reviewed files, each the first time that it comes up. -/
lemma reviewedKeys_eq (root : Path) (allowList : List Path) :
    reviewedKeys root allowList =
      (allowList.map (Path.keyUnder root)).eraseDupsBy fun key earlier => earlier.same key := by
  -- the keys that were kept so far are collected the other way round
  have hloop (keys : List Path) :
      allowList.foldl (fun keys entry =>
        let key := Path.keyUnder root entry
        if isAmong key keys then keys else keys ++ [key]) keys.reverse =
      List.eraseDupsBy.loop (fun key earlier => earlier.same key)
        (allowList.map (Path.keyUnder root)) keys := by
    induction allowList generalizing keys with
    | nil => rfl
    | cons entry entries ih =>
      have hamong : isAmong (Path.keyUnder root entry) keys.reverse =
          keys.any fun earlier => earlier.same (Path.keyUnder root entry) := by
        rw [isAmong, List.any_reverse]
      rw [List.foldl_cons, List.map_cons, List.eraseDupsBy.loop]
      simp only [hamong]
      cases keys.any fun earlier => earlier.same (Path.keyUnder root entry) with
      | true => exact ih keys
      | false => simpa using ih (Path.keyUnder root entry :: keys)
  exact hloop []

/-- The key of each reviewed file is among those that are kept, under some spelling. -/
lemma exists_same_of_mem {allowList : List Path} {entry : Path} (h : entry ∈ allowList) :
    ∃ key ∈ reviewedKeys root allowList, key.same (Path.keyUnder root entry) := by
  induction allowList using List.reverseRecOn with
  | nil => exact absurd h List.not_mem_nil
  | append_singleton entries last ih =>
    rw [reviewedKeys, List.foldl_concat, ← reviewedKeys]
    simp only
    rcases List.mem_append.mp h with h | h
    · obtain ⟨key, hkey, hsame⟩ := ih h
      refine ⟨key, ?_, hsame⟩
      split_ifs
      · exact hkey
      · exact List.mem_append_left _ hkey
    · obtain rfl := List.mem_singleton.mp h
      split_ifs with hamong
      · exact isAmong_eq_true.mp hamong
      · exact ⟨_, List.mem_append_right _ (List.mem_singleton_self _), decide_eq_true rfl⟩

/-- A path is left out of the scan just if an entry of a list has its key. -/
lemma isAmong_keys_eq_false {key : Path} :
    isAmong key (reviewedKeys root policy.allowList
        ++ policy.denyList.map (Path.keyUnder root)) = false ↔
      ∀ entry ∈ policy.allowList ++ policy.denyList, ¬ (Path.keyUnder root entry).same key := by
  rw [← Bool.not_eq_true, isAmong_eq_true]
  constructor
  · intro h entry hentry hsame
    refine h ?_
    rcases List.mem_append.mp hentry with hentry | hentry
    · obtain ⟨kept, hkept, hsame'⟩ := exists_same_of_mem hentry
      rw [Path.same, decide_eq_true_eq] at hsame hsame'
      exact ⟨kept, List.mem_append_left _ hkept, decide_eq_true (hsame'.trans hsame)⟩
    · exact ⟨_, List.mem_append_right _ (List.mem_map_of_mem hentry), hsame⟩
  · rintro h ⟨key', hkey', hsame⟩
    rcases List.mem_append.mp hkey' with hkey' | hkey'
    · obtain ⟨entry, hentry, rfl⟩ := mem_reviewedKeys hkey'
      exact h entry (List.mem_append_left _ hentry) hsame
    · obtain ⟨entry, hentry, rfl⟩ := List.mem_map.mp hkey'
      exact h entry (List.mem_append_right _ hentry) hsame

/-! ### Scanned files -/

lemma hasExtension_eq_true {extensions : List String} :
    disk.hasExtension extensions p = true ↔ ∃ extension wanted, p.extension? = some extension ∧
      disk.isText extension = true ∧ wanted ∈ extensions ∧
        wanted.toList.map Char.toLower = extension.map Char.toLower := by
  rw [Disk.hasExtension]
  cases p.extension? with
  | none => simp
  | some extension => simp

/-- A file below a root has its names for a key, however the root is spelled. -/
lemma keyUnder_descend (hnames : ∀ n ∈ below, Path.IsEntryName n) (hroot : root.chars ≠ []) :
    Path.keyUnder root (root.descend below) = .ofComponents (below.map .name) :=
  Path.keyUnder_of_below (components_clean_descend hnames hroot)

/-- A file is promotable by what it holds, if it can be read. -/
lemma isPromotable_descend (hfs : fs.IsTree) (hnames : fs.HasValidNames)
    (hroot : fs.find root = .ok (l, .directory)) {content : Bytes} {executable : Bool}
    (hnode : fs.nodeAt (l ++ below) = some (.file content executable)) :
    disk.isPromotable fs (root.descend below) = true ↔
      (∃ content, disk.read fs (root.descend below) = .ok content) ∧
        ∃ line ∈ content.splitOn 0x0A, (ArrayDeclaration.matchBytes? line).isSome := by
  have hread {old : Bytes} (h : disk.read fs (root.descend below) = .ok old) : old = content := by
    obtain ⟨k, executable', hfind⟩ := FileSystem.read_eq_ok_iff.mp (Disk.read_of_ok h)
    have hshort := FileSystem.isShort_of_find hfind
    have hthere := FileSystem.find_descend hnames hfs hroot hnode (by simp) hshort
    rw [hthere, Except.ok.injEq, Prod.mk.injEq, Node.file.injEq] at hfind
    exact hfind.2.1.symm
  rw [isPromotable_eq_true_iff, ← List.any_eq_true, ← hasDeclaration]
  constructor
  · rintro ⟨old, h, hpromotable⟩
    exact ⟨⟨old, h⟩, hread h ▸ hpromotable⟩
  · rintro ⟨⟨old, h⟩, hpromotable⟩
    exact ⟨old, h, hread h ▸ hpromotable⟩

/-- What is below a root is spelled with names that entries can have. -/
lemma isEntryName_of_nodeAt (hfs : fs.IsTree) (hnames : fs.HasValidNames)
    (hnode : fs.nodeAt (l ++ below) ≠ none) : ∀ n ∈ below, Path.IsEntryName n := fun n hn =>
  (hnames.forall_mem hfs hnode n (List.mem_append_right _ hn)).toIsEntryName

/-- Where the files are that a scan selects. -/
def scannedLocations (disk : Disk) (fs : FileSystem) (root : Path) (policy : SelectionPolicy) :
    List Location :=
  (disk.fileLocations fs (fs.depth + 1) root).filter fun below =>
    disk.hasExtension policy.extensions (root.descend below)
      && !isAmong (Path.keyUnder root (root.descend below))
        (reviewedKeys root policy.allowList ++ policy.denyList.map (Path.keyUnder root))
      && disk.isPromotable fs (root.descend below)

lemma mem_scannedLocations (hfs : fs.IsTree) (hnames : fs.HasValidNames)
    (hroot : fs.find root = .ok (l, .directory)) :
    below ∈ scannedLocations disk fs root policy ↔ IsScanned disk fs root policy l below := by
  have hne := FileSystem.chars_ne_nil_of_find hroot
  rw [scannedLocations, List.mem_filter, Disk.mem_fileLocations_iff hnames hfs hroot]
  simp only [Bool.and_eq_true, Bool.not_eq_true', hasExtension_eq_true, isAmong_keys_eq_false]
  constructor
  · rintro ⟨⟨hshows, -, content, executable, hnode⟩, ⟨hextension, hunlisted⟩, hpromotable⟩
    have hvalid := isEntryName_of_nodeAt hfs hnames (by rw [hnode]; simp)
    rw [keyUnder_descend hvalid hne] at hunlisted
    obtain ⟨hreadable, hline⟩ := (isPromotable_descend hfs hnames hroot hnode).mp hpromotable
    exact ⟨⟨content, executable, hnode, hline⟩, hshows, hreadable, hextension, hunlisted⟩
  · rintro ⟨⟨content, executable, hnode, hline⟩, hshows, hreadable, hextension, hunlisted⟩
    have hvalid := isEntryName_of_nodeAt hfs hnames (by rw [hnode]; simp)
    rw [keyUnder_descend hvalid hne]
    refine ⟨⟨hshows, ?_, content, executable, hnode⟩, ⟨hextension, hunlisted⟩,
      (isPromotable_descend hfs hnames hroot hnode).mpr ⟨hreadable, hline⟩⟩
    -- what can be read has a short path, and the directory that it is in has a shorter one
    obtain ⟨old, hread⟩ := hreadable
    obtain ⟨k, executable', hfind⟩ := FileSystem.read_eq_ok_iff.mp (Disk.read_of_ok hread)
    have hshort := FileSystem.isShort_of_find hfind
    rcases List.eq_nil_or_concat' below with rfl | ⟨above, n, rfl⟩
    · exact hshort
    · rw [List.dropLast_concat]
      rw [Path.descend_concat] at hshort
      exact (Path.size_lt_child (hvalid n (by simp)) _).trans hshort

lemma pairwise_scannedLocations (disk : Disk) (fs : FileSystem) (root : Path)
    (policy : SelectionPolicy) :
    ((scannedLocations disk fs root policy).map (List.map Utf8.encode)).Pairwise (· < ·) := by
  refine List.pairwise_map.mpr (((disk.pairwise_fileLocations fs _ root).filter _).imp ?_)
  exact List.map_lt fun _ _ => Utf8.encode_lt_encode

lemma selectCandidatesOn_of_find (disk : Disk) (hroot : fs.find root = .ok (l, .directory))
    (hfollows : disk.pathError? root = none) (policy : SelectionPolicy) :
    selectCandidatesOn disk fs root policy = .ok
      ((reviewedKeys root policy.allowList).map (fun key => ⟨root.join key, key, .allowList⟩)
        ++ (scannedLocations disk fs root policy).map fun below =>
          ⟨root.descend below, Path.keyUnder root (root.descend below), .scan⟩) := by
  have hdir := FileSystem.isDirectory_iff.mpr ⟨l, hroot⟩
  rw [selectCandidatesOn, if_pos ((Disk.isDirectory_eq hfollows).trans hdir),
    Disk.filesBelow_eq hroot]
  simp only [List.filter_map, List.map_map]
  rfl

/-- A selection is the list of the reviewed files, each under the key that comes up first, and after
it the list of the scanned files in the order of their names. What is selected below the root is
spelled by the root and its key. -/
theorem selectCandidates_listing (disk : Disk) (hfs : fs.IsTree) (hnames : fs.HasValidNames)
    (hroot : fs.find root = .ok (l, .directory)) (hfollows : disk.pathError? root = none)
    (policy : SelectionPolicy) :
    ∃ scanned : List Location,
      selectCandidatesOn disk fs root policy = .ok
        (((policy.allowList.map (Path.keyUnder root)).eraseDupsBy
            fun key earlier => earlier.same key).map (fun key => ⟨root.join key, key, .allowList⟩)
          ++ scanned.map fun below =>
            ⟨root.descend below, .ofComponents (below.map .name), .scan⟩) ∧
      (scanned.map (List.map Utf8.encode)).Pairwise (· < ·) ∧
      (∀ below, below ∈ scanned ↔ IsScanned disk fs root policy l below) ∧
      ∀ below ∈ scanned, (root.descend below).components =
        root.components ++ (Path.ofComponents (below.map .name)).components := by
  have hne := (FileSystem.spelling_of_resolve (FileSystem.find_eq_ok_iff.mp hroot)).2.1
  have hvalid {below : Location} (hbelow : below ∈ scannedLocations disk fs root policy) :
      ∀ n ∈ below, Path.IsEntryName n := by
    obtain ⟨⟨content, executable, hnode, -⟩, -⟩ := (mem_scannedLocations hfs hnames hroot).mp hbelow
    exact isEntryName_of_nodeAt hfs hnames (by rw [hnode]; simp)
  refine ⟨scannedLocations disk fs root policy, ?_, pairwise_scannedLocations disk fs root policy,
    fun below => mem_scannedLocations hfs hnames hroot, fun below hbelow => ?_⟩
  · rw [selectCandidatesOn_of_find disk hroot hfollows, ← reviewedKeys_eq]
    congr 2
    refine List.map_congr_left fun below hbelow => ?_
    rw [keyUnder_descend (hvalid hbelow) hne]
  · have hnames := hvalid hbelow
    rw [Path.components_descend hnames hne, Path.components_ofComponents_names hnames]

/-! ### A library beside the directory where paths start -/

namespace Listed

/-- A source file with a table. -/
def source : Node := .file (bytesOf "static int t[4];\n") false

/-- A library with tables in four files, one of them in a directory whose name starts the name of
another file, and with a link and a file without a table. -/
def tree : FileSystem :=
  ⟨.ofList [(["w".toList], .directory), (["w".toList, "sub".toList], .directory),
    (["w".toList, "lib".toList], .directory), (["w".toList, "lib".toList, "a".toList], .directory),
    (["w".toList, "lib".toList, "a".toList, "x.c".toList], source),
    (["w".toList, "lib".toList, "a.c".toList], source),
    (["w".toList, "lib".toList, "b.C".toList], source),
    (["w".toList, "lib".toList, "d.c".toList], source),
    (["w".toList, "lib".toList, "l.c".toList], .link "a.c".toList),
    (["w".toList, "lib".toList, "n.c".toList], .file (bytesOf "int n;\n") false)], ["w".toList]⟩

/-- A spelling of the library from the directory where paths start. -/
def library : Path := .ofString "./sub/../lib"

/-- A reviewed file that is not there, listed twice, and a denied file. -/
def lists : SelectionPolicy where
  allowList := [.ofString "gone.c", .ofString "./gone.c"]
  denyList := [.ofString "a/../d.c"]
  extensions := ["c"]

/-- The reviewed file comes once, and then the scanned ones, a directory before the file whose name
goes on. -/
theorem selectCandidates_listing_spelled :
    tree.IsTree ∧ tree.HasValidNames ∧
      tree.find library = .ok (["w".toList, "lib".toList], .directory) ∧
      selectCandidates tree library lists = .ok
        [⟨.ofString "./sub/../lib/gone.c", .ofString "gone.c", .allowList⟩,
          ⟨.ofString "./sub/../lib/a/x.c", .ofString "a/x.c", .scan⟩,
          ⟨.ofString "./sub/../lib/a.c", .ofString "a.c", .scan⟩,
          ⟨.ofString "./sub/../lib/b.C", .ofString "b.C", .scan⟩] ∧
      ∃ scanned : List Location, scanned.length = 3 ∧
        (scanned.map (List.map Utf8.encode)).Pairwise (· < ·) ∧
        ∀ below, below ∈ scanned ↔
          IsScanned .plain tree library lists ["w".toList, "lib".toList] below := by
  have htree : tree.IsTree := FileSystem.isTree_of_forall (by decide +kernel)
  have hnames : tree.HasValidNames := FileSystem.hasValidNames_of_forall (by decide +kernel)
  have hroot : tree.find library = .ok (["w".toList, "lib".toList], .directory) := by
    decide +kernel
  have hselected : selectCandidates tree library lists = .ok
      [⟨.ofString "./sub/../lib/gone.c", .ofString "gone.c", .allowList⟩,
        ⟨.ofString "./sub/../lib/a/x.c", .ofString "a/x.c", .scan⟩,
        ⟨.ofString "./sub/../lib/a.c", .ofString "a.c", .scan⟩,
        ⟨.ofString "./sub/../lib/b.C", .ofString "b.C", .scan⟩] := by
    decide +kernel
  obtain ⟨scanned, hlisted, hpairwise, hmem, -⟩ :=
    selectCandidates_listing .plain htree hnames hroot rfl lists
  have hreviewed : ((lists.allowList.map (Path.keyUnder library)).eraseDupsBy
      fun key earlier => earlier.same key) = [.ofString "gone.c"] := by
    decide +kernel
  rw [hreviewed] at hlisted
  have hlength := congrArg List.length (Except.ok.inj (hselected.symm.trans hlisted))
  refine ⟨htree, hnames, hroot, hselected, scanned, ?_, hpairwise, hmem⟩
  simpa using hlength.symm

/-- A spelling of the library that can be followed, while every path that goes on is too long. -/
def overlong : Path := ⟨List.replicate 4090 '/' ++ "w/lib".toList⟩

lemma find_overlong : tree.find overlong = .ok (["w".toList, "lib".toList], .directory) := by
  decide +kernel

/-- A disk that lists nothing of one directory of the library, and lets one file not be read. -/
def locked : Disk where
  lists dir _ := dir ≠ .ofString "./sub/../lib/a"
  readError? _ p := if p = .ofString "./sub/../lib/a.c" then some .permissionDenied else none

/-- Under such a spelling no file can be read, and none is selected. On such a disk two files are not
selected that have a table. -/
theorem none_scanned :
    tree.IsTree ∧ tree.HasValidNames ∧
      tree.find overlong = .ok (["w".toList, "lib".toList], .directory) ∧
      tree.nodeAt (["w".toList, "lib".toList] ++ ["a.c".toList]) = some source ∧
      tree.nodeAt (["w".toList, "lib".toList] ++ ["a".toList, "x.c".toList]) = some source ∧
      hasDeclaration (bytesOf "static int t[4];\n") = true ∧
      Disk.plain.hasExtension ["c"] (.ofString "a.c") = true ∧
      Disk.plain.hasExtension ["c"] (.ofString "x.c") = true ∧
      selectCandidates tree overlong ⟨[], [], ["c"]⟩ = .ok [] ∧
      selectCandidatesOn locked tree library ⟨[], [], ["c"]⟩ =
        .ok [⟨.ofString "./sub/../lib/b.C", .ofString "b.C", .scan⟩,
          ⟨.ofString "./sub/../lib/d.c", .ofString "d.c", .scan⟩] := by
  have htree : tree.IsTree := FileSystem.isTree_of_forall (by decide +kernel)
  have hnames : tree.HasValidNames := FileSystem.hasValidNames_of_forall (by decide +kernel)
  have hsize : Utf8.size overlong.chars = FileSystem.maxPathBytes - 1 := by decide +kernel
  have hnone : scannedLocations .plain tree overlong ⟨[], [], ["c"]⟩ = [] := by
    rw [List.eq_nil_iff_forall_not_mem]
    intro below hbelow
    obtain ⟨⟨content, executable, hnode, -⟩, -, ⟨old, hread⟩, -, -⟩ :=
      (mem_scannedLocations htree hnames find_overlong).mp hbelow
    have hvalid := isEntryName_of_nodeAt htree hnames (by rw [hnode]; simp)
    cases below with
    | nil =>
      have hlibrary : tree.nodeAt (["w".toList, "lib".toList] ++ []) = some .directory := by
        decide +kernel
      exact absurd (hlibrary.symm.trans hnode) (by simp)
    | cons n below =>
      obtain ⟨hn, hbelow⟩ := List.forall_mem_cons.mp hvalid
      obtain ⟨k, executable', hfind⟩ := FileSystem.read_eq_ok_iff.mp (Disk.read_of_ok hread)
      have hchild := Path.isShort_of_descend hbelow (FileSystem.isShort_of_find hfind)
      have hlonger := Path.size_lt_child hn overlong
      rw [Path.IsShort] at hchild
      omega
  refine ⟨htree, hnames, find_overlong, by decide +kernel, by decide +kernel, by decide +kernel,
    by decide +kernel, by decide +kernel, ?_, by decide +kernel⟩
  rw [selectCandidates, selectCandidatesOn_of_find .plain find_overlong rfl, hnone]
  rfl

end Listed

end ConstPromotion
