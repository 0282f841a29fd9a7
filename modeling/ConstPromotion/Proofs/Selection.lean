import ConstPromotion.Proofs.FileSystem.Walk
import ConstPromotion.Proofs.Path.Clean
import ConstPromotion.Selection

/-!
# Selected files

What is known of a file that was selected, by its origin (`mem_selectCandidatesOn`), and when no
file is selected twice (`clean_of_selectCandidates`).
-/

namespace ConstPromotion

variable {disk : Disk} {fs : FileSystem} {root p q : Path} {policy : SelectionPolicy}
  {selected : List Candidate} {c : Candidate} {entry : Path}

lemma mem_reviewedKeys {allowList : List Path} {key : Path} (h : key ∈ reviewedKeys root allowList) :
    ∃ entry ∈ allowList, key = Path.keyUnder root entry := by
  induction allowList using List.reverseRecOn with
  | nil => simp [reviewedKeys] at h
  | append_singleton entries entry ih =>
    rw [reviewedKeys, List.foldl_concat, ← reviewedKeys] at h
    have hlater (h : key ∈ reviewedKeys root entries) :
        ∃ e ∈ entries ++ [entry], key = Path.keyUnder root e := by
      obtain ⟨e, he, hkey⟩ := ih h
      exact ⟨e, List.mem_append_left _ he, hkey⟩
    simp only at h
    split_ifs at h
    · exact hlater h
    · rcases List.mem_append.mp h with h | h
      · exact hlater h
      · exact ⟨entry, by simp, List.mem_singleton.mp h⟩

/-- Selection does not fail where the root is a directory. -/
lemma exists_selectCandidatesOn (h : disk.isDirectory fs root = true) :
    ∃ selected, selectCandidatesOn disk fs root policy = .ok selected := by
  rw [selectCandidatesOn, if_pos h]
  exact ⟨_, rfl⟩

lemma isDirectory_of_selectCandidatesOn
    (h : selectCandidatesOn disk fs root policy = .ok selected) : disk.isDirectory fs root = true := by
  rw [selectCandidatesOn] at h
  by_contra hroot
  simp [hroot] at h

/-- A reviewed file is on the list. A file that the scan selects has one of the extensions and can be
promoted. -/
theorem mem_selectCandidatesOn (h : selectCandidatesOn disk fs root policy = .ok selected)
    (hc : c ∈ selected) :
    (c.origin = .allowList ∧ ∃ entry ∈ policy.allowList,
        c.path = root.join (Path.keyUnder root entry)) ∨
      (c.origin = .scan ∧ disk.hasExtension policy.extensions c.path = true ∧
        disk.isPromotable fs c.path = true) := by
  rw [selectCandidatesOn] at h
  split_ifs at h with hroot
  obtain rfl := Except.ok.inj h
  rcases List.mem_append.mp hc with hc | hc
  · obtain ⟨key, hkey, rfl⟩ := List.mem_map.mp hc
    obtain ⟨entry, hentry, rfl⟩ := mem_reviewedKeys hkey
    exact .inl ⟨rfl, entry, hentry, rfl⟩
  · obtain ⟨p, hp, rfl⟩ := List.mem_map.mp hc
    have hkept := (List.mem_filter.mp hp).2
    simp only [Bool.and_eq_true] at hkept
    exact .inr ⟨rfl, hkept.1.1, hkept.2⟩

/-- Whether a path has an extension depends on the name that it ends in. -/
lemma hasExtension_eq (extensions : List String) (h : p.fileName? = q.fileName?) :
    disk.hasExtension extensions p = disk.hasExtension extensions q := by
  rw [Disk.hasExtension, Disk.hasExtension, Path.extension?, Path.extension?, h]

/-- A file is promotable if it can be read and has a line to promote. -/
lemma isPromotable_eq_true_iff : disk.isPromotable fs p = true ↔
    ∃ content, disk.read fs p = .ok content ∧ hasDeclaration content = true := by
  rw [Disk.isPromotable]
  cases disk.read fs p <;> simp

lemma exists_find_of_isPromotable (h : disk.isPromotable fs p = true) :
    ∃ l content executable, fs.find p = .ok (l, .file content executable) := by
  obtain ⟨content, hread, -⟩ := isPromotable_eq_true_iff.mp h
  obtain ⟨l, executable, hfind⟩ := FileSystem.read_eq_ok_iff.mp (Disk.read_of_ok hread)
  exact ⟨l, content, executable, hfind⟩

/-! ### Different files -/

lemma isAmong_eq_true {others : List Path} : isAmong p others = true ↔ ∃ q ∈ others, q.same p := by
  simp [isAmong]

/-- Keys are kept once. -/
lemma pairwise_reviewedKeys (root : Path) (allowList : List Path) :
    (reviewedKeys root allowList).Pairwise fun key key' => ¬ key.same key' := by
  induction allowList using List.reverseRecOn with
  | nil => exact .nil
  | append_singleton entries entry ih =>
    rw [reviewedKeys, List.foldl_concat, ← reviewedKeys]
    simp only
    split_ifs with hamong
    · exact ih
    · rw [isAmong_eq_true] at hamong
      refine List.pairwise_append.mpr ⟨ih, List.pairwise_singleton _ _, fun key hkey _ hlast => ?_⟩
      obtain rfl := List.mem_singleton.mp hlast
      exact fun hsame => hamong ⟨key, hkey, hsame⟩

/-- Names below a directory are below it when it is cleaned. -/
lemma components_clean_descend {names : Location} (hnames : ∀ n ∈ names, Path.IsEntryName n)
    (hp : p.chars ≠ []) :
    (p.descend names).clean.components = p.clean.components ++ names.map .name := by
  have hclean : Path.cleanComponents (names.map .name) = names.map .name :=
    (Path.IsClean.relative 0 names hnames).cleanComponents_eq
  rw [Path.components_clean, Path.components_clean, Path.components_descend hnames hp,
    Path.cleanComponents_append (by simp [hclean]), hclean]

/-- The files below an absolute root are absolute, below the root when they are cleaned, and
different from each other. -/
lemma filesBelow_clean (disk : Disk) (hfs : fs.IsTree) (hnames : fs.HasValidNames)
    (hroot : root.isAbsolute = true) (hdir : fs.isDirectory root = true) :
    (∀ p ∈ disk.filesBelow fs root,
        p.isAbsolute = true ∧ root.clean.components <+: p.clean.components) ∧
      (disk.filesBelow fs root).Pairwise fun p q => p.clean ≠ q.clean := by
  obtain ⟨l, hfind⟩ := FileSystem.isDirectory_iff.mp hdir
  have hvalid {below : Location} (hbelow : below ∈ disk.fileLocations fs (fs.depth + 1) root) :
      ∀ n ∈ below, Path.IsEntryName n := by
    obtain ⟨-, -, content, executable, -, -, hnode⟩ :=
      Disk.nodeAt_of_mem_fileLocations hnames hfind hbelow
    exact fun n hn => (hnames.forall_mem hfs (l := l ++ below) (by simp [hnode]) n
      (List.mem_append_right _ hn)).toIsEntryName
  have hne := Path.chars_ne_nil_of_isAbsolute hroot
  rw [Disk.filesBelow_eq hfind]
  refine ⟨fun p hp => ?_, List.pairwise_map.mpr ?_⟩
  · obtain ⟨below, hbelow, rfl⟩ := List.mem_map.mp hp
    constructor
    · rw [← Path.root_mem_components, Path.components_descend (hvalid hbelow) hne]
      exact List.mem_append_left _ (Path.root_mem_components.mpr hroot)
    · rw [components_clean_descend (hvalid hbelow) hne]
      exact List.prefix_append _ _
  · refine (disk.pairwise_fileLocations fs _ root).imp_of_mem fun hbelow hbelow' hlt heq => ?_
    rw [Path.clean_eq_iff, components_clean_descend (hvalid hbelow) hne,
      components_clean_descend (hvalid hbelow') hne, List.append_cancel_left_eq] at heq
    rw [Path.map_name_injective heq] at hlt
    exact List.lt_irrefl _ hlt

/-- A path leads up out of the root, and from there into it again. -/
def Returns (root entry : Path) : Prop :=
  .parent ∈ entry.clean.components ∧ root.clean.components <+: (root.join entry).clean.components

instance {root entry : Path} : Decidable (Returns root entry) := inferInstanceAs (Decidable (_ ∧ _))

/-- An entry that leads up out of the root leads nowhere that another one leads to in other words. -/
def ClimbsAlike (root : Path) (entries : List Path) : Prop :=
  ∀ entry ∈ entries, .parent ∈ entry.clean.components → ∀ entry' ∈ entries,
    (root.join entry).clean = (root.join entry').clean → entry.clean = entry'.clean

instance {root : Path} {entries : List Path} : Decidable (ClimbsAlike root entries) :=
  inferInstanceAs (Decidable (∀ entry ∈ entries, _))

/-- Two entries of one list that lead to one place have one key. -/
lemma ClimbsAlike.same_keyUnder {entries : List Path} {entry entry' : Path}
    (h : ClimbsAlike root entries) (hroot : root.isAbsolute = true) (hentry : entry ∈ entries)
    (hentry' : entry' ∈ entries) (heq : (root.join entry).clean = (root.join entry').clean) :
    (Path.keyUnder root entry).same (Path.keyUnder root entry') := by
  have hsame {p q : Path} (hclean : p.clean = q.clean) :
      (Path.keyUnder root p).same (Path.keyUnder root q) := by
    rw [Path.keyUnder_congr root hclean]
    exact decide_eq_true rfl
  by_cases hups : .parent ∈ entry.clean.components
  · exact hsame (h entry hentry hups entry' hentry' heq)
  by_cases hups' : .parent ∈ entry'.clean.components
  · exact hsame (h entry' hentry' hups' entry hentry heq.symm).symm
  · exact (Path.same_keyUnder_iff hroot (fun _ => hups) fun _ => hups').mpr heq

/-- A path below the root whose key is not among others is not where an entry with one of them leads
to, unless the entry leads out of the root and back. -/
lemma clean_ne_of_not_isAmong {entry : Path} {left : List Path} (hroot : root.isAbsolute = true)
    (hp : p.isAbsolute = true) (hbelow : root.clean.components <+: p.clean.components)
    (hentry : ¬ Returns root entry) (hleft : Path.keyUnder root entry ∈ left)
    (hamong : isAmong (Path.keyUnder root p) left = false) : p.clean ≠ (root.join entry).clean := by
  intro heq
  by_cases hups : .parent ∈ entry.clean.components
  · exact hentry ⟨hups, heq ▸ hbelow⟩
  rw [← Bool.not_eq_true, isAmong_eq_true] at hamong
  refine hamong ⟨_, hleft, ?_⟩
  rw [Path.same_keyUnder_iff hroot (fun _ => hups) (Path.staysInside_of_isAbsolute hp),
    Path.join_of_isAbsolute hp, heq]

/-- From an absolute root, no two selected files are the same once their paths are cleaned, and no
file that the scan selects is the same as a denied one, unless an entry leads out of the root by `..`
and back, or out of it to a place that a reviewed entry names in other words. -/
theorem clean_of_selectCandidates (hfs : fs.IsTree) (hnames : fs.HasValidNames)
    (hroot : root.isAbsolute = true)
    (hreturns : ∀ entry ∈ policy.allowList ++ policy.denyList, ¬ Returns root entry)
    (hclimbs : ClimbsAlike root policy.allowList)
    (h : selectCandidates fs root policy = .ok selected) :
    selected.Pairwise (fun c c' => c.path.clean ≠ c'.path.clean) ∧
      ∀ c ∈ selected, c.origin = .scan → ∀ denied ∈ policy.denyList,
        c.path.clean ≠ (root.join denied).clean := by
  rw [selectCandidates, selectCandidatesOn] at h
  split_ifs at h with hdir
  obtain rfl := Except.ok.inj h
  obtain ⟨hbelow, hfiles⟩ := filesBelow_clean .plain hfs hnames hroot hdir
  have hreviewed : ∀ key ∈ reviewedKeys root policy.allowList, ∃ entry ∈ policy.allowList,
      key = Path.keyUnder root entry := fun key => mem_reviewedKeys
  -- the scan leaves out the keys of both lists, which the last two cases need
  have hscanned {p : Path} (hp : p ∈ (Disk.plain.filesBelow fs root).filter fun p =>
      Disk.plain.hasExtension policy.extensions p && !isAmong (Path.keyUnder root p)
        (reviewedKeys root policy.allowList ++ policy.denyList.map (Path.keyUnder root)) &&
          Disk.plain.isPromotable fs p) {entry : Path}
      (hentry : entry ∈ policy.allowList ++ policy.denyList)
      (hleft : Path.keyUnder root entry ∈
        reviewedKeys root policy.allowList ++ policy.denyList.map (Path.keyUnder root)) :
      p.clean ≠ (root.join entry).clean := by
    obtain ⟨hmem, hkept⟩ := List.mem_filter.mp hp
    simp only [Bool.and_eq_true, Bool.not_eq_true'] at hkept
    exact clean_ne_of_not_isAmong hroot (hbelow p hmem).1 (hbelow p hmem).2 (hreturns entry hentry)
      hleft hkept.1.2
  refine ⟨List.pairwise_append.mpr ⟨?reviewed, ?scanned, ?across⟩, ?denied⟩
  case reviewed =>
    refine List.pairwise_map.mpr ((pairwise_reviewedKeys root policy.allowList).imp_of_mem ?_)
    intro key key' hkey hkey' hsame heq
    obtain ⟨entry, hentry, rfl⟩ := hreviewed key hkey
    obtain ⟨entry', hentry', rfl⟩ := hreviewed key' hkey'
    rw [Path.clean_join_keyUnder hroot, Path.clean_join_keyUnder hroot] at heq
    exact hsame (hclimbs.same_keyUnder hroot hentry hentry' heq)
  case scanned => exact List.pairwise_map.mpr (hfiles.filter _)
  case across =>
    intro c hc c' hc'
    obtain ⟨key, hkey, rfl⟩ := List.mem_map.mp hc
    obtain ⟨p, hp, rfl⟩ := List.mem_map.mp hc'
    obtain ⟨entry, hentry, rfl⟩ := hreviewed key hkey
    rw [Path.clean_join_keyUnder hroot]
    exact (hscanned hp (List.mem_append_left _ hentry) (List.mem_append_left _ hkey)).symm
  case denied =>
    intro c hc hscan denied hdenied
    rcases List.mem_append.mp hc with hc | hc
    · obtain ⟨key, -, rfl⟩ := List.mem_map.mp hc
      simp at hscan
    · obtain ⟨p, hp, rfl⟩ := List.mem_map.mp hc
      exact hscanned hp (List.mem_append_right _ hdenied)
        (List.mem_append_right _ (List.mem_map_of_mem hdenied))

/-! ### A library with three tables -/

namespace Spelled

/-- A source file with a table. -/
def source : Node := .file (bytesOf "static int t[4];\n") false

/-- A library with tables in three files. -/
def tree : FileSystem :=
  ⟨.ofList [(["r".toList], .directory), (["r".toList, "x.c".toList], source),
    (["r".toList, "y.c".toList], source), (["r".toList, "z.c".toList], source)], []⟩

/-- A list with one file under two spellings and one outside of the library, and a denied file. -/
def lists : SelectionPolicy where
  allowList := [.ofString "x.c", .ofString "/r/sub/../x.c", .ofString "../w.c"]
  denyList := [.ofString "./sub/../y.c"]
  extensions := ["c"]

/-- The reviewed file is selected once, and the denied file is not. -/
theorem clean_of_selectCandidates_spelled :
    tree.IsTree ∧ tree.HasValidNames ∧
      (∀ entry ∈ lists.allowList ++ lists.denyList, ¬ Returns (.ofString "/r") entry) ∧
      ClimbsAlike (.ofString "/r") lists.allowList ∧
      ∃ selected, selectCandidates tree (.ofString "/r") lists = .ok selected ∧
        selected.Pairwise (fun c c' => c.path.clean ≠ c'.path.clean) ∧
        ∀ c ∈ selected, c.origin = .scan → c.path.clean ≠ .ofString "/r/y.c" := by
  have htree : tree.IsTree := FileSystem.isTree_of_forall (by decide +kernel)
  have hnames : tree.HasValidNames := FileSystem.hasValidNames_of_forall (by decide +kernel)
  have hselected : selectCandidates tree (.ofString "/r") lists =
      .ok [⟨.ofString "/r/x.c", .ofString "x.c", .allowList⟩,
        ⟨.ofString "/r/../w.c", .ofString "../w.c", .allowList⟩,
        ⟨.ofString "/r/z.c", .ofString "z.c", .scan⟩] := by
    decide +kernel
  have hreturns : ∀ entry ∈ lists.allowList ++ lists.denyList,
      ¬ Returns (.ofString "/r") entry := by
    decide +kernel
  have hclimbs : ClimbsAlike (.ofString "/r") lists.allowList := by decide +kernel
  obtain ⟨hpairwise, hdenied⟩ :=
    clean_of_selectCandidates htree hnames (by decide) hreturns hclimbs hselected
  have hplace : ((Path.ofString "/r").join (.ofString "./sub/../y.c")).clean = .ofString "/r/y.c" := by
    decide +kernel
  refine ⟨htree, hnames, hreturns, hclimbs, _, hselected, hpairwise, fun c hc hscan => ?_⟩
  rw [← hplace]
  exact hdenied c hc hscan _ (List.mem_singleton_self _)

/-- A spelling of the first file that leads out of the library and back. -/
def roundabout : Path := .ofString "../r/x.c"

/-- Under such a spelling a file is selected twice, and it is scanned although it is denied. -/
theorem roundabout_selected :
    tree.IsTree ∧ tree.IsLinkFree [] ∧ (Path.ofString "/r").isAbsolute = true ∧
      selectCandidates tree (.ofString "/r") ⟨[.ofString "x.c", roundabout], [], []⟩ =
        .ok [⟨.ofString "/r/x.c", .ofString "x.c", .allowList⟩,
          ⟨.ofString "/r/../r/x.c", roundabout, .allowList⟩] ∧
      (Path.ofString "/r/x.c").clean = (Path.ofString "/r/../r/x.c").clean ∧
      selectCandidates tree (.ofString "/r") ⟨[], [roundabout], ["c"]⟩ =
        .ok [⟨.ofString "/r/x.c", .ofString "x.c", .scan⟩,
          ⟨.ofString "/r/y.c", .ofString "y.c", .scan⟩,
          ⟨.ofString "/r/z.c", .ofString "z.c", .scan⟩] ∧
      (Path.ofString "/r/x.c").clean = ((Path.ofString "/r").join roundabout).clean :=
  ⟨FileSystem.isTree_of_forall (by decide +kernel),
    FileSystem.isLinkFree_of_forall (by decide +kernel) [], by decide, by decide +kernel,
    by decide +kernel, by decide +kernel, by decide +kernel⟩

end Spelled

end ConstPromotion
