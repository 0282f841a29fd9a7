import ConstPromotion.Proofs.Selection.Listing

/-!
# What an entry of a list means

An entry of a list is relative to the root. The key that it is compared by is the cleaned entry
(`keyUnder_of_not_repeats`), unless the entry repeats the cleaned root, in which case the key is what
comes after that. So an entry that repeats the root means another file than the one it leads to from
there. All others mean that file: the reviewed file that is selected for an entry is where the entry
leads to, and a denied entry takes that one file out of the scan (`selectCandidates_entries`).
-/

namespace ConstPromotion

variable {disk : Disk} {fs : FileSystem} {root entry denied : Path} {policy : SelectionPolicy}
  {l below : Location}

/-- A path begins with the components of the root, once both are cleaned. -/
def RepeatsRoot (root entry : Path) : Prop :=
  root.clean.components ≠ [] ∧ root.clean.components <+: entry.clean.components

instance : Decidable (RepeatsRoot root entry) := inferInstanceAs (Decidable (_ ∧ _))

/-! ### Keys -/

/-- What is relative does not repeat an absolute root. -/
lemma not_repeatsRoot_of_isAbsolute (hroot : root.isAbsolute = true)
    (hentry : entry.isAbsolute = false) : ¬ RepeatsRoot root entry := fun h =>
  Path.not_isPrefix_clean hroot hentry h.2

lemma keyUnder_of_not_repeats (h : ¬ RepeatsRoot root entry) :
    Path.keyUnder root entry = entry.clean := by
  by_cases hnil : root.clean.components = []
  · have hself : entry.clean.components = root.clean.components ++ entry.clean.components := by
      rw [hnil, List.nil_append]
    rw [Path.keyUnder_of_below hself, Path.components_clean, Path.clean]
  · exact Path.keyUnder_of_outside fun hprefix => h ⟨hnil, hprefix⟩

/-! ### Reviewed entries -/

/-- A path with the components of a cleaned one leads where it leads. -/
lemma clean_join_of_same {key : Path} (hroot : root.chars ≠ []) (hentry : entry.isAbsolute = false)
    (hsame : key.same entry.clean) : (root.join key).clean = (root.join entry).clean := by
  rw [Path.same, decide_eq_true_eq] at hsame
  have hkey : key.clean = entry.clean := by
    rw [Path.clean_eq_iff, Path.components_clean, hsame, Path.components_clean,
      (Path.isClean_cleanComponents entry).cleanComponents_eq]
  have hrelative : key.isAbsolute = false := by
    rw [← Bool.not_eq_true, ← Path.root_mem_components, hsame, Path.components_clean,
      Path.root_mem_cleanComponents, hentry]
    exact Bool.false_ne_true
  rw [← Path.clean_join_clean hrelative hroot, hkey, Path.clean_join_clean hentry hroot]

/-! ### Denied entries -/

/-- A denied entry has the key of the file that it leads to, and of no other one below the root. -/
lemma same_keyUnder_descend_iff (hroot : root.chars ≠ []) (hdenied : denied.isAbsolute = false)
    (hrepeats : ¬ RepeatsRoot root denied) (hreturns : ¬ Returns root denied)
    (hbelow : ∀ n ∈ below, Path.IsEntryName n) :
    (Path.keyUnder root denied).same (Path.keyUnder root (root.descend below)) ↔
      (root.descend below).clean = (root.join denied).clean := by
  rw [keyUnder_of_not_repeats hrepeats, keyUnder_descend hbelow hroot, Path.same, decide_eq_true_eq,
    Path.components_ofComponents_names hbelow, Path.clean_eq_iff,
    components_clean_descend hbelow hroot]
  by_cases hups : .parent ∈ denied.clean.components
  · -- the entry leads out of the root, and what is below the root does not
    refine iff_of_false (fun heq => ?_) fun heq => hreturns ⟨hups, _, heq⟩
    simp [heq] at hups
  · rw [Path.components_clean] at hups
    rw [Path.components_clean, Path.components_clean, Path.components_clean,
      Path.cleanComponents_join hdenied hroot hups, List.append_cancel_left_eq]
    exact eq_comm

/-- A denied entry takes the file that it leads to out of the scan, and no other one. -/
lemma scannedLocations_denied (hfs : fs.IsTree) (hnames : fs.HasValidNames)
    (hroot : fs.find root = .ok (l, .directory)) {before after : List Path}
    (hdeny : policy.denyList = before ++ denied :: after) (hdenied : denied.isAbsolute = false)
    (hrepeats : ¬ RepeatsRoot root denied) (hreturns : ¬ Returns root denied) :
    scannedLocations disk fs root policy =
      (scannedLocations disk fs root { policy with denyList := before ++ after }).filter fun below =>
        (root.descend below).clean ≠ (root.join denied).clean := by
  have hne := FileSystem.chars_ne_nil_of_find hroot
  rw [scannedLocations, scannedLocations, List.filter_filter]
  refine List.filter_congr fun below hbelow => ?_
  obtain ⟨-, -, content, executable, hnode⟩ :=
    (Disk.mem_fileLocations_iff hnames hfs hroot).mp hbelow
  have hvalid := isEntryName_of_nodeAt hfs hnames (by rw [hnode]; simp)
  have hkey : decide ((root.descend below).clean = (root.join denied).clean) =
      (Path.keyUnder root denied).same (Path.keyUnder root (root.descend below)) := by
    rw [Bool.eq_iff_iff, decide_eq_true_iff,
      same_keyUnder_descend_iff hne hdenied hrepeats hreturns hvalid]
  have hamong : isAmong (Path.keyUnder root (root.descend below))
        (reviewedKeys root policy.allowList ++ policy.denyList.map (Path.keyUnder root)) =
      (decide ((root.descend below).clean = (root.join denied).clean)
        || isAmong (Path.keyUnder root (root.descend below))
          (reviewedKeys root policy.allowList ++ (before ++ after).map (Path.keyUnder root))) := by
    rw [hkey, hdeny]
    simp only [isAmong, List.map_append, List.map_cons, List.any_append, List.any_cons]
    ac_rfl
  rw [hamong]
  by_cases heq : (root.descend below).clean = (root.join denied).clean <;> simp [heq]

/-- A reviewed entry is selected where it leads to from the root, and a denied entry leaves out of
the scan the file that it leads to, and nothing else: as far as they do not repeat the root, as
nothing does from an absolute root, and what is denied does not lead out of the root and back. -/
theorem selectCandidates_entries (hfs : fs.IsTree) (hnames : fs.HasValidNames)
    (hroot : fs.find root = .ok (l, .directory)) (policy : SelectionPolicy) :
    (root.isAbsolute = true → ∀ entry : Path, entry.isAbsolute = false →
      ¬ RepeatsRoot root entry) ∧
    ∃ selected, selectCandidates fs root policy = .ok selected ∧
      (∀ entry ∈ policy.allowList, entry.isAbsolute = false → ¬ RepeatsRoot root entry →
        (∃ c ∈ selected, c.origin = .allowList ∧ c.relative.same (Path.keyUnder root entry)) ∧
        ∀ c ∈ selected, c.origin = .allowList → c.relative.same (Path.keyUnder root entry) →
          c.path.clean = (root.join entry).clean) ∧
      ∀ before denied after, policy.denyList = before ++ denied :: after →
        denied.isAbsolute = false → ¬ RepeatsRoot root denied → ¬ Returns root denied →
        ∃ allowed,
          selectCandidates fs root { policy with denyList := before ++ after } = .ok allowed ∧
            selected = allowed.filter fun c =>
              c.origin = .allowList ∨ c.path.clean ≠ (root.join denied).clean := by
  have hne := (FileSystem.spelling_of_resolve (FileSystem.find_eq_ok_iff.mp hroot)).2.1
  refine ⟨fun habsolute entry => not_repeatsRoot_of_isAbsolute habsolute, _,
    selectCandidatesOn_of_find .plain hroot rfl policy,
    fun entry hentry hrelative hrepeats => ⟨?produced, ?leads⟩,
    fun before denied after hdeny hrelative hrepeats hreturns =>
      ⟨_, selectCandidatesOn_of_find .plain hroot rfl _, ?excludes⟩⟩
  case produced =>
    obtain ⟨key, hkey, hsame⟩ := exists_same_of_mem hentry
    exact ⟨_, List.mem_append_left _ (List.mem_map_of_mem hkey), rfl, hsame⟩
  case leads =>
    intro c hc horigin hsame
    rcases List.mem_append.mp hc with hc | hc
    · obtain ⟨key, -, rfl⟩ := List.mem_map.mp hc
      rw [keyUnder_of_not_repeats hrepeats] at hsame
      exact clean_join_of_same hne hrelative hsame
    · obtain ⟨below, -, rfl⟩ := List.mem_map.mp hc
      cases horigin
  case excludes =>
    rw [List.filter_append, List.filter_map, List.filter_map,
      scannedLocations_denied hfs hnames hroot hdeny hrelative hrepeats hreturns]
    congr 1
    · rw [List.filter_eq_self.mpr fun key _ => by simp]
    · congr 2
      funext below
      simp

/-! ### A library in a directory of the same name -/

namespace Nested

/-- A source file with a table. -/
def source : Node := .file (bytesOf "static int t[4];\n") false

/-- A library that has a directory of its own name. -/
def tree : FileSystem :=
  ⟨.ofList [(["lib".toList], .directory), (["lib".toList, "lib".toList], .directory),
    (["lib".toList, "lib".toList, "x.c".toList], source), (["lib".toList, "x.c".toList], source),
    (["lib".toList, "y.c".toList], source)], []⟩

/-- A reviewed and a denied file that do not begin with the name of the library. -/
def lists : SelectionPolicy where
  allowList := [.ofString "sub/../y.c"]
  denyList := [.ofString "./x.c"]
  extensions := ["c"]

/-- The reviewed file is where its entry leads to, and the denied one is left out. -/
theorem selectCandidates_entries_nested :
    tree.IsTree ∧ tree.HasValidNames ∧
      tree.find (.ofString "./lib") = .ok (["lib".toList], .directory) ∧
      ∃ selected allowed, selectCandidates tree (.ofString "./lib") lists = .ok selected ∧
        selectCandidates tree (.ofString "./lib") { lists with denyList := [] } = .ok allowed ∧
        (∀ c ∈ selected, c.origin = .allowList → c.relative.same (.ofString "y.c") →
          c.path.clean = .ofString "lib/y.c") ∧
        selected = allowed.filter fun c =>
          c.origin = .allowList ∨ c.path.clean ≠ .ofString "lib/x.c" := by
  have htree : tree.IsTree := FileSystem.isTree_of_forall (by decide +kernel)
  have hnames : tree.HasValidNames := FileSystem.hasValidNames_of_forall (by decide +kernel)
  have hroot : tree.find (.ofString "./lib") = .ok (["lib".toList], .directory) := by
    decide +kernel
  obtain ⟨-, selected, hselected, hreviewed, hdenied⟩ :=
    selectCandidates_entries htree hnames hroot lists
  have hreviewedPlace : ((Path.ofString "./lib").join (.ofString "sub/../y.c")).clean =
      .ofString "lib/y.c" := by
    decide +kernel
  have hdeniedPlace : ((Path.ofString "./lib").join (.ofString "./x.c")).clean =
      .ofString "lib/x.c" := by
    decide +kernel
  have hkey : Path.keyUnder (.ofString "./lib") (.ofString "sub/../y.c") = .ofString "y.c" := by
    decide +kernel
  obtain ⟨-, hleads⟩ :=
    hreviewed (.ofString "sub/../y.c") (by simp [lists]) (by decide) (by decide +kernel)
  obtain ⟨allowed, hallowed, hfilter⟩ :=
    hdenied [] (.ofString "./x.c") [] rfl (by decide) (by decide +kernel) (by decide +kernel)
  rw [hreviewedPlace, hkey] at hleads
  rw [hdeniedPlace] at hfilter
  exact ⟨htree, hnames, hroot, selected, allowed, hselected, hallowed, hleads, hfilter⟩

/-- An entry that repeats the root means the file beside the directory that it names: that one is
reviewed, or left out of the scan, and the one that the entry leads to is not. -/
theorem repeated_root_taken_off :
    let root : Path := .ofString "lib"
    let entry : Path := .ofString "lib/x.c"
    tree.IsTree ∧ tree.IsLinkFree [] ∧ entry.isAbsolute = false ∧
      (root.join entry).clean = .ofString "lib/lib/x.c" ∧
      selectCandidates tree root ⟨[entry], [], ["c"]⟩ =
        .ok [⟨.ofString "lib/x.c", .ofString "x.c", .allowList⟩,
          ⟨.ofString "lib/lib/x.c", .ofString "lib/x.c", .scan⟩,
          ⟨.ofString "lib/y.c", .ofString "y.c", .scan⟩] ∧
      selectCandidates tree root ⟨[], [entry], ["c"]⟩ =
        .ok [⟨.ofString "lib/lib/x.c", .ofString "lib/x.c", .scan⟩,
          ⟨.ofString "lib/y.c", .ofString "y.c", .scan⟩] :=
  ⟨FileSystem.isTree_of_forall (by decide +kernel),
    FileSystem.isLinkFree_of_forall (by decide +kernel) [], by decide, by decide +kernel,
    by decide +kernel, by decide +kernel⟩

end Nested

end ConstPromotion
