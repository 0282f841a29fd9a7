import ConstPromotion.Proofs.Patch.Files
import ConstPromotion.Proofs.Patch.Idempotence
import ConstPromotion.Selection

/-!
# Settled files

A content is settled if it has no declaration to promote. The scan and promotion agree on this,
although the scan leaves carriage returns in its lines (`declarations_patchBytes_eq_nil_iff`), and
promotion changes just the contents that it finds a declaration in (`content_patchBytes_eq_iff`).

A pass that ends well settles every file that it was given, and keeps settled what is settled
(`PatchingAll.isSettledAt`, `PatchingAll.isSettledAt_of_find`). A pass over settled files changes
nothing (`PatchingAll.isIdle`).
-/

namespace ConstPromotion

/-! ### Contents -/

/-- A carriage return at the end of a line does not change whether it is recognised. -/
lemma matchBytes?_return_eq_none_iff (body : Bytes) :
    ArrayDeclaration.matchBytes? (body ++ [0x0D]) = none ↔
      ArrayDeclaration.matchBytes? body = none := by
  have hwords : bytesOf "const" ∈ byteWords (body ++ [0x0D]) ↔
      bytesOf "const" ∈ byteWords body := by
    rw [byteWords, List.splitOnP_append_cons _ _ (by decide)]
    simp [byteWords, show bytesOf "const" ≠ [] by decide]
  rw [← not_iff_not, ← ne_eq, ← ne_eq, Option.ne_none_iff_exists', Option.ne_none_iff_exists']
  constructor
  · rintro ⟨m, hm⟩
    obtain ⟨hconst, p, hp, rest, hrest, -⟩ := ArrayDeclaration.matchBytes?_eq_some_iff.mp hm
    -- a declaration ends in a bracket, so the carriage return is not part of it
    have hlast : (Utf8.encode p.text).getLast? = some 0x5D := by
      rw [DeclarationParts.text, Utf8.encode_append, List.getLast?_append,
        show (Utf8.encode [']']).getLast? = some 0x5D by decide]
      rfl
    have hprefix : Utf8.encode p.text <+: body := by
      refine (List.prefix_concat_iff.mp (hrest ▸ List.prefix_append _ rest)).resolve_left ?_
      intro heq
      simp [heq] at hlast
    obtain ⟨run, -, hmatch⟩ :=
      ArrayDeclaration.matchBytes?_of_isPrefix (mt hwords.mpr hconst) hp hprefix
    exact ⟨_, hmatch⟩
  · rintro ⟨m, hm⟩
    obtain ⟨hconst, p, hp, rest, rfl, -⟩ := ArrayDeclaration.matchBytes?_eq_some_iff.mp hm
    have hprefix : Utf8.encode p.text <+: Utf8.encode p.text ++ rest ++ [0x0D] := by simp
    obtain ⟨run, -, hmatch⟩ :=
      ArrayDeclaration.matchBytes?_of_isPrefix (mt hwords.mp hconst) hp hprefix
    exact ⟨_, hmatch⟩

/-- A scan finds nothing in a content if none of the lines that promotion works on is recognised. -/
lemma hasDeclaration_eq_false_iff {content : Bytes} : hasDeclaration content = false ↔
    ∀ l ∈ cutLines content, ArrayDeclaration.matchBytes? l.body = none := by
  have hcut := isCut_iff.mpr (rfl : cutLines content = _)
  generalize cutLines content = lines at hcut
  simp only [hasDeclaration, List.any_eq_false, Bool.not_eq_true, Option.isSome_eq_false_iff,
    Option.isNone_iff_eq_none]
  induction hcut with
  | nil => simp [show ArrayDeclaration.matchBytes? [] = none by decide]
  | last hfeed => simp [List.splitOn_eq_singleton hfeed]
  | @cons l content lines hended _ ih =>
    obtain ⟨hfeed, hend⟩ := hended
    obtain ⟨start, hstart, hraw, hsame⟩ : ∃ start : Bytes, 0x0A ∉ start ∧ l.raw = start ++ [0x0A] ∧
        (ArrayDeclaration.matchBytes? start = none ↔
          ArrayDeclaration.matchBytes? l.body = none) := by
      rcases hend with hend | ⟨hend, -⟩
      · exact ⟨l.body ++ [0x0D], by simpa using hfeed, by simp [ContentLine.raw, hend],
          matchBytes?_return_eq_none_iff l.body⟩
      · exact ⟨l.body, hfeed, by rw [ContentLine.raw, hend], .rfl⟩
    rw [hraw, List.append_assoc, List.singleton_append,
      List.splitOn_append_cons_self_of_not_mem hstart, List.forall_mem_cons, List.forall_mem_cons]
    exact and_congr hsame ih

lemma lineDeclarations_eq_nil_iff {o : PatchOptions} {number : Nat} {lines : List ContentLine} :
    lineDeclarations o number lines = [] ↔
      ∀ l ∈ lines, ArrayDeclaration.matchBytes? l.body = none := by
  induction lines generalizing number with
  | nil => simp
  | cons l lines ih => simp [ih, lineDeclaration?]

/-- The scan and promotion agree on whether a content has a declaration. -/
theorem declarations_patchBytes_eq_nil_iff {o : PatchOptions} {content : Bytes} :
    (patchBytes o content).declarations = [] ↔ hasDeclaration content = false := by
  rw [patchBytes_eq, lineDeclarations_eq_nil_iff, hasDeclaration_eq_false_iff]

/-- A content stays as it is only where promotion finds nothing: each promoted line gets longer. -/
lemma content_patchBytes_eq_iff {o : PatchOptions} {content : Bytes} :
    (patchBytes o content).content = content ↔ (patchBytes o content).declarations = [] := by
  constructor
  · intro hsame
    have hlength := length_after_edits o 1 (cutLines content)
    rw [flatMap_before_edits] at hlength
    rw [patchBytes_eq] at hsame ⊢
    rw [show ((cutLines content).flatMap (lineEdits o)).flatMap Edit.after = content from hsame]
      at hlength
    apply List.eq_nil_of_length_eq_zero
    dsimp only
    omega
  · intro hnil
    rw [patchBytes_eq] at hnil
    rw [patchBytes_of_forall_eq_none (lineDeclarations_eq_nil_iff.mp hnil) o]

/-- The scan selects a file if promotion finds a declaration in it, and if promotion changes it.
How the file would be promoted does not matter. -/
theorem isPromotable_iff_patchBytes {fs : FileSystem} {p : Path} {content : Bytes}
    (hread : fs.read p = .ok content) (o : PatchOptions) :
    (fs.isPromotable p = true ↔ (patchBytes o content).declarations ≠ []) ∧
      (fs.isPromotable p = true ↔ (patchBytes o content).content ≠ content) ∧
      ∀ o' : PatchOptions, (patchBytes o' content).declarations = [] ↔
        (patchBytes o content).declarations = [] := by
  have hscan : fs.isPromotable p = hasDeclaration content := by
    rw [FileSystem.isPromotable, Disk.isPromotable, show Disk.plain.read fs p = .ok content from hread]
  have hfound : hasDeclaration content = true ↔ (patchBytes o content).declarations ≠ [] := by
    rw [ne_eq, declarations_patchBytes_eq_nil_iff, Bool.not_eq_false]
  rw [hscan]
  refine ⟨hfound, hfound.trans content_patchBytes_eq_iff.not.symm, fun o' => ?_⟩
  rw [declarations_patchBytes_eq_nil_iff, declarations_patchBytes_eq_nil_iff]

namespace Scanned

/-- A file whose only table stands behind a byte that is no text, on a line that ends in a carriage
return and a line feed. -/
def content : Bytes := [0xE9, 0x0D, 0x0A] ++ bytesOf "static int t[4];" ++ [0xFF, 0x0D, 0x0A]

def tree : FileSystem :=
  ⟨.ofList [(["x.c".toList], .file content false)], []⟩

/-- The table is selected, and it is promoted with and without an annotation. -/
theorem isPromotable_iff_patchBytes_return :
    tree.read (.ofString "/x.c") = .ok content ∧ tree.isPromotable (.ofString "/x.c") = true ∧
      (patchBytes {} content).content ≠ content ∧
      (patchBytes { annotate := true } content).declarations ≠ [] := by
  have hread : tree.read (.ofString "/x.c") = .ok content := by decide +kernel
  have hplain := isPromotable_iff_patchBytes hread {}
  have hannotated := isPromotable_iff_patchBytes hread { annotate := true }
  have hpromotable : tree.isPromotable (.ofString "/x.c") = true :=
    hplain.1.mpr (by decide +kernel)
  exact ⟨hread, hpromotable, hplain.2.1.mp hpromotable, hannotated.1.mp hpromotable⟩

end Scanned

/-- A promoted content is settled, unless a line was split by a line feed in the name of its
section. -/
lemma hasDeclaration_content_patchBytes {o : PatchOptions}
    (h : o.annotate = false ∨ '\n' ∉ o.sectionName.toList) (content : Bytes) :
    hasDeclaration (patchBytes o content).content = false := by
  rw [hasDeclaration_eq_false_iff, cutLines_content_patchBytes h]
  intro l hl
  obtain ⟨l, -, rfl⟩ := List.mem_map.mp hl
  exact matchBytes?_promotedBody o l.body

/-! ### One file -/

/-- There is a settled file at a location. -/
def FileSystem.IsSettledAt (fs : FileSystem) (l : Location) : Prop :=
  ∃ content executable, fs.nodeAt l = some (.file content executable) ∧
    hasDeclaration content = false

/-- What is reported of a file that is settled or missing. -/
structure FileOutcome.IsIdle (f : FileOutcome) : Prop where
  status : f.status = .unchanged ∨ f.status = .skipped .missing
  declarations : f.declarations = []
  backup : f.backup = none

variable {disk : Disk} {options : PatchOptions} {dryRun : Bool} {path p : Path}
  {paths : List Path} {g g' : Guarded} {k : Location} {old : Bytes} {executable : Bool}

namespace Patching

variable {result : Except PatchError FileOutcome} {f : FileOutcome}

/-- A settled file stays as it is. -/
lemma isIdle (h : Patching .plain options dryRun path g result g')
    (hsettled : ∀ content, g.fs.read path = .ok content → hasDeclaration content = false) :
    g' = g ∧ ∃ f, result = .ok f ∧ f.path = path ∧ f.IsIdle := by
  have hnone (content : Bytes) (hread : g.fs.read path = .ok content) :
      (patchBytes options content).declarations = [] :=
    declarations_patchBytes_eq_nil_iff.mpr (hsettled content hread)
  cases h with
  | missing => exact ⟨rfl, _, rfl, rfl, .inr rfl, rfl, rfl⟩
  | unread e hfile hread => exact absurd hread (not_unread hfile)
  | unchanged => exact ⟨rfl, _, rfl, rfl, .inl rfl, rfl, rfl⟩
  | dryRun content hread hsome => exact absurd (hnone content hread) hsome
  | unprotected content _ _ hread hsome => exact absurd (hnone content hread) hsome
  | unwritten content _ _ _ hread hsome => exact absurd (hnone content hread) hsome
  | patched content _ _ _ hread hsome => exact absurd (hnone content hread) hsome

lemma isSettledAt (h : Patching .plain options dryRun path g result g') (hfs : g.fs.IsTree)
    (hstore : g.store.KnowsPresent) (hk : g.fs.IsSettledAt k) : g'.fs.IsSettledAt k := by
  obtain ⟨content, executable, hnode, hnone⟩ := hk
  by_cases hself : ∃ node, g.fs.find path = .ok (k, node)
  · obtain ⟨node, hfind⟩ := hself
    have hfits := hfs.nodeAt_of_find hfind
    obtain rfl : node = .file content executable := Option.some.inj (hfits.symm.trans hnode)
    have hread := FileSystem.read_eq_ok_iff.mpr ⟨k, executable, hfind⟩
    obtain ⟨rfl, -⟩ := h.isIdle fun content' hread' => by
      obtain rfl := Except.ok.inj (hread.symm.trans hread')
      exact hnone
    exact ⟨content, executable, hnode, hnone⟩
  · have hsame := h.nodeAt_eq hfs (fun _ _ => hstore.exists?_eq_false) (k := k) (by simp [hnode])
      (not_exists.mp hself)
    exact ⟨content, executable, hsame.trans hnode, hnone⟩

/-- A file is settled by its promotion. -/
lemma isSettledAt_of_find (h : Patching .plain options false path g (.ok f) g') (hfs : g.fs.IsTree)
    (hsection : options.annotate = false ∨ '\n' ∉ options.sectionName.toList)
    (hfind : g.fs.find path = .ok (k, .file old executable)) : g'.fs.IsSettledAt k := by
  have hread := FileSystem.read_eq_ok_iff.mpr ⟨k, executable, hfind⟩
  cases h with
  | missing hfile =>
    rw [Disk.isFile_eq rfl, FileSystem.isFile_iff.mpr ⟨k, old, executable, hfind⟩] at hfile
    simp at hfile
  | unchanged content hread' hnone =>
    obtain rfl := Except.ok.inj (hread'.symm.trans hread)
    exact ⟨content, executable, hfs.nodeAt_of_find hfind,
      declarations_patchBytes_eq_nil_iff.mp hnone⟩
  | dryRun _ _ _ hdry => simp at hdry
  | patched content backup g₁ fs' hread' _ _ hkeeping hwrite =>
    obtain ⟨l, _, executable', hfind', htakes, -, rfl⟩ :=
      exists_put_of_keeping hfs hread' hkeeping hwrite
    obtain ⟨rfl, -⟩ := FileSystem.find_inj hfind' hfind
    exact ⟨_, executable', FileSystem.nodeAt_put_self htakes.ne_nil _ _,
      hasDeclaration_content_patchBytes hsection content⟩

/-- What is new is reported as the backup that was made. -/
lemma exists_created_of_new (h : Patching disk options dryRun path g (.ok f) g') (hfs : g.fs.IsTree)
    (hstore : g.store.KnowsPresent) (hk : g.fs.nodeAt k = none) (hnew : g'.fs.nodeAt k ≠ none) :
    ∃ backup content executable, f.backup = some backup ∧ backup.created = true ∧
      backup.path = g.store.path path content ∧
      g'.fs.find backup.path = .ok (k, .file content executable) := by
  obtain ⟨content, executable, hread, hfind⟩ :=
    h.find_of_new hfs (fun _ _ => hstore.exists?_eq_false) hk hnew
  cases h with
  | missing | unchanged | dryRun => exact absurd hk hnew
  | patched content' backup g₁ fs' hread' _ _ hkeeping hwrite =>
    obtain rfl := Except.ok.inj (hread'.symm.trans hread)
    rcases hkeeping.fs_cases hfs hstore.exists?_eq_false with ⟨hsame, -⟩ | ⟨hmade, -⟩
    · -- without a new backup nothing is new
      obtain ⟨l, _, _, -, htakes, hl, rfl⟩ := exists_put_of_keeping hfs hread' hkeeping hwrite
      have hne : l ≠ k := by
        rintro rfl
        exact hl (hsame ▸ hk)
      rw [FileSystem.nodeAt_put_of_ne htakes.ne_nil hne, hsame] at hnew
      exact absurd hk hnew
    · obtain rfl := Except.ok.inj hmade
      exact ⟨_, content', executable, rfl, rfl, rfl, hfind⟩

end Patching

/-! ### Several files -/

namespace PatchingAll

variable {result : Except PatchError (List FileOutcome)} {files : List FileOutcome}

theorem isSettledAt (h : PatchingAll .plain options dryRun paths g result g') (hfs : g.fs.IsTree)
    (hstore : g.store.KnowsPresent) (hk : g.fs.IsSettledAt k) : g'.fs.IsSettledAt k := by
  induction h with
  | nil => exact hk
  | cons hfirst _ ih =>
    exact ih (hfirst.written.isTree hfs) (hfirst.knowsPresent hstore)
      (hfirst.isSettledAt hfs hstore hk)
  | stop _ hfirst => exact hfirst.isSettledAt hfs hstore hk

/-- A pass that ends well settles each of its files. -/
theorem isSettledAt_of_find (h : PatchingAll .plain options false paths g (.ok files) g')
    (hfs : g.fs.IsTree) (hstore : g.store.KnowsPresent)
    (hsection : options.annotate = false ∨ '\n' ∉ options.sectionName.toList) (hp : p ∈ paths)
    (hfind : g.fs.find p = .ok (k, .file old executable)) : g'.fs.IsSettledAt k := by
  induction h using ok_induction generalizing old executable with
  | nil => simp at hp
  | cons hfirst hlater ih =>
    have hfs₁ := hfirst.written.isTree hfs
    have hstore₁ := hfirst.knowsPresent hstore
    rcases List.mem_cons.mp hp with rfl | hp
    · exact hlater.isSettledAt hfs₁ hstore₁ (hfirst.isSettledAt_of_find hfs hsection hfind)
    · obtain ⟨content, executable', hfind₁⟩ := (hfirst.written.grows hfs).find_file hfind
      exact ih hfs₁ hstore₁ hp hfind₁

/-- What is new after a pass that ends well is reported as the backup that was made of a file. -/
theorem exists_created_of_new (h : PatchingAll disk options dryRun paths g (.ok files) g')
    (hfs : g.fs.IsTree) (hstore : g.store.KnowsPresent) (hk : g.fs.nodeAt k = none)
    (hnew : g'.fs.nodeAt k ≠ none) :
    ∃ f ∈ files, ∃ backup, f.backup = some backup ∧ backup.created = true ∧
      (∃ source ∈ paths, ∃ content, backup.path = g.store.path source content) ∧
      ∃ content executable, g'.fs.find backup.path = .ok (k, .file content executable) := by
  induction h using ok_induction with
  | nil => exact absurd hk hnew
  | @cons path paths g g₁ g' first later hfirst hlater ih =>
    have hfs₁ := hfirst.written.isTree hfs
    by_cases hk₁ : g₁.fs.nodeAt k = none
    · obtain ⟨f, hf, backup, hbackup, hcreated, ⟨source, hsource, content, hpath⟩, hfind⟩ :=
        ih hfs₁ (hfirst.knowsPresent hstore) hk₁ hnew
      rw [hfirst.store_path] at hpath
      exact ⟨f, List.mem_cons_of_mem _ hf, backup, hbackup, hcreated,
        ⟨source, List.mem_cons_of_mem _ hsource, content, hpath⟩, hfind⟩
    · obtain ⟨backup, content, executable, hbackup, hcreated, hpath, hfind⟩ :=
        hfirst.exists_created_of_new hfs hstore hk hk₁
      exact ⟨first, List.mem_cons_self, backup, hbackup, hcreated,
        ⟨path, List.mem_cons_self, content, hpath⟩, (hlater.written.grows hfs₁).find_file hfind⟩

/-- A pass over settled files ends well and changes nothing. -/
theorem isIdle (h : PatchingAll .plain options dryRun paths g result g')
    (hsettled : ∀ p ∈ paths, ∀ content,
      g.fs.read p = .ok content → hasDeclaration content = false) :
    g' = g ∧ ∃ files, result = .ok files ∧
      List.Forall₂ (fun p f => f.path = p ∧ f.IsIdle) paths files := by
  induction h with
  | nil => exact ⟨rfl, [], rfl, .nil⟩
  | cons hfirst _ ih =>
    obtain ⟨hsettledFirst, hsettledLater⟩ := List.forall_mem_cons.mp hsettled
    obtain ⟨rfl, f, hok, hidle⟩ := hfirst.isIdle hsettledFirst
    obtain rfl := Except.ok.inj hok
    obtain ⟨rfl, files, rfl, hfiles⟩ := ih hsettledLater
    exact ⟨rfl, _, rfl, .cons hidle hfiles⟩
  | stop _ hfirst =>
    obtain ⟨-, f, hok, -⟩ := hfirst.isIdle (hsettled _ List.mem_cons_self)
    simp at hok

end PatchingAll

end ConstPromotion
