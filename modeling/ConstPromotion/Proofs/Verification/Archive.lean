import ConstPromotion.Proofs.Section.Flags
import ConstPromotion.Proofs.Verification.Extraction

/-!
# What verification finds

With the inspector that reads object files itself, verification of an archive of object files counts
every section header with the annotated name, whatever the members are called, and reports those
that can be written in the order of the archive (`verifyArchive_elfInspector`).

The result goes through the extraction of members, the records of the inspector, and their
summary. Each has its lemma, and `annotatedSections` says what all of them together have to find.
-/

namespace ConstPromotion

open FileSystem

/-! ### Records -/

/-- The section headers of an object file that carry a name. -/
def ElfFile.sectionsNamed (e : ElfFile) (name : String) : List ElfSection :=
  e.sections.filter fun s => stringAt? e.names s.name = some name.toList

/-- The record of a section header. -/
def sectionRecord (object : Name) (name : String) (s : ElfSection) : SectionRecord :=
  ⟨String.ofList object, name, String.ofList (flagLetters s.flags)⟩

lemma filter_elfRecords {name : String} (hname : name ≠ "") (object : Name) (e : ElfFile) :
    (elfRecords (String.ofList object) e).filter (·.name = name) =
      (e.sectionsNamed name).map (sectionRecord object name) := by
  rw [elfRecords, ElfFile.named, ElfFile.sectionsNamed, List.map_filterMap, List.filter_filterMap,
    ← List.filterMap_eq_map, List.filterMap_filter]
  congr 1
  funext s
  cases hs : stringAt? e.names s.name with
  | none => simp
  | some text =>
    cases text with
    | nil =>
      have hne : [] ≠ name.toList := fun h => hname (String.toList_eq_nil_iff.mp h.symm)
      simp [hne]
    | cons c text =>
      by_cases h : c :: text = name.toList
      · simp [h, sectionRecord]
      · have hne : String.ofList (c :: text) ≠ name := by
          intro heq
          exact h (by rw [← heq, String.toList_ofList])
        simp only [Option.map_some, Option.some_inj, h, decide_false, Bool.false_eq_true, if_false,
          Option.filter_some, hne]

lemma isWritable_sectionRecord (object : Name) (name : String) (s : ElfSection) :
    (sectionRecord object name s).isWritable = decide (s.flags &&& writeFlag ≠ 0) := by
  rw [Bool.eq_iff_iff, decide_eq_true_iff]
  exact isWritable_flagLetters _ _ _

/-! ### Members -/

/-- An object file in an archive. -/
structure ObjectMember where
  name : Name
  file : ElfFile

/-- A member is an object file, with a name that a file can have. -/
structure ArchiveMember.IsObject (m : ArchiveMember) (o : ObjectMember) : Prop where
  fileName : m.fileName? = some o.name
  nul_notMem : '\x00' ∉ o.name
  content : ∃ data, m.data = some data ∧ ElfFile.parse? data = .ok o.file

/-- The section headers with a name in all members, each with the name of its member. -/
def annotatedSections (name : String) (objects : List ObjectMember) : List (Name × ElfSection) :=
  objects.flatMap fun o => (o.file.sectionsNamed name).map fun s => (o.name, s)

variable {w : World} {scratch : Path} {l : Location} {index : Nat} {name : String}
  {members : List ArchiveMember} {objects : List ObjectMember}

lemma run_elfInspector {p : Path} {data : Bytes} {e : ElfFile} (hread : w.fs.read p = .ok data)
    (hparse : ElfFile.parse? data = .ok e) :
    (elfInspector.inspect p).run.run w = (.ok (elfRecords (objectName p) e), w) := by
  simp only [elfInspector, Attempt.run_bind, Attempt.run_wrapping, Attempt.run_readBytes, hread,
    Except.mapError, hparse, Attempt.run_pure]

/-- Inspection of members finds the annotated sections of all of them. -/
lemma run_inspectMembers (archive : Path) (hname : name ≠ "")
    (hobjects : List.Forall₂ ArchiveMember.IsObject members objects)
    (hscratch : IsScratch w.fs scratch l index)
    (hroom : ∀ o ∈ objects.zipIdx index, HasRoom scratch o.2 o.1.name) :
    ∃ fs', Extends w.fs fs' ∧
      (inspectMembers elfInspector name archive scratch index (members.map .ok)).run.run w =
        (.ok ((annotatedSections name objects).map fun s => sectionRecord s.1 name s.2),
          { w with fs := fs' }) := by
  induction hobjects generalizing w index with
  | nil => exact ⟨w.fs, Extends.refl w.fs, rfl⟩
  | @cons m o members objects hm _ ih =>
    obtain ⟨hfileName, hnul, data, hdata, hparse⟩ := hm
    rw [List.zipIdx_cons, List.forall_mem_cons] at hroom
    obtain ⟨fs₁, hextends₁, hscratch₁, hread, hrun₁⟩ :=
      run_inspectMember elfInspector archive hscratch hfileName hnul hdata hroom.1
    obtain ⟨fs₂, hextends₂, hrun₂⟩ := ih (w := { w with fs := fs₁ }) hscratch₁ hroom.2
    refine ⟨fs₂, hextends₁.trans hextends₂, ?_⟩
    have hobject : objectName ((scratch.child (memberDirectory index)).child o.name) =
        String.ofList o.name := by
      rw [objectName, Path.fileName?_child (Path.isEntryName_of_fileName? hfileName)]
    rw [Attempt.run_wrapping, run_elfInspector (w := { w with fs := fs₁ }) hread hparse,
      hobject] at hrun₁
    rw [List.map_cons, inspectMembers, Attempt.run_bind, hrun₁]
    simp only [Except.mapError, Attempt.run_bind, hrun₂, Attempt.run_pure,
      filter_elfRecords hname, annotatedSections, List.flatMap_cons, List.map_append, List.map_map]
    rfl

/-! ### Archives -/

/-- Whether a place is usable for scratch directories: it leads to a directory, and the limits of
the file system allow the paths below it that verification makes. -/
def World.HasScratch (w : World) (place : Option Path) (objects : List ObjectMember) : Prop :=
  ∃ parent l, w.scratchParent place = .ok parent ∧ w.fs.find parent = .ok (l, .directory) ∧
    ∀ k ≤ w.fs.nodes.entries.length, parent.Admits (scratchName k) ∧
      ∀ o ∈ objects.zipIdx, HasRoom (parent.child (scratchName k)) o.2 o.1.name

/-- Work in a scratch directory that succeeds, where the directory can be removed after it. -/
lemma run_withScratch {ε α : Type} {wrap : ScratchError → ε} {place : Option Path}
    {work : Path → Action ε α} {x : α} {w₁ w₂ : World} {fs : FileSystem}
    (hcreate : (createScratch wrap place).run.run w = (.ok scratch, w₁))
    (hwork : (work scratch).run.run w₁ = (.ok x, w₂))
    (hremove : w₂.fs.removeTree scratch = .ok fs) :
    (withScratch wrap place work).run.run w = (.ok x, { w₂ with fs }) := by
  simp only [withScratch, Attempt.run_bind, hcreate, Attempt.run_outcome, hwork,
    Attempt.run_wrapping, Attempt.run_removeTree_ok hremove, Except.mapError, Attempt.run_pure]

/-- The annotated sections of an archive are collected. -/
lemma run_collectRecords {archive : Path} {place : Option Path} {file : Bytes} {a : Archive}
    (hfs : w.fs.IsTree) (hread : w.fs.read archive = .ok file) (hopen : Archive.open? file = .ok a)
    (hmembers : a.members = members.map .ok)
    (hobjects : List.Forall₂ ArchiveMember.IsObject members objects) (hname : name ≠ "")
    (hscratch : w.HasScratch place objects) :
    ∃ w', (collectRecords elfInspector name place archive).run.run w =
      (.ok ((annotatedSections name objects).map fun s => sectionRecord s.1 name s.2), w') := by
  obtain ⟨parent, l, hparent, hfind, hroom⟩ := hscratch
  obtain ⟨k, hk, hfree, hcreate⟩ := run_createScratch VerifyError.scratch hparent hfind
    fun k hk => (hroom k hk).1
  obtain ⟨⟨hsize, hshort⟩, hroom⟩ := hroom k hk
  have hvalid := isValidName_scratchName hsize
  have hextends := Extends.put hfree .directory
  have hmade := find_child (hextends.find hfind) hvalid hshort
    (nodeAt_put_self (List.concat_ne_nil _ l) w.fs .directory) (by simp)
  obtain ⟨fs', hextends', hrun⟩ := run_inspectMembers archive hname hobjects
    (w := { w with fs := w.fs.put (l ++ [scratchName k]) .directory })
    (isScratch_put hfs hfree hmade) hroom
  have hnode : fs'.nodeAt (l ++ [scratchName k]) ≠ none := by
    rw [hextends'.nodeAt (nodeAt_put_self (List.concat_ne_nil _ l) w.fs .directory)]
    simp
  have hremove := removeTree_child ((hextends.trans hextends').find hfind) hvalid hshort hnode
  simp only [collectRecords, Attempt.run_bind, Attempt.run_wrapping, Attempt.run_readBytes, hread,
    Except.mapError, hopen, hmembers]
  exact ⟨_, run_withScratch hcreate hrun hremove⟩

/-- Verification counts all annotated sections of an archive of object files, and reports those
that can be written in the order of the archive. -/
theorem verifyArchive_elfInspector {archive : Path} {place : Option Path} {file : Bytes}
    {a : Archive} (hfs : w.fs.IsTree) (hread : w.fs.read archive = .ok file)
    (hopen : Archive.open? file = .ok a) (hmembers : a.members = members.map .ok)
    (hobjects : List.Forall₂ ArchiveMember.IsObject members objects) (hname : name ≠ "")
    (hscratch : w.HasScratch place objects) :
    ∃ r w', (verifyArchive elfInspector name place archive).run.run w = (.ok r, w') ∧
      r.sections = (annotatedSections name objects).length ∧
      r.violating = ((annotatedSections name objects).filter fun s => s.2.flags &&& 1 ≠ 0).map
        (fun s => ⟨String.ofList s.1, String.ofList (flagLetters s.2.flags)⟩) ∧
      r.violations = r.violating.length ∧
      r.found = if annotatedSections name objects = [] then 0 else 1 := by
  obtain ⟨w', hcollect⟩ :=
    run_collectRecords hfs hread hopen hmembers hobjects hname hscratch
  refine ⟨.ofRecords ((annotatedSections name objects).map fun s => sectionRecord s.1 name s.2), w',
    ?_, ?_, ?_, rfl, ?_⟩
  · rw [verifyArchive, Attempt.run_bind, hcollect]
    rfl
  · rw [VerificationResult.ofRecords, List.length_map]
  · rw [VerificationResult.ofRecords, List.filter_map, List.map_map]
    simp only [Function.comp_def, isWritable_sectionRecord, writeFlag]
    rfl
  · simp only [VerificationResult.ofRecords, List.map_eq_nil_iff]

/-! ### Two members with one name -/

namespace Namesakes

/-- An object file whose only named section holds the names. -/
def objectBytes (flags : UInt8) : Bytes :=
  [0x7F, 0x45, 0x4C, 0x46, 1, 1, 1] ++ List.replicate 25 0 ++ [52, 0, 0, 0]
    ++ List.replicate 12 0 ++ [2, 0, 1, 0] ++ List.replicate 40 0
    ++ [1, 0, 0, 0, 3, 0, 0, 0, flags, 0, 0, 0, 0, 0, 0, 0, 132, 0, 0, 0, 4, 0, 0, 0]
    ++ List.replicate 16 0 ++ [0, 0x2E, 0x61, 0]

/-- What is read from it. -/
def object (flags : UInt64) : ObjectMember where
  name := ['a', '.', 'o']
  file := ⟨[⟨0, 0, 0, 0, 0, 0, 0, 0, 0, 0⟩, ⟨1, 3, flags, 0, 132, 4, 0, 0, 0, 0⟩], [0, 0x2E, 0x61, 0]⟩

/-- The members of the archive: the section of the first one can be written. -/
def namesakes : List ArchiveMember :=
  [⟨bytesOf "a.o", some (objectBytes 3)⟩, ⟨bytesOf "a.o", some (objectBytes 2)⟩]

/-- The archive after its magic line. -/
def archive : Archive :=
  let header := bytesOf "a.o/            0           0     0     644     136       `\n"
  ⟨false, [], header ++ objectBytes 3 ++ header ++ objectBytes 2⟩

/-- A world that holds nothing but the archive. -/
def world : World where
  fs := ⟨⟨[([['a']], .file (bytesOf "!<arch>\n" ++ archive.rest) false)], by simp⟩, []⟩
  env := .empty

lemma isTree_world : world.fs.IsTree := by
  intro l name h
  cases l with
  | nil => exact nodeAt_nil _
  | cons first l =>
    refine absurd ?_ h
    simp [FileSystem.nodeAt, world, SortedMap.get?]

/-- Both members are looked at, and the one that can be written is reported. -/
theorem verifyArchive_elfInspector_namesakes :
    let place := some (Path.ofString "/")
    world.fs.IsTree ∧
      world.fs.read (.ofString "/a") = .ok (bytesOf "!<arch>\n" ++ archive.rest) ∧
      Archive.open? (bytesOf "!<arch>\n" ++ archive.rest) = .ok archive ∧
      archive.members = namesakes.map .ok ∧
      List.Forall₂ ArchiveMember.IsObject namesakes [object 3, object 2] ∧
      ".a" ≠ "" ∧ world.HasScratch place [object 3, object 2] ∧
      ∃ r w', (verifyArchive elfInspector ".a" place (.ofString "/a")).run.run world = (.ok r, w') ∧
        r.sections = 2 ∧ r.violating = [⟨"a.o", "WA"⟩] := by
  have hread : world.fs.read (.ofString "/a") = .ok (bytesOf "!<arch>\n" ++ archive.rest) := by
    decide +kernel
  have hopen : Archive.open? (bytesOf "!<arch>\n" ++ archive.rest) = .ok archive := by
    decide +kernel
  have hmembers : archive.members = namesakes.map .ok := by decide +kernel
  have hobjects : List.Forall₂ ArchiveMember.IsObject namesakes [object 3, object 2] :=
    .cons ⟨by decide +kernel, by decide +kernel, objectBytes 3, rfl, by decide +kernel⟩
      (.cons ⟨by decide +kernel, by decide +kernel, objectBytes 2, rfl, by decide +kernel⟩ .nil)
  have hscratch : world.HasScratch (some (Path.ofString "/")) [object 3, object 2] :=
    ⟨.ofString "/", [], by decide +kernel, by decide +kernel, by decide +kernel⟩
  refine ⟨isTree_world, hread, hopen, hmembers, hobjects, by decide, hscratch, ?_⟩
  obtain ⟨r, w', hrun, hsections, hviolating, -, -⟩ :=
    verifyArchive_elfInspector isTree_world hread hopen hmembers hobjects
      (show ".a" ≠ "" by decide) hscratch
  refine ⟨r, w', hrun, ?_, ?_⟩
  · rw [hsections]
    decide +kernel
  · rw [hviolating]
    decide +kernel

end Namesakes

end ConstPromotion
