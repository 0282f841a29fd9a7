import ConstPromotion.Proofs.FileSystem.Writing
import ConstPromotion.Proofs.Verification.Archive
import ConstPromotion.Proofs.Verification.Frame

/-!
# Which members are examined

Verification that ends well has called the inspector once for each member whose name has a file
name, in the order of the archive and on the data of the member, and has passed over all other
members (`examinations_of_collectRecords`). `Examining` is the whole course of such a verification
in its scratch directory, so it says how often the inspector is called, and in which world.
-/

namespace ConstPromotion

open FileSystem

/-! ### Calls of an inspector -/

/-- A call of an inspector, with the worlds before and after it. -/
structure Examination where
  file : Path
  before : World
  records : List SectionRecord
  after : World

/-- A call shows a member to an inspector: under the file name of the member, and with its data. -/
structure ArchiveMember.IsExamined (m : ArchiveMember) (c : Examination) : Prop where
  fileName : c.file.fileName? = m.fileName?
  content : ∃ data, m.data = some data ∧ c.before.fs.read c.file = .ok data

/-- All that happens while members are inspected and nothing fails, with the calls of the inspector
in their order. -/
inductive Examining (inspector : SectionInspector) (scratch : Path) :
    (index : Nat) → List ArchiveMember → World → List Examination → World → Prop where
  | done (index : Nat) (w : World) : Examining inspector scratch index [] w [] w
  /-- A member without a file name is not looked at. -/
  | passOver {index : Nat} {m : ArchiveMember} {members : List ArchiveMember} {w w' : World}
    {calls : List Examination} (hname : m.fileName? = none)
    (hrest : Examining inspector scratch (index + 1) members w calls w') :
    Examining inspector scratch index (m :: members) w calls w'
  /-- A member is put into its directory, and the inspector is called on its file. -/
  | examine {index : Nat} {m : ArchiveMember} {members : List ArchiveMember}
    {w after w' : World} {calls : List Examination} {name : Name} {data : Bytes}
    {fs₁ fs₂ : FileSystem} {records : List SectionRecord}
    (hname : m.fileName? = some name) (hdata : m.data = some data)
    (hdirectory : w.fs.createDirectory (scratch.child (memberDirectory index)) = .ok fs₁)
    (hfile : fs₁.write ((scratch.child (memberDirectory index)).child name) data = .ok fs₂)
    (hinspect : (inspector.inspect ((scratch.child (memberDirectory index)).child name)).run.run
      { w with fs := fs₂ } = (.ok records, after))
    (hrest : Examining inspector scratch (index + 1) members after calls w') :
    Examining inspector scratch index (m :: members) w
      (⟨(scratch.child (memberDirectory index)).child name, { w with fs := fs₂ }, records, after⟩
        :: calls) w'

variable {inspector : SectionInspector} {scratch archive : Path} {index : Nat} {w w' : World}
  {m : ArchiveMember} {members : List ArchiveMember} {calls : List Examination}
  {records : List SectionRecord} {sectionName : String} {place : Option Path}

/-- The calls go through the members that have file names. -/
theorem Examining.forall₂ (h : Examining inspector scratch index members w calls w') :
    List.Forall₂ ArchiveMember.IsExamined (members.filter (·.fileName?.isSome)) calls := by
  induction h with
  | done => exact .nil
  | passOver hname _ ih =>
    rw [List.filter_cons_of_neg (by simp [hname])]
    exact ih
  | examine hname hdata _ hfile _ _ ih =>
    rw [List.filter_cons_of_pos (by simp [hname])]
    refine .cons ⟨?_, _, hdata, read_of_write hfile⟩ ih
    rw [hname, Path.fileName?_child (Path.isEntryName_of_fileName? hname)]

/-- Every member is examined just where every member has a file name. -/
lemma Examining.forall₂_iff (h : Examining inspector scratch index members w calls w') :
    List.Forall₂ ArchiveMember.IsExamined members calls ↔ ∀ m ∈ members, m.fileName? ≠ none := by
  have hnamed := h.forall₂
  constructor
  · intro hall m hm
    have hlength := hnamed.length_eq.trans hall.length_eq.symm
    have hsome := List.length_filter_eq_length_iff.mp hlength m hm
    rwa [Option.isSome_iff_ne_none] at hsome
  · intro hall
    rwa [List.filter_eq_self.mpr fun m hm => Option.isSome_iff_ne_none.mpr (hall m hm)] at hnamed

/-! ### Inspection of members -/

lemma run_inspectMember_eq_ok_iff :
    (inspectMember inspector archive scratch index m).run.run w = (.ok records, w') ↔
      (m.fileName? = none ∧ records = [] ∧ w' = w) ∨
      ∃ name data fs₁ fs₂, m.fileName? = some name ∧ m.data = some data ∧
        w.fs.createDirectory (scratch.child (memberDirectory index)) = .ok fs₁ ∧
        fs₁.write ((scratch.child (memberDirectory index)).child name) data = .ok fs₂ ∧
        (inspector.inspect ((scratch.child (memberDirectory index)).child name)).run.run
          { w with fs := fs₂ } = (.ok records, w') := by
  constructor
  · intro h
    rw [inspectMember] at h
    cases hname : m.fileName? with
    | none =>
      rw [hname] at h
      cases h
      exact .inl ⟨rfl, rfl, rfl⟩
    | some name =>
      cases hdata : m.data with
      | none =>
        rw [hname, hdata] at h
        cases h
      | some data =>
        rw [hname, hdata] at h
        obtain ⟨_, w₁, hmake, h⟩ := Attempt.exists_of_run_bind h
        obtain ⟨_, w₂, hput, h⟩ := Attempt.exists_of_run_bind h
        have hmake := Attempt.run_of_run_wrapping hmake
        have hput := Attempt.run_of_run_wrapping hput
        obtain ⟨fs₁, hdirectory, rfl⟩ := Attempt.exists_of_run_change hmake
        obtain ⟨fs₂, hfile, rfl⟩ := Attempt.exists_of_run_change hput
        exact .inr ⟨name, data, fs₁, fs₂, rfl, rfl, hdirectory, hfile,
          Attempt.run_of_run_wrapping h⟩
  · rintro (⟨hname, rfl, rfl⟩ | ⟨name, data, fs₁, fs₂, hname, hdata, hdirectory, hfile, hinspect⟩)
    · rw [inspectMember, hname]
      rfl
    · have hfile' := Attempt.run_writeBytes_ok (w := { w with fs := fs₁ }) hfile
      simp only [inspectMember, hname, hdata, Attempt.run_bind, Attempt.run_wrapping,
        Attempt.run_createDirectory_ok hdirectory, hfile', Attempt.run_onWorld, hinspect,
        Except.mapError]

/-- Inspection of members ends well just where it can go through all of them, and then gives the
annotated sections that the calls found. -/
theorem run_inspectMembers_eq_ok_iff {ms : List (Except ArchiveError ArchiveMember)} :
    (inspectMembers inspector sectionName archive scratch index ms).run.run w =
        (.ok records, w') ↔
      ∃ members calls, ms = members.map .ok ∧ Examining inspector scratch index members w calls w' ∧
        records = calls.flatMap fun c => c.records.filter (·.name = sectionName) := by
  constructor
  · intro h
    induction ms generalizing index w records with
    | nil =>
      cases h
      exact ⟨[], [], rfl, .done _ _, rfl⟩
    | cons first ms ih =>
      cases first with
      | error e => cases h
      | ok m =>
        rw [inspectMembers] at h
        obtain ⟨found, w₁, hfirst, h⟩ := Attempt.exists_of_run_bind h
        obtain ⟨later, w₂, hlater, h⟩ := Attempt.exists_of_run_bind h
        cases h
        obtain ⟨members, calls, rfl, hrest, rfl⟩ := ih hlater
        rcases run_inspectMember_eq_ok_iff.mp hfirst with ⟨hname, rfl, rfl⟩ |
          ⟨name, data, fs₁, fs₂, hname, hdata, hdirectory, hfile, hinspect⟩
        · exact ⟨m :: members, calls, rfl, .passOver hname hrest, rfl⟩
        · exact ⟨m :: members, _, rfl,
            .examine hname hdata hdirectory hfile hinspect hrest, by rw [List.flatMap_cons]⟩
  · rintro ⟨members, calls, rfl, h, rfl⟩
    induction h with
    | done => rfl
    | passOver hname _ ih =>
      rw [List.map_cons, inspectMembers,
        Attempt.run_bind_ok (run_inspectMember_eq_ok_iff.mpr (.inl ⟨hname, rfl, rfl⟩)),
        Attempt.run_bind_ok ih]
      rfl
    | examine hname hdata hdirectory hfile hinspect _ ih =>
      rw [List.map_cons, inspectMembers,
        Attempt.run_bind_ok (run_inspectMember_eq_ok_iff.mpr
          (.inr ⟨_, _, _, _, hname, hdata, hdirectory, hfile, hinspect⟩)),
        Attempt.run_bind_ok ih, List.flatMap_cons]
      rfl

/-! ### Archives -/

/-- Work in a scratch directory that succeeds has had one, which could be removed after it. -/
lemma exists_of_run_withScratch {ε α : Type} {wrap : ScratchError → ε}
    {work : Path → Action ε α} {x : α}
    (h : (withScratch wrap place work).run.run w = (.ok x, w')) :
    ∃ scratch start finish fs, (createScratch wrap place).run.run w = (.ok scratch, start) ∧
      (work scratch).run.run start = (.ok x, finish) ∧
      finish.fs.removeTree scratch = .ok fs ∧ w' = { finish with fs } := by
  obtain ⟨scratch, start, hcreate, h⟩ := Attempt.exists_of_run_bind h
  obtain ⟨result, finish, hwork, h⟩ := Attempt.exists_of_run_bind h
  rw [Attempt.run_outcome] at hwork
  cases hwork
  rcases hrun : (work scratch).run.run start with ⟨e | y, finish⟩
  · simp only [hrun] at h
    obtain ⟨_, _, _, h⟩ := Attempt.exists_of_run_bind h
    cases h
  · simp only [hrun] at h
    obtain ⟨_, w'', hremove, h⟩ := Attempt.exists_of_run_bind h
    have hremoved := Attempt.run_of_run_wrapping hremove
    obtain ⟨fs, hgone, rfl⟩ := Attempt.exists_of_run_change hremoved
    cases h
    exact ⟨scratch, start, finish, fs, hcreate, hrun, hgone, rfl⟩

/-- Where the sections of an archive are collected, its members were gone through in order, and the
inspector was called once for each that has a file name and never otherwise. So every member is
examined, and stands behind the verdict, just where every member has a file name. -/
theorem examinations_of_collectRecords
    (hrun : (collectRecords inspector sectionName place archive).run.run w = (.ok records, w')) :
    ∃ file a members scratch start calls finish fs, w.fs.read archive = .ok file ∧
      Archive.open? file = .ok a ∧ a.members = members.map .ok ∧
      (createScratch VerifyError.scratch place).run.run w = (.ok scratch, start) ∧
      Examining inspector scratch 0 members start calls finish ∧
      finish.fs.removeTree scratch = .ok fs ∧ w' = { finish with fs } ∧
      List.Forall₂ ArchiveMember.IsExamined (members.filter (·.fileName?.isSome)) calls ∧
      (List.Forall₂ ArchiveMember.IsExamined members calls ↔
        ∀ m ∈ members, m.fileName? ≠ none) ∧
      records = (calls.flatMap fun c => c.records.filter (·.name = sectionName)) ∧
      (verifyArchive inspector sectionName place archive).run.run w =
        (.ok (.ofRecords records), w') := by
  have hverify := run_verifyArchive inspector sectionName place archive w
  rw [hrun] at hverify
  obtain ⟨file, w₁, hfile, h⟩ := Attempt.exists_of_run_bind hrun
  have hreadBytes := Attempt.run_of_run_wrapping hfile
  rw [Attempt.run_readBytes] at hreadBytes
  obtain ⟨hread, rfl⟩ := Prod.mk.inj hreadBytes
  cases hopen : Archive.open? file with
  | error e =>
    simp only [hopen] at h
    cases h
  | ok a =>
    simp only [hopen] at h
    obtain ⟨scratch, start, finish, fs, hcreate, hwork, hremove, rfl⟩ :=
      exists_of_run_withScratch h
    obtain ⟨members, calls, hmembers, hexamining, rfl⟩ := run_inspectMembers_eq_ok_iff.mp hwork
    exact ⟨file, a, members, scratch, start, calls, finish, fs, hread, hopen, hmembers, hcreate,
      hexamining, hremove, rfl, hexamining.forall₂, hexamining.forall₂_iff, rfl, hverify⟩

/-! ### Two members with one name -/

namespace Namesakes

/-- Both members have a file name, so both are examined. -/
theorem examinations_of_collectRecords_namesakes :
    let place := some (Path.ofString "/")
    let run := (collectRecords elfInspector ".a" place (.ofString "/a")).run.run world
    run.1 = .ok [⟨"a.o", ".a", "WA"⟩, ⟨"a.o", ".a", "A"⟩] ∧
      (∀ m ∈ namesakes, m.fileName? ≠ none) ∧
      ∃ scratch start calls finish, Examining elfInspector scratch 0 namesakes start calls finish ∧
        List.Forall₂ ArchiveMember.IsExamined namesakes calls := by
  intro place run
  have hok : run.1 = .ok [⟨"a.o", ".a", "WA"⟩, ⟨"a.o", ".a", "A"⟩] := by decide +kernel
  have hnamed : ∀ m ∈ namesakes, m.fileName? ≠ none := by decide +kernel
  have hgiven : world.fs.read (.ofString "/a") = .ok (bytesOf "!<arch>\n" ++ archive.rest) ∧
      Archive.open? (bytesOf "!<arch>\n" ++ archive.rest) = .ok archive ∧
      archive.members = namesakes.map .ok := by
    refine ⟨?_, ?_, ?_⟩
    all_goals decide +kernel
  refine ⟨hok, hnamed, ?_⟩
  rcases hrun : run with ⟨result, w'⟩
  rw [hrun] at hok
  obtain rfl : result = _ := hok
  obtain ⟨file, a, members, scratch, start, calls, finish, fs, hread, hopen, hmembers, -,
    hexamining, -, -, -, hiff, -, -⟩ := examinations_of_collectRecords hrun
  obtain rfl := Except.ok.inj (hgiven.1.symm.trans hread)
  obtain rfl := Except.ok.inj (hgiven.2.1.symm.trans hopen)
  obtain rfl : namesakes = members :=
    List.map_injective_iff.mpr (fun _ _ => Except.ok.inj) (hgiven.2.2.symm.trans hmembers)
  exact ⟨scratch, start, calls, finish, hexamining, hiff.mpr hnamed⟩

end Namesakes

/-! ### A member without a file name -/

namespace Nameless

/-- An archive of one object file, whose only named section can be written. Its name leads to a
directory. -/
def opened : Archive :=
  ⟨false, [], bytesOf "../             0           0     0     644     136       `\n" ++
    Namesakes.objectBytes 3⟩

/-- A world that holds nothing but the archive. -/
def world : World where
  fs := ⟨.ofList [(["a".toList], .file (bytesOf "!<arch>\n" ++ opened.rest) false)], []⟩
  env := .empty

/-- The member has a section that can be written, and verification finds none. An inspector that
fails on every file does not make it fail either, so no inspector is called. -/
theorem verifyArchive_nameless :
    let verified (inspector : SectionInspector) :=
      ((verifyArchive inspector ".a" (some (.ofString "/")) (.ofString "/a")).run.run world).1
    world.fs.read (.ofString "/a") = .ok (bytesOf "!<arch>\n" ++ opened.rest) ∧
      Archive.open? (bytesOf "!<arch>\n" ++ opened.rest) = .ok opened ∧
      opened.members = [.ok ⟨bytesOf "..", some (Namesakes.objectBytes 3)⟩] ∧
      ((ElfFile.parse? (Namesakes.objectBytes 3)).map fun e =>
        (e.sectionsNamed ".a").map (·.flags)) = .ok [3] ∧
      (verified elfInspector).map (·.verdict) = .ok .skippedWarning ∧
      (∀ p w, ((Escaping.crashing.inspect p).run.run w).1 = .error (.tool "crash")) ∧
      (verified Escaping.crashing).map (·.verdict) = .ok .skippedWarning := by
  refine ⟨?_, ?_, ?_, ?_, ?_, fun _ _ => rfl, ?_⟩
  all_goals decide +kernel

end Nameless

end ConstPromotion
