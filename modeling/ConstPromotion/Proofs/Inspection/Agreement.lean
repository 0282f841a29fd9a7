import ConstPromotion.Inspection.Listing
import ConstPromotion.Proofs.Section.Table
import ConstPromotion.Proofs.Text.Decoding
import ConstPromotion.Proofs.Verification.Archive

/-!
# The two inspectors agree

The inspector that reads object files itself and the one that runs a listing tool find the same
sections in an object file, as long as what the tool prints is a table of the section headers of the
file (`sectionTable_agrees`).
-/

namespace ConstPromotion

variable {e : ElfFile} {text : List Char} {rows : List TableRow}

/-- A row shows a section header of an object file: its name, or that it has none, and its flags. -/
structure ElfFile.IsListedAs (e : ElfFile) (s : ElfSection) (r : TableRow) : Prop where
  name : (stringAt? e.names s.name).getD [] = r.name
  flags : s.flags = r.flags

/-- The records that are made of the table of an object file. -/
def tableRecords (object : String) (text : List Char) : List SectionRecord :=
  (sectionTable text).map fun (name, flags) => ⟨object, name, flags⟩

/-- How a listing tool is called for an object file. -/
def listingCall (tool p : Path) : Invocation :=
  { program := tool.toString, arguments := ["-S", "-W", p.toString] }

/-- The listing inspector makes its records of what the tool prints. -/
lemma run_listingInspector {tool p : Path} {w w' : World} {ended : ExitStatus} {output : Bytes}
    (hcall : (listingCall tool p).runForOutput.run.run w = (.ok (ended, output), w'))
    (hended : ended.isSuccess) : ((listingInspector tool).inspect p).run.run w =
      (.ok (tableRecords (objectName p) (Utf8.decodeLossy output)), w') := by
  rw [listingCall] at hcall
  simp only [listingInspector, Attempt.run_bind, Attempt.run_wrapping, hcall, Except.mapError,
    hended, Bool.not_true, Bool.false_eq_true, if_false, Attempt.run_pure, tableRecords]

/-- What is found of the section headers of a file is what the rows say that show them. -/
lemma elfRecords_eq (h : List.Forall₂ e.IsListedAs e.sections rows) (object : String) :
    elfRecords object e =
      (rows.filterMap TableRow.entry?).map fun (name, flags) => ⟨object, name, flags⟩ := by
  rw [elfRecords, ElfFile.named]
  generalize e.sections = sections at h
  induction h with
  | nil => rfl
  | @cons s r sections rows hrow _ ih =>
    obtain ⟨hname, hflags⟩ := hrow
    rw [List.filterMap_cons, List.filterMap_cons, TableRow.entry?, ← hname, ← hflags]
    cases hs : stringAt? e.names s.name with
    | none => simpa using ih
    | some name =>
      cases name with
      | nil => simpa using ih
      | cons c name => simpa using ih

/-- A table of sections gives the name and the flags of each section that has a name, in order. If
it is the table of an object file, these are the records that are found in the file itself, so that
any section gets the same verdict. A listing tool that prints such a table for an object file, and
succeeds, makes the two inspectors agree on the file. -/
theorem sectionTable_agrees (htext : Tabulates text rows) :
    sectionTable text = ((rows.filter (·.name ≠ [])).map fun r =>
      (String.ofList r.name, String.ofList (flagLetters r.flags))) ∧
    ∀ e : ElfFile, List.Forall₂ e.IsListedAs e.sections rows →
      (∀ object, tableRecords object text = elfRecords object e) ∧
      (∀ object annotated,
        (VerificationResult.ofRecords
          ((tableRecords object text).filter (·.name = annotated))).verdict =
        (VerificationResult.ofRecords
          ((elfRecords object e).filter (·.name = annotated))).verdict) ∧
      ∀ (tool p : Path) (w w' : World) (data : Bytes) (ended : ExitStatus),
        w.fs.read p = .ok data → ElfFile.parse? data = .ok e →
        (listingCall tool p).runForOutput.run.run w = (.ok (ended, Utf8.encode text), w') →
        ended.isSuccess →
        (((listingInspector tool).inspect p).run.run w).1 =
          ((elfInspector.inspect p).run.run w).1 := by
  have hentries : rows.filterMap TableRow.entry? = (rows.filter (·.name ≠ [])).map fun r =>
      (String.ofList r.name, String.ofList (flagLetters r.flags)) := by
    rw [← List.filterMap_eq_map, List.filterMap_filter]
    congr 1
    funext r
    simp only [TableRow.entry?]
    split_ifs <;> simp_all
  refine ⟨htext.sectionTable_eq.trans hentries, fun e hrows => ?_⟩
  have hrecords (object : String) : tableRecords object text = elfRecords object e := by
    rw [tableRecords, htext.sectionTable_eq, elfRecords_eq hrows]
  refine ⟨hrecords, fun object annotated => by rw [hrecords], ?_⟩
  intro tool p w w' data ended hread hparse hcall hended
  rw [run_listingInspector hcall hended, run_elfInspector hread hparse, Utf8.decodeLossy_encode,
    hrecords]

/-! ### A listing with a heading -/

namespace Listed

/-- An object file with two sections that have a name: one can be written, and one has no flags. -/
def objectBytes : Bytes :=
  [0x7F, 0x45, 0x4C, 0x46, 1, 1, 1] ++ List.replicate 25 0 ++ [52, 0, 0, 0]
    ++ List.replicate 12 0 ++ [3, 0, 2, 0] ++ List.replicate 40 0
    ++ [1, 0, 0, 0, 1, 0, 0, 0, 3] ++ List.replicate 31 0
    ++ [4, 0, 0, 0, 3, 0, 0, 0, 0, 0, 0, 0, 0, 0, 0, 0, 172, 0, 0, 0, 8, 0, 0, 0]
    ++ List.replicate 16 0 ++ [0, 0x5D, 0x57, 0, 0x5B, 0x31, 0x5D, 0]

/-- What is read from it. -/
def file : ElfFile :=
  ⟨[⟨0, 0, 0, 0, 0, 0, 0, 0, 0, 0⟩, ⟨1, 1, 3, 0, 0, 0, 0, 0, 0, 0⟩,
    ⟨4, 3, 0, 0, 172, 8, 0, 0, 0, 0⟩], [0, 0x5D, 0x57, 0, 0x5B, 0x31, 0x5D, 0]⟩

/-- The row of a section. -/
def row (name type : String) (flags : UInt64) : TableRow where
  name := name.toList
  type := type.toList
  address := ['0']
  offset := ['0']
  size := ['8']
  entrySize := ['0', '0']
  flags := flags
  link := ['0']
  info := ['0']
  alignment := ['1']

/-- The rows of the file. -/
def fileRows : List TableRow := [row "" "NULL" 0, row "]W" "PROGBITS" 3, row "[1]" "STRTAB" 0]

/-- The line of a row. -/
def line (index columns : String) : List Char :=
  [' '] ++ '[' :: (index.toList ++ ']' :: columns.toList)

/-- The heading of the columns. -/
def heading : List Char := "  [Nr] Name Type".toList

/-- The table of the file, with a heading before it and a key after it. -/
def table : List Char :=
  heading ++ ['\r', '\n'] ++ (line " 0" "   NULL 0 0 8 00  0 0 1" ++ ['\n'] ++
    (line " 1" " ]W PROGBITS 0 0 8 00\tWA 0 0 1" ++ ['\r', '\n'] ++
      (line " 2" " [1] STRTAB 0 0 8 00  0 0 1" ++ ['\n'] ++ "Key: W (write)".toList)))

lemma lineShows_line {r : TableRow} {index columns : String}
    (h : r.IsSection ∧ IsIndex index.toList ∧ Text.tokens columns.toList = r.printed) :
    LineShows (line index columns) [r] :=
  .of_tokens h.1 (by decide) h.2.1 h.2.2

lemma tabulates_table : Tabulates table fileRows := by
  have hnull : LineShows (line " 0" "   NULL 0 0 8 00  0 0 1") [row "" "NULL" 0] :=
    lineShows_line (by decide)
  have hwritable :
      LineShows (line " 1" " ]W PROGBITS 0 0 8 00\tWA 0 0 1") [row "]W" "PROGBITS" 3] :=
    lineShows_line (by decide)
  have hplain : LineShows (line " 2" " [1] STRTAB 0 0 8 00  0 0 1") [row "[1]" "STRTAB" 0] :=
    lineShows_line (by decide)
  have hheading : LineShows heading [] := .other (by decide)
  have hkey : LineShows "Key: W (write)".toList [] := .other (by decide)
  exact .cons (by decide) hheading (.inr rfl) (.cons (by decide) hnull (.inl rfl)
    (.cons (by decide) hwritable (.inr rfl) (.cons (by decide) hplain (.inl rfl)
      (.last (by decide) hkey))))

/-- The object file, and a tool that prints the table whatever it is asked for. -/
def world : World where
  fs := ⟨.ofList [(["x.o".toList], .file objectBytes false),
    (["table".toList], .file (Utf8.encode table) false),
    (["tool".toList], .file (bytesOf "#!/bin/sh\ncat /table\n") true),
    (["bin".toList], .directory),
    (["bin".toList, "cat".toList], .file (utilityImage "cat") true),
    (["bin".toList, "sh".toList], .file (utilityImage "sh") true)], []⟩
  env := .empty

/-- How the tool is called. -/
def call : Except OsError (ExitStatus × Bytes) × World :=
  (listingCall (.ofString "/tool") (.ofString "/x.o")).runForOutput.run.run world

/-- The sections that have a name are read from the table, and both inspectors find them. -/
theorem sectionTable_agrees_table :
    Tabulates table fileRows ∧ List.Forall₂ file.IsListedAs file.sections fileRows ∧
      world.fs.read (.ofString "/x.o") = .ok objectBytes ∧ ElfFile.parse? objectBytes = .ok file ∧
      sectionTable table = [("]W", "WA"), ("[1]", "")] ∧
      tableRecords "x.o" table = [⟨"x.o", "]W", "WA"⟩, ⟨"x.o", "[1]", ""⟩] ∧
      (VerificationResult.ofRecords
        ((tableRecords "x.o" table).filter (·.name = "]W"))).verdict = .fail ∧
      (((listingInspector (.ofString "/tool")).inspect (.ofString "/x.o")).run.run world).1 =
        .ok [⟨"x.o", "]W", "WA"⟩, ⟨"x.o", "[1]", ""⟩] := by
  have hrows : List.Forall₂ file.IsListedAs file.sections fileRows :=
    .cons ⟨by decide, rfl⟩ (.cons ⟨by decide, rfl⟩ (.cons ⟨by decide, rfl⟩ .nil))
  have hread : world.fs.read (.ofString "/x.o") = .ok objectBytes := by decide +kernel
  have hparse : ElfFile.parse? objectBytes = .ok file := by decide +kernel
  have hcall : call.1 = .ok (.exited 0, Utf8.encode table) := by decide +kernel
  obtain ⟨htable, hagree⟩ := sectionTable_agrees tabulates_table
  obtain ⟨hrecords, hverdict, hinspect⟩ := hagree file hrows
  have helf : elfRecords "x.o" file = [⟨"x.o", "]W", "WA"⟩, ⟨"x.o", "[1]", ""⟩] := by decide
  refine ⟨tabulates_table, hrows, hread, hparse, ?_, ?_, ?_, ?_⟩
  · rw [htable]
    decide
  · rw [hrecords, helf]
  · rw [hverdict, helf]
    decide
  · rw [hinspect (.ofString "/tool") (.ofString "/x.o") world _ _ _ hread hparse
      (Prod.fst_eq_iff.mp hcall) rfl, run_elfInspector hread hparse]
    decide

end Listed

end ConstPromotion
