import ConstPromotion.Archive
import ConstPromotion.Inspection.Inspector
import ConstPromotion.Verification.Result
import ConstPromotion.Verification.Scratch

/-!
# Verification of archives

Every member of an archive is put into a directory of its own inside a scratch directory, so that
members with one name do not meet, and shown to an inspector there. Of the sections that are found,
those with the annotated name count. The archive itself is only read.
-/

namespace ConstPromotion

/-- Why an archive could not be verified. -/
inductive VerifyError where
  | readArchive (path : Path) (cause : OsError)
  | parseArchive (path : Path) (cause : ArchiveError)
  | scratch (cause : ScratchError)
  | inspect (cause : InspectError)
deriving DecidableEq

/-- The wording of an error. -/
def VerifyError.message : VerifyError → String
  | .readArchive p e => "Failed to read archive " ++ p.toString ++ ": " ++ e.message
  | .parseArchive p e => "Failed to parse archive " ++ p.toString ++ ": " ++ e.message
  | .scratch e => "Failed to prepare scratch area: " ++ e.message
  | .inspect e => e.message

/-- The file name under which a member is put into its directory, if its name has one. -/
def ArchiveMember.fileName? (m : ArchiveMember) : Option Name :=
  Path.fileName? ⟨Utf8.decodeLossy m.name⟩

/-- The name of the directory of the member with a number. -/
def memberDirectory (index : Nat) : Name := Decimal.renderPadded 4 index

variable {σ : Type} [HasWorld σ]

/-- Puts a member into its directory and inspects it there. A member whose name has no file name is
passed over. -/
def inspectMember (inspector : SectionInspector) (archive scratch : Path) (index : Nat)
    (m : ArchiveMember) : Attempt σ VerifyError (List SectionRecord) := do
  match m.fileName? with
  | none => return []
  | some name =>
    match m.data with
    | none => throw (.parseArchive archive .dataOutside)
    | some data =>
      let dir := scratch.child (memberDirectory index)
      (createDirectory dir).wrapping fun e => .scratch ⟨e, none⟩
      let file := dir.child name
      (writeBytes file data).wrapping fun e => .scratch ⟨e, none⟩
      (inspector.inspect file).onWorld.wrapping .inspect

/-- Inspects members, the first of which has the given number. -/
def inspectMembers (inspector : SectionInspector) (sectionName : String)
    (archive scratch : Path) : (index : Nat) → List (Except ArchiveError ArchiveMember) →
    Attempt σ VerifyError (List SectionRecord)
  | _, [] => return []
  | _, .error e :: _ => throw (.parseArchive archive e)
  | index, .ok m :: members => do
    let records ← inspectMember inspector archive scratch index m
    let later ← inspectMembers inspector sectionName archive scratch (index + 1) members
    return records.filter (·.name = sectionName) ++ later

/-- The annotated sections of all members of an archive, in the order of the archive. -/
def collectRecords (inspector : SectionInspector) (sectionName : String) (scratchRoot : Option Path)
    (archive : Path) : Attempt σ VerifyError (List SectionRecord) := do
  let file ← (readBytes archive).wrapping (.readArchive archive)
  match Archive.open? file with
  | .error e => throw (.parseArchive archive e)
  | .ok a =>
    withScratch .scratch scratchRoot fun scratch =>
      inspectMembers inspector sectionName archive scratch 0 a.members

/-- Verifies an archive. -/
def verifyArchive (inspector : SectionInspector) (sectionName : String) (scratchRoot : Option Path)
    (archive : Path) : Attempt σ VerifyError VerificationResult := do
  return .ofRecords (← collectRecords inspector sectionName scratchRoot archive)

end ConstPromotion
