import ConstPromotion.Proofs.Verification.Scratch
import ConstPromotion.Verification.Archive

/-!
# Extraction of members

Each member of an archive gets a directory of its own in the scratch directory, so it is put into a
new file, whatever the members before it were called. `IsScratch` says that the directories of the
members to come are still missing; extraction of one member keeps it for the members after it
(`run_inspectMember`), and an inspector is shown a file with the data of the member.
-/

namespace ConstPromotion

open FileSystem

/-! ### Directories of members -/

lemma memberDirectory_injective : Function.Injective memberDirectory :=
  Decimal.renderPadded_injective 4

lemma isDigit_of_mem_memberDirectory {index : Nat} {c : Char} (h : c ∈ memberDirectory index) :
    c.isDigit :=
  Decimal.isDigit_of_mem_renderPadded h

lemma isEntryName_memberDirectory (index : Nat) : Path.IsEntryName (memberDirectory index) := by
  refine ⟨Decimal.renderPadded_ne_nil 4 index, fun hmem => ?_, fun heq => ?_, fun heq => ?_⟩
  · exact absurd (isDigit_of_mem_memberDirectory hmem) (by decide)
  · have hmem : '.' ∈ memberDirectory index := by simp [heq]
    exact absurd (isDigit_of_mem_memberDirectory hmem) (by decide)
  · have hmem : '.' ∈ memberDirectory index := by simp [heq]
    exact absurd (isDigit_of_mem_memberDirectory hmem) (by decide)

lemma isValidName_memberDirectory {index : Nat}
    (h : Utf8.size (memberDirectory index) ≤ maxNameBytes) :
    IsValidName (memberDirectory index) :=
  ⟨isEntryName_memberDirectory index,
    fun hmem => absurd (isDigit_of_mem_memberDirectory hmem) (by decide), h⟩

/-- Whether the limits of the file system allow the file of a member. -/
def HasRoom (scratch : Path) (index : Nat) (n : Name) : Prop :=
  scratch.Admits (memberDirectory index) ∧ (scratch.child (memberDirectory index)).Admits n

instance (scratch : Path) (index : Nat) (n : Name) : Decidable (HasRoom scratch index n) :=
  inferInstanceAs (Decidable (_ ∧ _))

/-! ### The scratch directory -/

/-- A path leads to a scratch directory, and the directories of the members from a number on are
not there yet. -/
structure IsScratch (fs : FileSystem) (scratch : Path) (l : Location) (index : Nat) : Prop where
  find : fs.find scratch = .ok (l, .directory)
  free : ∀ i ≥ index, ∀ below, fs.nodeAt (l ++ memberDirectory i :: below) = none

/-- In a tree, nothing is in a directory that was just made. -/
lemma isScratch_put {fs : FileSystem} (hfs : fs.IsTree) {scratch : Path} {l : Location}
    (hfree : fs.nodeAt l = none)
    (hfind : (fs.put l .directory).find scratch = .ok (l, .directory)) :
    IsScratch (fs.put l .directory) scratch l 0 := by
  have hne : l ≠ [] := by
    rintro rfl
    simp at hfree
  refine ⟨hfind, fun i _ below => ?_⟩
  rw [nodeAt_put_of_ne hne (by simp)]
  exact hfs.nodeAt_append (by simp [hfree]) (List.cons_ne_nil _ _)

variable {w : World} {scratch : Path} {l : Location} {index : Nat} {m : ArchiveMember}
  {n : Name} {data : Bytes}

/-- A member is put into a file of its own, where an inspector reads its data, and the members after
it find no directory in their way. -/
theorem run_inspectMember (inspector : SectionInspector) (archive : Path)
    (hscratch : IsScratch w.fs scratch l index) (hname : m.fileName? = some n)
    (hnul : '\x00' ∉ n) (hdata : m.data = some data) (hroom : HasRoom scratch index n) :
    ∃ fs', Extends w.fs fs' ∧ IsScratch fs' scratch l (index + 1) ∧
      fs'.read ((scratch.child (memberDirectory index)).child n) = .ok data ∧
      (inspectMember inspector archive scratch index m).run.run w =
        ((inspector.inspect ((scratch.child (memberDirectory index)).child n)).wrapping
          VerifyError.inspect).run.run { w with fs := fs' } := by
  obtain ⟨⟨hdirSize, hdirShort⟩, hsize, hshort⟩ := hroom
  have hdir := isValidName_memberDirectory hdirSize
  have hvalid : IsValidName n := ⟨Path.isEntryName_of_fileName? hname, hnul, hsize⟩
  have hfree := hscratch.free index le_rfl
  obtain ⟨fs₁, hcreate, hextends₁, hfind₁, hframe₁⟩ :=
    exists_createDirectory_child hscratch.find hdir hdirShort (hfree [])
  have hfree₁ : fs₁.nodeAt (l ++ [memberDirectory index] ++ [n]) = none := by
    rw [hframe₁ _ (by simp), List.append_assoc]
    exact hfree [n]
  obtain ⟨fs₂, hwrite, hextends₂, hread, hframe₂⟩ :=
    exists_write_child hfind₁ hvalid hshort hfree₁ data
  refine ⟨fs₂, hextends₁.trans hextends₂, ⟨?_, fun i hi below => ?_⟩, hread, ?_⟩
  · exact (hextends₁.trans hextends₂).find hscratch.find
  · have hother : memberDirectory i ≠ memberDirectory index := fun heq => by
      have := memberDirectory_injective heq
      omega
    rw [hframe₂ _ (by simp [hother]), hframe₁ _ (by simp [hother])]
    exact hscratch.free i (by omega) below
  · have hwrite' := Attempt.run_writeBytes_ok (w := { w with fs := fs₁ }) hwrite
    simp only [inspectMember, hname, hdata, Attempt.run_bind, Attempt.run_wrapping,
      Attempt.run_createDirectory_ok hcreate, hwrite', Attempt.run_onWorld, Except.mapError]

end ConstPromotion
