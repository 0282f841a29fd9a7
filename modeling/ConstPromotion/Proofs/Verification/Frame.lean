import ConstPromotion.Proofs.FileSystem.Removal
import ConstPromotion.Proofs.History
import ConstPromotion.Proofs.Path.Clean
import ConstPromotion.Proofs.Verification.Extraction

/-!
# What verification does to the files

Verification makes a scratch directory where nothing was, puts a directory and a file into it for
each member that it gets to, and removes it again, however it ends. What is put there is listed by
`Placement`, and `Placing` says that a run puts such things one after the other and changes no files
otherwise. The run is looked at on a world that remembers the file systems it went through, so the
result covers what happens during the call (`history_of_collectRecords`).
-/

namespace ConstPromotion

open FileSystem

/-! ### Placements -/

/-- What verification puts into a scratch directory. -/
inductive Placement where
  /-- The directory of the member with a number. -/
  | directory (index : Nat)
  /-- The file of that member. -/
  | file (index : Nat) (name : Name) (data : Bytes)

namespace Placement

/-- Where it is put, seen from the scratch directory. -/
def location : Placement → Location
  | directory index => [memberDirectory index]
  | file index name _ => [memberDirectory index, name]

/-- What is put there. -/
def node : Placement → Node
  | directory _ => .directory
  | file _ _ data => .file data false

/-- Puts it into the scratch directory at a location. -/
def place (scratch : Location) (fs : FileSystem) (p : Placement) : FileSystem :=
  fs.put (scratch ++ p.location) p.node

/-- What a member with a number calls for. -/
def ofMember (index : Nat) (m : ArchiveMember) : List Placement :=
  match m.fileName?, m.data with
  | some name, some data => [directory index, file index name data]
  | _, _ => []

/-- What members call for, the first of which has the given number. -/
def ofMembers : (index : Nat) → List (Except ArchiveError ArchiveMember) → List Placement
  | _, [] => []
  | _, .error _ :: _ => []
  | index, .ok m :: members => ofMember index m ++ ofMembers (index + 1) members

/-- The file systems gone through while things are put into the scratch directory at a location. -/
def states (l : Location) : FileSystem → List Placement → List FileSystem
  | _, [] => []
  | fs, p :: later => p.place l fs :: states l (p.place l fs) later

variable {first : Nat} {p : Placement} {members : List (Except ArchiveError ArchiveMember)}

lemma mem_ofMember {m : ArchiveMember} (h : p ∈ ofMember first m) :
    ∃ name data, m.fileName? = some name ∧ m.data = some data ∧
      (p = directory first ∨ p = file first name data) := by
  rw [ofMember] at h
  split at h
  next name data hname hdata => exact ⟨name, data, hname, hdata, by simpa using h⟩
  next => simp at h

/-- What is put somewhere is called for by a member, which is not before the first one. -/
lemma mem_ofMembers (h : p ∈ ofMembers first members) :
    ∃ index ≥ first, ∃ m, p ∈ ofMember index m := by
  induction members generalizing first with
  | nil => simp [ofMembers] at h
  | cons m members ih =>
    cases m with
    | error e => simp [ofMembers] at h
    | ok m =>
      rcases List.mem_append.mp h with h | h
      · exact ⟨first, le_rfl, m, h⟩
      · obtain ⟨index, hindex, m, hm⟩ := ih h
        exact ⟨index, by omega, m, hm⟩

/-- The file of a member has a single name. -/
lemma isEntryName_of_mem_ofMembers {index : Nat} {name : Name} {data : Bytes}
    (h : file index name data ∈ ofMembers first members) : Path.IsEntryName name := by
  obtain ⟨index', -, m, hm⟩ := mem_ofMembers h
  obtain ⟨name', data', hname, -, hfile⟩ := mem_ofMember hm
  obtain ⟨-, rfl, -⟩ : index = index' ∧ name = name' ∧ data = data' := by simpa using hfile
  exact Path.isEntryName_of_fileName? hname

lemma exists_location_of_mem_ofMember {m : ArchiveMember} (h : p ∈ ofMember first m) :
    ∃ below, p.location = memberDirectory first :: below := by
  obtain ⟨name, data, -, -, rfl | rfl⟩ := mem_ofMember h
  · exact ⟨[], rfl⟩
  · exact ⟨[name], rfl⟩

/-- Nothing is put where something else is put. -/
theorem pairwise_location_ne (first : Nat) (members : List (Except ArchiveError ArchiveMember)) :
    (ofMembers first members).Pairwise fun p q => p.location ≠ q.location := by
  induction members generalizing first with
  | nil => exact .nil
  | cons m members ih =>
    cases m with
    | error e => exact .nil
    | ok m =>
      refine List.pairwise_append.mpr ⟨?_, ih (first + 1), ?_⟩
      · rw [ofMember]
        split
        · simp [location]
        · exact .nil
      · -- different members have different directories
        intro p hp q hq hsame
        obtain ⟨index, hindex, m', hm'⟩ := mem_ofMembers hq
        obtain ⟨below, hbelow⟩ := exists_location_of_mem_ofMember hp
        obtain ⟨below', hbelow'⟩ := exists_location_of_mem_ofMember hm'
        rw [hbelow, hbelow', List.cons.injEq] at hsame
        have := memberDirectory_injective hsame.1
        omega

end Placement

/-! ### Runs that put things into a scratch directory -/

/-- Between two states, things are put into the scratch directory at a location, each where nothing
is, and no files are changed otherwise. -/
inductive Placing (l : Location) : Recorded → List Placement → Recorded → Prop where
  | rest {s s' : Recorded} (hfs : s'.world.fs = s.world.fs) (hhistory : s'.history = s.history) :
    Placing l s [] s'
  | place {s s' : Recorded} {p : Placement} {later : List Placement}
    (hfree : s.world.fs.nodeAt (l ++ p.location) = none)
    (hlater : Placing l (HasFiles.withFiles s (p.place l s.world.fs)) later s') :
    Placing l s (p :: later) s'

namespace Placing

variable {l : Location} {s s' s'' : Recorded} {ps qs : List Placement}

lemma refl (l : Location) (s : Recorded) : Placing l s [] s := .rest rfl rfl

lemma of_eq (hfs : s'.world.fs = s.world.fs) (hhistory : s'.history = s.history)
    (h : Placing l s' ps s'') : Placing l s ps s'' := by
  induction h generalizing s with
  | rest hfs' hhistory' => exact .rest (hfs'.trans hfs) (hhistory'.trans hhistory)
  | @place t t' p later hfree _ ih =>
    rw [hfs] at hfree
    apply Placing.place hfree
    apply ih
    · simp only [HasFiles.withFiles, hfs]
    · simp only [HasFiles.withFiles, hfs, hhistory]

lemma trans (h : Placing l s ps s') (h' : Placing l s' qs s'') : Placing l s (ps ++ qs) s'' := by
  induction h with
  | rest hfs hhistory => exact h'.of_eq hfs hhistory
  | place hfree _ ih => exact .place hfree (ih h')

lemma history_eq (h : Placing l s ps s') :
    s'.history = s.history ++ Placement.states l s.world.fs ps := by
  induction h with
  | rest _ hhistory => rw [hhistory, Placement.states, List.append_nil]
  | place _ _ ih =>
    rw [ih, Placement.states]
    simp [HasFiles.withFiles]

lemma extends_of_mem {fs : FileSystem} (h : Placing l s ps s')
    (hfs : fs ∈ Placement.states l s.world.fs ps) : Extends s.world.fs fs := by
  induction h with
  | rest => simp [Placement.states] at hfs
  | @place s s' p later hfree _ ih =>
    have hplace : Extends s.world.fs (p.place l s.world.fs) := Extends.put hfree p.node
    rcases List.mem_cons.mp hfs with rfl | hfs
    · exact hplace
    · exact hplace.trans (ih hfs)

lemma extends_final (h : Placing l s ps s') : Extends s.world.fs s'.world.fs := by
  induction h with
  | rest hfs => rw [hfs]; exact .refl _
  | place hfree _ ih => exact (Extends.put hfree _).trans ih

/-- What was put into the scratch directory is removed with it. -/
lemma removeAt_eq (h : Placing l s ps s') : s'.world.fs.removeAt l = s.world.fs.removeAt l := by
  induction h with
  | rest hfs => rw [hfs]
  | place _ _ ih =>
    rw [ih]
    exact removeAt_put (List.prefix_append _ _) _

end Placing

/-! ### Members -/

/-- An inspector writes no files. -/
def SectionInspector.IsSilent (inspector : SectionInspector) : Prop :=
  ∀ p w, ((inspector.inspect p).run.run w).2.fs = w.fs

variable {inspector : SectionInspector} {sectionName : String} {archive scratch : Path}
  {l : Location} {index : Nat} {m : ArchiveMember} {s : Recorded}

/-- The directory of a member is made in the scratch directory. -/
lemma IsScratch.createDirectory_eq {fs fs' : FileSystem} (h : IsScratch fs scratch l index)
    (hcreate : fs.createDirectory (scratch.child (memberDirectory index)) = .ok fs') :
    fs' = (Placement.directory index).place l fs ∧
      fs'.find (scratch.child (memberDirectory index)) =
        .ok (l ++ [memberDirectory index], .directory) := by
  have hentry := isEntry_child h.find (isEntryName_memberDirectory index)
  obtain ⟨hn, hshort, hfree, rfl⟩ := hentry.createDirectory_eq hcreate
  exact ⟨rfl, hentry.find_directory hn hshort hfree⟩

/-- Where the directory of a member was made, there is nothing below it. -/
lemma IsScratch.nodeAt_place_directory {fs : FileSystem} (h : IsScratch fs scratch l index)
    (name : Name) (data : Bytes) :
    ((Placement.directory index).place l fs).nodeAt
      (l ++ (Placement.file index name data).location) = none := by
  rw [Placement.place, nodeAt_put_of_ne (by simp [Placement.location])
    (by simp [Placement.location])]
  exact h.free index le_rfl [name]

/-- After a member was put into the scratch directory, there is room for the next one. -/
lemma IsScratch.place_file {fs : FileSystem} (h : IsScratch fs scratch l index) (name : Name)
    (data : Bytes) :
    IsScratch ((Placement.file index name data).place l ((Placement.directory index).place l fs))
      scratch l (index + 1) := by
  have hdirectory : Extends fs ((Placement.directory index).place l fs) :=
    Extends.put (h.free index le_rfl []) _
  constructor
  · exact (hdirectory.trans (Extends.put (h.nodeAt_place_directory name data) _)).find h.find
  · intro i hi below
    have hother : memberDirectory index ≠ memberDirectory i := by
      intro heq
      have := memberDirectory_injective heq
      omega
    simp only [Placement.place, Placement.location]
    rw [nodeAt_put_of_ne (by simp) (by simp [hother]),
      nodeAt_put_of_ne (by simp) (by simp [hother])]
    exact h.free i (by omega) below

/-- A member is put into a directory of its own as far as that is possible, and nothing else is
changed. -/
theorem placing_inspectMember (hsilent : inspector.IsSilent) (archive : Path) (m : ArchiveMember)
    (hscratch : IsScratch s.world.fs scratch l index) :
    ∃ ps result s', (inspectMember inspector archive scratch index m).run.run s = (result, s') ∧
      ps <+: Placement.ofMember index m ∧ Placing l s ps s' ∧
      ∀ records, result = .ok records →
        ps = Placement.ofMember index m ∧ IsScratch s'.world.fs scratch l (index + 1) := by
  rw [inspectMember, Placement.ofMember]
  cases hname : m.fileName? with
  | none =>
    have hlater : IsScratch s.world.fs scratch l (index + 1) :=
      ⟨hscratch.find, fun i hi => hscratch.free i (by omega)⟩
    exact ⟨[], _, s, rfl, List.nil_prefix, .refl l s, fun _ _ => ⟨rfl, hlater⟩⟩
  | some name =>
    cases hdata : m.data with
    | none => exact ⟨[], _, s, rfl, List.nil_prefix, .refl l s, by simp⟩
    | some data =>
      simp only [Attempt.run_bind, Attempt.run_wrapping, createDirectory, Attempt.run_change,
        HasFiles.files]
      cases hcreate : s.world.fs.createDirectory (scratch.child (memberDirectory index)) with
      | error e => exact ⟨[], _, s, rfl, List.nil_prefix, .refl l s, by simp⟩
      | ok fs₁ =>
        -- from here on the directory of the member stays, whether its file is written or not
        obtain ⟨rfl, hfind⟩ := hscratch.createDirectory_eq hcreate
        have hfree := hscratch.free index le_rfl []
        have hfree' := hscratch.nodeAt_place_directory name data
        simp only [Except.mapError, writeBytes, Attempt.run_change, HasFiles.files,
          HasFiles.withFiles]
        cases hwrite : ((Placement.directory index).place l s.world.fs).write
            ((scratch.child (memberDirectory index)).child name) data with
        | error e =>
          exact ⟨[.directory index], _, _, rfl, List.prefix_append [_] [_],
            .place hfree (.refl l _), by simp⟩
        | ok fs₂ =>
          have hentry := isEntry_child hfind (Path.isEntryName_of_fileName? hname)
          have hlocation : l ++ [memberDirectory index] ++ [name] =
              l ++ (Placement.file index name data).location :=
            List.append_assoc _ _ _
          obtain rfl := hentry.write_eq (hlocation ▸ hfree') hwrite
          rw [hlocation]
          refine ⟨[.directory index, .file index name data], _, _, rfl, List.prefix_rfl,
            .place hfree (.place hfree' (.rest (hsilent _ _) rfl)), fun _ _ => ⟨rfl, ?_⟩⟩
          simp only [Attempt.run_onWorld_recorded, hsilent _ _]
          exact hscratch.place_file name data

/-- Members are put into the scratch directory one after the other, up to the first failure. -/
theorem placing_inspectMembers (hsilent : inspector.IsSilent) (sectionName : String)
    (archive : Path) (members : List (Except ArchiveError ArchiveMember))
    (hscratch : IsScratch s.world.fs scratch l index) :
    ∃ ps, ps <+: Placement.ofMembers index members ∧
      Placing l s ps
        ((inspectMembers inspector sectionName archive scratch index members).run.run s).2 := by
  induction members generalizing s index with
  | nil => exact ⟨[], List.nil_prefix, .refl l s⟩
  | cons m members ih =>
    cases m with
    | error e => exact ⟨[], List.nil_prefix, .refl l s⟩
    | ok m =>
      obtain ⟨ps, result, s₁, hrun, hps, hplacing, hfull⟩ :=
        placing_inspectMember hsilent archive m hscratch
      rw [inspectMembers, Placement.ofMembers]
      cases result with
      | error e =>
        rw [Attempt.run_bind_error hrun]
        exact ⟨ps, hps.trans (List.prefix_append _ _), hplacing⟩
      | ok records =>
        obtain ⟨rfl, hscratch₁⟩ := hfull records rfl
        obtain ⟨later, hlater, hplacing'⟩ := ih hscratch₁
        rw [Attempt.run_bind_ok hrun, Attempt.run_bind_pure]
        exact ⟨_ ++ later, (List.prefix_append_right_inj _).mpr hlater, hplacing.trans hplacing'⟩

/-! ### The scratch directory -/

section Scratch

variable {ε α : Type} {wrap : ScratchError → ε} {parent : Path} {place : Option Path}

/-- A scratch directory was made in a directory, where nothing was. -/
structure IsMade (fs : FileSystem) (scratch : Path) (l : Location) : Prop where
  exists_isEntry : ∃ dir n, l = dir ++ [n] ∧ fs.IsEntry scratch dir n ∧ IsValidName n
  isShort : scratch.IsShort
  free : fs.nodeAt l = none

/-- A scratch directory is made, or nothing is changed. -/
lemma createScratchFrom_cases (wrap : ScratchError → ε) (hparent : parent.chars ≠ []) (n tries : Nat)
    (s : Recorded) :
    (∃ e, (createScratchFrom wrap parent n tries).run.run s = (.error e, s)) ∨
      ∃ k l, IsMade s.world.fs (parent.child (scratchName k)) l ∧
        (createScratchFrom wrap parent n tries).run.run s = (.ok (parent.child (scratchName k)),
          HasFiles.withFiles s (s.world.fs.put l .directory)) := by
  induction tries generalizing n with
  | zero => exact .inl ⟨_, rfl⟩
  | succ tries ih =>
    rw [createScratchFrom]
    simp only [Attempt.run_bind, Attempt.run_outcome, createDirectory, Attempt.run_change,
      HasFiles.files]
    cases hcreate : s.world.fs.createDirectory (parent.child (scratchName n)) with
    | error e =>
      by_cases htaken : e = .exists
      · subst htaken
        exact ih (n + 1)
      · refine .inl ⟨wrap ⟨e, some (parent.child (scratchName n))⟩, ?_⟩
        cases e <;> first | rfl | exact absurd rfl htaken
    | ok fs =>
      obtain ⟨place, hresolve, -⟩ := exists_of_bind_eq_ok hcreate
      rw [Path.dropSlashes_child (isEntryName_scratchName n)] at hresolve
      obtain ⟨dir, hentry⟩ := exists_isEntry_child (isEntryName_scratchName n) hparent hresolve
      obtain ⟨hn, hshort, hfree, rfl⟩ := hentry.createDirectory_eq hcreate
      exact .inr ⟨n, dir ++ [scratchName n], ⟨⟨dir, _, rfl, hentry, hn⟩, hshort, hfree⟩, rfl⟩

lemma createScratch_cases (wrap : ScratchError → ε) (place : Option Path) (s : Recorded) :
    (∃ e, (createScratch wrap place).run.run s = (.error e, s)) ∨
      ∃ parent k l, s.world.scratchParent place = .ok parent ∧
        IsMade s.world.fs (parent.child (scratchName k)) l ∧
        (createScratch wrap place).run.run s = (.ok (parent.child (scratchName k)),
          HasFiles.withFiles s (s.world.fs.put l .directory)) := by
  rw [World.scratchParent]
  generalize hgiven : place.getD (.ofString ((s.world.env.get? "TMPDIR").getD "/tmp")) = given
  have hplace : (createScratch wrap place).run.run s =
      (createScratch wrap (some given)).run.run s := by
    cases place with
    | some p => rw [← hgiven, Option.getD_some]
    | none =>
      rw [← hgiven, Option.getD_none, createScratch.eq_def, createScratch.eq_def]
      simp only [Attempt.run_bind, Attempt.run_onWorld_recorded, run_temporaryDirectory,
        Attempt.run_pure]
  rw [hplace, createScratch]
  by_cases habsolute : given.isAbsolute = true
  · simp only [habsolute, if_true, pure_bind]
    rcases createScratchFrom_cases wrap (Path.chars_ne_nil_of_isAbsolute habsolute) 0
      (s.world.fs.nodes.entries.length + 1) s with herror | ⟨k, l, hmade⟩
    · exact .inl herror
    · exact .inr ⟨given, k, l, rfl, hmade⟩
  · rw [Bool.not_eq_true] at habsolute
    simp only [habsolute, Bool.false_eq_true, if_false, pure_bind, Attempt.run_bind,
      Attempt.run_wrapping, Attempt.run_inspect, HasFiles.files]
    cases hhere : s.world.fs.currentDir with
    | error e => exact .inl ⟨_, rfl⟩
    | ok here =>
      have hjoin : (here.join given).isAbsolute = true := by
        rw [FileSystem.currentDir] at hhere
        split_ifs at hhere
        obtain rfl := Except.ok.inj hhere
        have hroot : s.world.fs.workingDir.path.isAbsolute = true := rfl
        rw [Path.isAbsolute_join habsolute (Path.chars_ne_nil_of_isAbsolute hroot), hroot]
      rcases createScratchFrom_cases wrap (Path.chars_ne_nil_of_isAbsolute hjoin) 0
        (s.world.fs.nodes.entries.length + 1) s with herror | ⟨k, l, hmade⟩
      · exact .inl herror
      · exact .inr ⟨here.join given, k, l, rfl, hmade⟩

namespace IsMade

variable {fs fs' : FileSystem} {scratch : Path} {l : Location}

lemma find (h : IsMade fs scratch l) :
    (fs.put l .directory).find scratch = .ok (l, .directory) := by
  obtain ⟨dir, n, rfl, hentry, hn⟩ := h.exists_isEntry
  exact hentry.find_directory hn h.isShort h.free

lemma isScratch (h : IsMade fs scratch l) (hfs : fs.IsTree) :
    IsScratch (fs.put l .directory) scratch l 0 :=
  isScratch_put hfs h.free h.find

/-- A scratch directory can be removed, with all that was put into it. -/
lemma removeTree_eq (h : IsMade fs scratch l) (hfs' : Extends (fs.put l .directory) fs') :
    fs'.removeTree scratch = .ok (fs'.removeAt l) := by
  obtain ⟨dir, n, rfl, hentry, hn⟩ := h.exists_isEntry
  have hnode := hfs'.nodeAt (nodeAt_put_self (List.concat_ne_nil n dir) fs .directory)
  have hentry' := (hentry.mono (.put_free h.free _)).mono hfs'.grows
  rw [FileSystem.removeTree, hentry'.resolve hn h.isShort (.inl rfl), placeAt, hnode]
  rfl

end IsMade

/-- Between two states, no files are changed, or a scratch directory is made where nothing is,
things are put into it, and it is removed again. -/
inductive ScratchVisit (place : Option Path) (called : List Placement) (s s' : Recorded) :
    Prop where
  | nothing (hfs : s'.world.fs = s.world.fs) (hhistory : s'.history = s.history)
  | scratch (parent : Path) (k : Nat) (l : Location) (ps : List Placement) (hps : ps <+: called)
    (hparent : s.world.scratchParent place = .ok parent)
    (hfind : (s.world.fs.put l .directory).find (parent.child (scratchName k)) =
      .ok (l, .directory))
    (hfree : s.world.fs.nodeAt l = none) (hfs : s'.world.fs = s.world.fs)
    (hkept : ∀ fs ∈ Placement.states l (s.world.fs.put l .directory) ps,
      Extends (s.world.fs.put l .directory) fs)
    (hhistory : s'.history = s.history ++ (s.world.fs.put l .directory ::
      Placement.states l (s.world.fs.put l .directory) ps ++ [s.world.fs]))

/-- However the work in a scratch directory ends, the directory is removed. -/
lemma state_withScratch {work : Path → Attempt Recorded ε α} {s₁ : Recorded} {fs : FileSystem}
    {scratch : Path} (hcreate : (createScratch wrap place).run.run s = (.ok scratch, s₁))
    (hremove : ((work scratch).run.run s₁).2.world.fs.removeTree scratch = .ok fs) :
    ((withScratch wrap place work).run.run s).2 =
      HasFiles.withFiles ((work scratch).run.run s₁).2 fs := by
  rw [withScratch, Attempt.run_bind_ok hcreate, Attempt.run_bind_ok (Attempt.run_outcome _ _)]
  rcases hrun : (work scratch).run.run s₁ with ⟨_ | x, s₂⟩
  all_goals
    rw [hrun] at hremove
    simp only [Attempt.run_bind, Attempt.run_settle, Attempt.run_wrapping, removeTree,
      Attempt.run_change, HasFiles.files, hremove]
    rfl

/-- Work that puts things into its scratch directory leaves the files as they were, whether it fails
or not. -/
theorem scratchVisit_withScratch {called : List Placement} {work : Path → Attempt Recorded ε α}
    (hfs : s.world.fs.IsTree)
    (hwork : ∀ {scratch l s}, IsScratch s.world.fs scratch l 0 →
      ∃ ps, ps <+: called ∧ Placing l s ps ((work scratch).run.run s).2) :
    ScratchVisit place called s ((withScratch wrap place work).run.run s).2 := by
  rcases createScratch_cases wrap place s with
    ⟨e, hcreate⟩ | ⟨parent, k, l, hparent, hmade, hcreate⟩
  · rw [withScratch, Attempt.run_bind_error hcreate]
    exact .nothing rfl rfl
  have hscratch : IsScratch (HasFiles.withFiles s (s.world.fs.put l .directory)).world.fs
      (parent.child (scratchName k)) l 0 := hmade.isScratch hfs
  obtain ⟨ps, hps, hplacing⟩ := hwork hscratch
  have hremove := hmade.removeTree_eq hplacing.extends_final
  have hhistory := hplacing.history_eq
  -- the removal takes back the scratch directory and all that was put into it
  rw [hplacing.removeAt_eq] at hremove
  simp only [HasFiles.withFiles, removeAt_put List.prefix_rfl,
    hfs.removeAt_eq_self hmade.free] at hremove hhistory
  rw [state_withScratch hcreate hremove]
  refine .scratch parent k l ps hps hparent hmade.find hmade.free rfl (fun fs => hplacing.extends_of_mem) ?_
  simp only [HasFiles.withFiles, hhistory, List.append_assoc, List.cons_append, List.nil_append]

end Scratch

/-! ### Runs without a history -/

namespace Attempt.Erases

variable {ε α : Type} {wrap : ScratchError → ε}

lemma createScratchFrom (parent : Path) (n tries : Nat) :
    Erases (ConstPromotion.createScratchFrom wrap parent n tries : Attempt Recorded ε Path)
      (ConstPromotion.createScratchFrom wrap parent n tries) := by
  induction tries generalizing n with
  | zero => exact .throw _
  | succ tries ih =>
    simp only [ConstPromotion.createScratchFrom]
    apply Erases.bind (.outcome (.change _))
    intro made
    rcases made with e | _
    · cases e <;> first | exact ih _ | exact .throw _
    · exact .pure _

lemma createScratch (place : Option Path) :
    Erases (ConstPromotion.createScratch wrap place : Attempt Recorded ε Path)
      (ConstPromotion.createScratch wrap place) := by
  have hmake (parent : Path) : Erases
      (Attempt.query (·.nodes.entries.length) >>= fun n =>
        ConstPromotion.createScratchFrom wrap parent 0 (n + 1) : Attempt Recorded ε Path)
      (Attempt.query (·.nodes.entries.length) >>= fun n =>
        ConstPromotion.createScratchFrom wrap parent 0 (n + 1)) :=
    .bind (.query _) fun _ => .createScratchFrom _ _ _
  simp only [ConstPromotion.createScratch]
  split
  · apply Erases.bind (.pure _)
    intro given
    split_ifs
    · exact .bind (.pure _) hmake
    · exact .bind (.wrapping (.inspect _) _) fun here => .bind (.pure _) hmake
  · apply Erases.bind (.onWorld _)
    intro given
    split_ifs
    · exact .bind (.pure _) hmake
    · exact .bind (.wrapping (.inspect _) _) fun here => .bind (.pure _) hmake

lemma withScratch {place : Option Path} {work : Path → Attempt Recorded ε α}
    {work' : Path → Action ε α} (h : ∀ scratch, Erases (work scratch) (work' scratch)) :
    Erases (ConstPromotion.withScratch wrap place work)
      (ConstPromotion.withScratch wrap place work') := by
  simp only [ConstPromotion.withScratch]
  apply Erases.bind (.createScratch place)
  intro scratch
  apply Erases.bind (.outcome (h scratch))
  intro result
  cases result with
  | ok x => exact .bind (.wrapping (.change _) _) fun _ => .pure _
  | error e => exact .bind (.settle (.change _)) fun _ => .throw _

lemma inspectMember (inspector : SectionInspector) (archive scratch : Path) (index : Nat)
    (m : ArchiveMember) :
    Erases (ConstPromotion.inspectMember inspector archive scratch index m : Attempt Recorded _ _)
      (ConstPromotion.inspectMember inspector archive scratch index m) := by
  simp only [ConstPromotion.inspectMember]
  split
  · exact .pure _
  split
  · exact .throw _
  · exact .bind (.wrapping (.change _) _) fun _ => .bind (.wrapping (.change _) _) fun _ =>
      .wrapping (.onWorld _) _

lemma inspectMembers (inspector : SectionInspector) (sectionName : String) (archive scratch : Path)
    (index : Nat) (members : List (Except ArchiveError ArchiveMember)) :
    Erases (ConstPromotion.inspectMembers inspector sectionName archive scratch index members :
        Attempt Recorded _ _)
      (ConstPromotion.inspectMembers inspector sectionName archive scratch index members) := by
  induction members generalizing index with
  | nil => exact .pure _
  | cons m members ih =>
    cases m with
    | error e => exact .throw _
    | ok m =>
      simp only [ConstPromotion.inspectMembers]
      exact .bind (.inspectMember _ _ _ _ _) fun _ => .bind (ih _) fun _ => .pure _

lemma collectRecords (inspector : SectionInspector) (sectionName : String) (place : Option Path)
    (archive : Path) :
    Erases (ConstPromotion.collectRecords inspector sectionName place archive :
        Attempt Recorded _ _)
      (ConstPromotion.collectRecords inspector sectionName place archive) := by
  simp only [ConstPromotion.collectRecords]
  apply Erases.bind (.wrapping (.inspect _) _)
  intro file
  split
  · exact .throw _
  · exact .withScratch fun _ => .inspectMembers _ _ _ _ _ _

end Attempt.Erases

/-! ### Archives -/

/-- Collecting the sections of an archive changes nothing, or works in a scratch directory after the
file was read as an archive. -/
theorem scratchVisit_collectRecords (hsilent : inspector.IsSilent) (sectionName : String)
    (place : Option Path) (archive : Path) (hfs : s.world.fs.IsTree) :
    ((collectRecords inspector sectionName place archive).run.run s).2 = s ∨
      ∃ file a, s.world.fs.read archive = .ok file ∧ Archive.open? file = .ok a ∧
        ScratchVisit place (Placement.ofMembers 0 a.members) s
          ((collectRecords inspector sectionName place archive).run.run s).2 := by
  rw [collectRecords]
  simp only [Attempt.run_bind, Attempt.run_wrapping, readBytes, Attempt.run_inspect, HasFiles.files]
  cases hread : s.world.fs.read archive with
  | error e => exact .inl rfl
  | ok file =>
    simp only [Except.mapError]
    cases hopen : Archive.open? file with
    | error e => exact .inl rfl
    | ok a =>
      exact .inr ⟨file, a, rfl, hopen, scratchVisit_withScratch hfs fun hscratch =>
        placing_inspectMembers hsilent sectionName archive a.members hscratch⟩

lemma run_verifyArchive {σ : Type} [HasWorld σ] (inspector : SectionInspector)
    (sectionName : String) (place : Option Path) (archive : Path) (s : σ) :
    (verifyArchive inspector sectionName place archive).run.run s =
      (((collectRecords inspector sectionName place archive).run.run s).1.map .ofRecords,
        ((collectRecords inspector sectionName place archive).run.run s).2) :=
  Attempt.run_bind_pure _ _ s

/-- However verification ends, the files are as they were before. In between there is, if anything,
a scratch directory in the place for these, where nothing was, with a directory for each member that
was got to and a file with a single name in it, and all that was there before is where it was. -/
theorem history_of_collectRecords {w : World} (hfs : w.fs.IsTree) (hsilent : inspector.IsSilent)
    (sectionName : String) (place : Option Path) (archive : Path) :
    ∃ result w' history,
      (collectRecords inspector sectionName place archive).run.run w = (result, w') ∧
      (verifyArchive inspector sectionName place archive).run.run w = (result.map .ofRecords, w') ∧
      (collectRecords inspector sectionName place archive).run.run (⟨w, []⟩ : Recorded) =
        (result, ⟨w', history⟩) ∧
      w'.fs = w.fs ∧ (∀ fs ∈ history, Extends w.fs fs) ∧
      (history = [] ∨ ∃ file a parent k l ps, w.fs.read archive = .ok file ∧
        Archive.open? file = .ok a ∧ w.scratchParent place = .ok parent ∧
        (w.fs.put l .directory).find (parent.child (scratchName k)) = .ok (l, .directory) ∧
        w.fs.nodeAt l = none ∧
        history = w.fs.put l .directory :: Placement.states l (w.fs.put l .directory) ps ++ [w.fs] ∧
        ps <+: Placement.ofMembers 0 a.members ∧
        (ps.Pairwise fun p q => p.location ≠ q.location) ∧
        ∀ index name data, .file index name data ∈ ps → Path.IsEntryName name) := by
  have herase := Attempt.Erases.collectRecords inspector sectionName place archive ⟨w, []⟩
  have hvisit := scratchVisit_collectRecords (s := ⟨w, []⟩) hsilent sectionName place archive hfs
  rcases hrun : (collectRecords inspector sectionName place archive).run.run (⟨w, []⟩ : Recorded)
    with ⟨result, w', history⟩
  rw [hrun] at herase hvisit
  have hverify := run_verifyArchive inspector sectionName place archive w
  rw [herase] at hverify
  refine ⟨result, w', history, herase, hverify, rfl, ?_⟩
  rcases hvisit with hnothing | ⟨file, a, hread, hopen, hvisit⟩
  · obtain ⟨rfl, rfl⟩ := Recorded.mk.inj hnothing
    exact ⟨rfl, by simp, .inl rfl⟩
  cases hvisit with
  | nothing hsame hhistory =>
    obtain rfl : history = [] := hhistory
    exact ⟨hsame, by simp, .inl rfl⟩
  | scratch parent k l ps hps hparent hfind hfree hsame hkept hhistory =>
    obtain rfl : history = _ := hhistory
    have hmade : Extends w.fs (w.fs.put l .directory) := Extends.put hfree _
    refine ⟨hsame, ?_, .inr ⟨file, a, parent, k, l, ps, hread, hopen, hparent, hfind, hfree, rfl,
      hps, ?_, ?_⟩⟩
    · intro fs hmem
      simp only [List.nil_append, List.mem_append, List.mem_cons, List.not_mem_nil,
        or_false] at hmem
      rcases hmem with (rfl | hmem) | rfl
      · exact hmade
      · exact hmade.trans (hkept fs hmem)
      · exact .refl _
    · exact (Placement.pairwise_location_ne 0 a.members).sublist hps.sublist
    · intro index name data hmem
      exact Placement.isEntryName_of_mem_ofMembers (hps.subset hmem)

/-! ### A member whose name leads elsewhere -/

namespace Escaping

/-- An archive of one member, whose name leads out of every directory. -/
def archiveBytes : Bytes :=
  bytesOf "!<arch>\n#1/9            0           0     0     644     12        `\n../../x.oabc"

/-- A world that holds the archive and a directory. -/
def world : World where
  fs := ⟨.ofList [(["a".toList], .file archiveBytes false), (["t".toList], .directory)], []⟩
  env := .empty

/-- An inspector that always fails. -/
def crashing : SectionInspector := ⟨"crashing", fun _ => throw (.tool "crash")⟩

lemma isSilent_crashing : crashing.IsSilent := fun _ _ => rfl

/-- The member is put into its directory under the name of a file, the inspector fails, and nothing
is left. -/
theorem history_of_collectRecords_escaping :
    world.fs.IsTree ∧ crashing.IsSilent ∧
      ∃ w' history, (collectRecords crashing ".a" (some (.ofString "/t")) (.ofString "/a")).run.run
          (⟨world, []⟩ : Recorded) = (.error (.inspect (.tool "crash")), ⟨w', history⟩) ∧
        w'.fs = world.fs ∧ history.map (·.nodes.keys.length) = [3, 4, 5, 2] := by
  have htree : world.fs.IsTree := FileSystem.isTree_of_forall (by decide +kernel)
  have herror : ((collectRecords crashing ".a" (some (.ofString "/t")) (.ofString "/a")).run.run
      (⟨world, []⟩ : Recorded)).1 = .error (.inspect (.tool "crash")) := by decide +kernel
  have hlengths : ((collectRecords crashing ".a" (some (.ofString "/t")) (.ofString "/a")).run.run
      (⟨world, []⟩ : Recorded)).2.history.map (·.nodes.keys.length) = [3, 4, 5, 2] := by
    decide +kernel
  obtain ⟨result, w', history, -, -, hrun, hsame, -⟩ :=
    history_of_collectRecords htree isSilent_crashing ".a" (some (.ofString "/t")) (.ofString "/a")
  rw [hrun] at herror hlengths
  obtain rfl : result = _ := herror
  exact ⟨htree, isSilent_crashing, w', history, hrun, hsame, hlengths⟩

end Escaping

end ConstPromotion
