import ConstPromotion.Proofs.Backup.Naming
import ConstPromotion.Proofs.Patch.Files

/-!
# Backups over whole runs

A store of backups stays in use while files are promoted, again and again, and while others write
files beside the backups. Each promotion has a disk of its own, so that what is refused once may be
let through later. As long as the paths are plain and those of the backups can be followed, what the
store remembers is what is there, and a backup that was made once keeps the content that it was made
from.

That they can be followed matters. A path that is too long, or that the disk does not let through,
leads nowhere, so the store remembers that there is no backup, and a later promotion believes it.
-/

namespace ConstPromotion

/-- What happens while a store of backups is in use. -/
inductive StoreEvent where
  /-- A file is promoted, and the disk may refuse a step of that. -/
  | patch (disk : Disk) (path : Path)
  /-- Somebody else writes a file, if it can be written. -/
  | edit (path : Path) (content : Bytes)

/-- A file is promoted on some disk. -/
def Promotes (events : List StoreEvent) (source : Path) : Prop :=
  ∃ disk, .patch disk source ∈ events

namespace Guarded

/-- The state after something happened. -/
def after (options : PatchOptions) (dryRun : Bool) (g : Guarded) : StoreEvent → Guarded
  | .patch disk path => ((patchFileOn disk options dryRun path).run.run g).2
  | .edit path content => { g with fs := (g.fs.write path content).toOption.getD g.fs }

/-- The state after several things happened. -/
def afterAll (options : PatchOptions) (dryRun : Bool) (g : Guarded) (events : List StoreEvent) :
    Guarded :=
  events.foldl (after options dryRun) g

end Guarded

/-- A path that is plain, and whose backups have paths that are not too long. -/
structure BackupPolicy.Serves (policy : BackupPolicy) (suffix : List Char) (source : Path) :
    Prop where
  isPlain : source.IsPlain
  isShort : ∀ content, (policy.path source suffix content).IsShort

/-- The files that are promoted can have backups, and nobody else writes where these belong. -/
structure BackupPolicy.Allows (policy : BackupPolicy) (suffix : List Char)
    (events : List StoreEvent) : Prop where
  serves : ∀ source, Promotes events source → policy.Serves suffix source
  /-- The disk lets the paths of the backups through, whatever else it refuses. -/
  follows : ∀ disk source, .patch disk source ∈ events → ∀ content,
    disk.pathError? (policy.path source suffix content) = none
  isPlain : ∀ p content, .edit p content ∈ events → p.IsPlain
  apart : ∀ p content, .edit p content ∈ events → ∀ source, Promotes events source →
    ∀ old, ¬ p.same (policy.path source suffix old)

variable {disk : Disk} {options : PatchOptions} {dryRun : Bool} {policy : BackupPolicy}
  {suffix : List Char} {used : Path → Prop} {g g' : Guarded} {fs fs' : FileSystem}
  {source p q : Path} {content : Bytes} {dir : Location} {n : Name}

/-! ### Entries with plain paths -/

namespace FileSystem

/-- A plain path stands for an entry and can be followed. -/
structure IsPlainEntry (fs : FileSystem) (p : Path) (dir : Location) (n : Name) : Prop extends
    fs.IsEntry p dir n where
  isPlain : p.IsPlain
  isShort : p.IsShort

namespace IsPlainEntry

lemma names_eq (h : fs.IsPlainEntry p dir n) (hlinks : fs.IsLinkFree []) : p.names = dir ++ [n] :=
  h.toIsEntry.names_eq hlinks h.isPlain.isAbsolute h.isPlain.parent_notMem

lemma mono (h : fs.IsPlainEntry p dir n) (hgrows : Grows fs fs') : fs'.IsPlainEntry p dir n :=
  ⟨h.toIsEntry.mono hgrows, h.isPlain, h.isShort⟩

lemma same_iff {dir' : Location} {m : Name} (h : fs.IsPlainEntry p dir n)
    (h' : fs.IsPlainEntry q dir' m) (hlinks : fs.IsLinkFree []) :
    p.same q ↔ dir ++ [n] = dir' ++ [m] := by
  rw [h.isPlain.same_iff h'.isPlain, h.names_eq hlinks, h'.names_eq hlinks]

/-- Two paths of one entry agree on whether it is there. -/
lemma exists?_eq (h : fs.IsPlainEntry p dir n) (h' : fs'.IsPlainEntry q dir n)
    (hlinks : fs.IsLinkFree []) (hlinks' : fs'.IsLinkFree [])
    (hnode : fs.nodeAt (dir ++ [n]) = none ↔ fs'.nodeAt (dir ++ [n]) = none) :
    fs.exists? p = fs'.exists? q := by
  rw [Bool.eq_iff_iff, h.exists?_iff (hlinks _), h'.exists?_iff (hlinks' _), ne_eq, ne_eq, hnode]
  simp [h.isShort, h'.isShort]

/-- Whether an entry is there does not change while its location stays free. -/
lemma exists?_eq_of_grows (h : fs.IsPlainEntry p dir n) (hgrows : Grows fs fs')
    (hlinks : fs.IsLinkFree []) (hlinks' : fs'.IsLinkFree [])
    (hfree : fs.nodeAt (dir ++ [n]) = none → fs'.nodeAt (dir ++ [n]) = none) :
    fs'.exists? p = fs.exists? p :=
  (h.mono hgrows).exists?_eq h hlinks' hlinks ⟨hgrows.nodeAt_eq_none, hfree⟩

end IsPlainEntry

/-- A backup that can be read has a plain path. -/
lemma exists_isPlainEntry_of_read {old : Bytes} (hsuffix : IsSuffix suffix)
    (hserves : policy.Serves suffix source)
    (hread : fs.read (policy.path source suffix content) = .ok old) :
    ∃ dir n, fs.IsPlainEntry (policy.path source suffix content) dir n := by
  obtain ⟨l, executable, hfind⟩ := read_eq_ok_iff.mp hread
  obtain ⟨dir, n, hentry, -⟩ := exists_isEntry_of_find hfind (by simp)
  have hshort := hserves.isShort content
  obtain ⟨-, before, -, -, hpieces, -⟩ := hentry.leads
  have hlast := congrArg List.getLast? hpieces
  rw [List.getLast?_concat, policy.path_eq] at hlast
  have hplain := hserves.isPlain.backupPath (BackupPolicy.isSuffix_tail hsuffix policy content)
    hlast hentry.isEntryName
  rw [← policy.path_eq] at hplain
  exact ⟨dir, n, hentry, hplain, hshort⟩

/-- A plain path to a file stands for an entry, and so do the paths of its backups. -/
lemma exists_isPlainEntry (hlinks : fs.IsLinkFree []) (hsuffix : IsSuffix suffix)
    (hserves : policy.Serves suffix source) (hread : fs.read source = .ok content) :
    ∃ dir n, source.names = dir ++ [n] ∧ ∀ old,
      fs.IsPlainEntry (policy.path source suffix old) dir (n ++ policy.tail suffix old) := by
  obtain ⟨l, executable, hfind⟩ := read_eq_ok_iff.mp hread
  obtain ⟨dir, n, hentry, -⟩ := exists_isEntry_of_find hfind (by simp)
  have hplain := hserves.isPlain
  refine ⟨dir, n, hentry.names_eq hlinks hplain.isAbsolute hplain.parent_notMem, fun old => ?_⟩
  have htail := BackupPolicy.isSuffix_tail hsuffix policy old
  have hbackup := hentry.backupPath htail
  obtain ⟨-, before, -, -, hpieces, -⟩ := hbackup.leads
  have hshort := hserves.isShort old
  rw [policy.path_eq] at hshort ⊢
  exact ⟨hbackup, hplain.backupPath htail (by rw [hpieces, List.getLast?_concat])
    hbackup.isEntryName, hshort⟩

end FileSystem

/-! ### The invariant -/

/-- The store is right about every path that it knows, and knows only backups of files that were
promoted. -/
structure Guarded.IsSound (policy : BackupPolicy) (suffix : List Char) (used : Path → Prop)
    (g : Guarded) : Prop where
  isTree : g.fs.IsTree
  isLinkFree : g.fs.IsLinkFree []
  path_eq : g.store.path = fun source content => policy.path source suffix content
  remembers : ∀ q present, g.store.lookup q = some present → ∃ source content dir n,
    used source ∧ q.same (policy.path source suffix content) ∧
      g.fs.IsPlainEntry (policy.path source suffix content) dir n ∧
      g.fs.exists? (policy.path source suffix content) = present

namespace Guarded.IsSound

/-- What the store holds of a backup is whether it is there. -/
lemma holds_eq (h : g.IsSound policy suffix used)
    (hentry : g.fs.IsPlainEntry p dir n) (hfollows : disk.pathError? p = none) :
    g.holds disk p = g.fs.exists? p := by
  rw [holds, Disk.exists?_eq hfollows]
  cases hlookup : g.store.lookup p with
  | none => rfl
  | some present =>
    obtain ⟨source, content, dir', n', -, hsame, hentry', hexists⟩ := h.remembers p present hlookup
    obtain ⟨rfl, hname⟩ := List.append_inj' ((hentry.same_iff hentry' h.isLinkFree).mp hsame) rfl
    obtain rfl := List.singleton_inj.mp hname
    rw [Option.getD_some, ← hexists]
    exact hentry'.exists?_eq hentry h.isLinkFree h.isLinkFree Iff.rfl

/-- The store stays right when it is asked. -/
lemma asked (h : g.IsSound policy suffix used) (hused : used source)
    (hentry : g.fs.IsPlainEntry (policy.path source suffix content) dir n)
    (hfollows : disk.pathError? (policy.path source suffix content) = none) :
    (g.asked disk (policy.path source suffix content)).IsSound policy suffix used := by
  refine ⟨?_, ?_, ?_, fun q present hlookup => ?_⟩
  · rw [fs_asked]
    exact h.isTree
  · rw [fs_asked]
    exact h.isLinkFree
  · rw [path_asked]
    exact h.path_eq
  · rw [fs_asked]
    rw [lookup_asked] at hlookup
    split_ifs at hlookup with hsame
    · rw [Option.some_inj, h.holds_eq hentry hfollows] at hlookup
      exact ⟨source, content, dir, n, hused, hsame, hentry, hlookup⟩
    · exact h.remembers q present hlookup

/-- The store stays right when files are written, if they are not put where it knows of nothing. -/
lemma written (h : g.IsSound policy suffix used) (hwritten : FileSystem.Written g.fs fs')
    (hfree : ∀ source content dir n, used source →
      g.fs.IsPlainEntry (policy.path source suffix content) dir n →
      g.fs.nodeAt (dir ++ [n]) = none → fs'.nodeAt (dir ++ [n]) = none) :
    ({ g with fs := fs' } : Guarded).IsSound policy suffix used := by
  have hgrows := hwritten.grows h.isTree
  have hlinks := hwritten.isLinkFree h.isTree h.isLinkFree
  refine ⟨hwritten.isTree h.isTree, hlinks, h.path_eq, fun q present hlookup => ?_⟩
  obtain ⟨source, content, dir, n, hused, hsame, hentry, hexists⟩ := h.remembers q present hlookup
  refine ⟨source, content, dir, n, hused, hsame, hentry.mono hgrows, ?_⟩
  rw [hentry.exists?_eq_of_grows hgrows h.isLinkFree hlinks (hfree source content dir n hused hentry),
    hexists]

/-- The store stays right when it remembers a backup that was made. -/
lemma made (h : g.IsSound policy suffix used) (hused : used source)
    (hentry : g.fs.IsPlainEntry (policy.path source suffix content) dir n)
    (hwrite : g.fs.write (policy.path source suffix content) content = .ok fs') :
    (⟨fs', g.store.remember (policy.path source suffix content) true⟩ : Guarded).IsSound policy
      suffix used := by
  have hwritten : FileSystem.Written g.fs fs' := .write .refl hwrite
  have hgrows := hwritten.grows h.isTree
  have hlinks := hwritten.isLinkFree h.isTree h.isLinkFree
  obtain ⟨l, executable, hput, htakes, -, hfind⟩ :=
    FileSystem.exists_put_of_write h.isTree hwrite
  obtain ⟨-, -, rfl, -⟩ := ((hentry.mono hgrows).find_iff (hlinks _)).mp hfind
  refine ⟨hwritten.isTree h.isTree, hlinks, h.path_eq, fun q present hlookup => ?_⟩
  rw [BackupStore.lookup_remember] at hlookup
  split_ifs at hlookup with hsame
  · obtain rfl := Option.some.inj hlookup
    exact ⟨source, content, dir, n, hused, hsame, hentry.mono hgrows,
      FileSystem.exists?_eq_true_iff.mpr ⟨_, _, hfind⟩⟩
  · obtain ⟨source', content', dir', n', hused', hsame', hentry', hexists⟩ :=
      h.remembers q present hlookup
    refine ⟨source', content', dir', n', hused', hsame', hentry'.mono hgrows, ?_⟩
    rw [hentry'.exists?_eq_of_grows hgrows h.isLinkFree hlinks, hexists]
    intro hnone
    -- the backup that was made is not at a path that the store remembers otherwise
    rw [hput, FileSystem.nodeAt_put_of_ne htakes.ne_nil ?_, hnone]
    intro heq
    have hboth := (hentry'.same_iff hentry h.isLinkFree).mpr heq.symm
    rw [Path.same, decide_eq_true_eq] at hsame' hboth
    exact hsame (decide_eq_true (hsame'.trans hboth))

/-- The store stays right when the backup of a file is kept. -/
lemma keeping (h : g.IsSound policy suffix used) (hused : used source)
    (hentry : g.fs.IsPlainEntry (policy.path source suffix content) dir n)
    (hfollows : disk.pathError? (policy.path source suffix content) = none)
    {result : Except BackupError BackupOutcome}
    (hkeeping : Keeping disk source content g result g') : g'.IsSound policy suffix used := by
  have hpath : g.store.path source content = policy.path source suffix content := by
    rw [h.path_eq]
  cases hkeeping with
  | refused => exact h
  | kept =>
    rw [hpath]
    exact h.asked hused hentry hfollows
  | failed =>
    rw [hpath]
    exact h.asked hused hentry hfollows
  | made fs' _ _ _ hwrite =>
    rw [hpath] at hwrite ⊢
    have hasked := h.asked hused hentry hfollows
    rw [← fs_asked] at hentry hwrite
    exact hasked.made hused hentry hwrite

/-- The store stays right when a file is promoted. -/
theorem patching (h : g.IsSound policy suffix used) (hsuffix : IsSuffix suffix)
    (hserves : policy.Serves suffix source)
    (hfollows : ∀ content, disk.pathError? (policy.path source suffix content) = none)
    (hused : used source) {result : Except PatchError FileOutcome}
    (hpatching : Patching disk options dryRun source g result g') :
    g'.IsSound policy suffix used := by
  have hkept {content : Bytes} {kept : Except BackupError BackupOutcome} {g₁ : Guarded}
      (hread : g.fs.read source = .ok content) (hkeeping : Keeping disk source content g kept g₁) :
      g₁.IsSound policy suffix used := by
    obtain ⟨dir, n, -, hentry⟩ :=
      FileSystem.exists_isPlainEntry h.isLinkFree hsuffix hserves hread
    exact h.keeping hused (hentry content) (hfollows content) hkeeping
  cases hpatching with
  | missing | unread | unchanged | dryRun => exact h
  | unprotected content _ _ hread _ _ hkeeping => exact hkept hread hkeeping
  | unwritten content _ _ _ hread _ _ hkeeping => exact hkept hread hkeeping
  | patched content backup g₁ fs' hread _ _ hkeeping hwrite =>
    refine (hkept hread hkeeping).written (.write .refl hwrite) fun _ _ dir n _ _ hfree => ?_
    obtain ⟨l, executable, executable', -, htakes, hthere, rfl⟩ :=
      exists_put_of_keeping h.isTree hread hkeeping hwrite
    rw [FileSystem.nodeAt_put_of_ne htakes.ne_nil ?_, hfree]
    rintro rfl
    exact hthere hfree

/-- What the store holds missing is missing, for the backups of a file that is there. -/
lemma exists?_eq_false (h : g.IsSound policy suffix used) (hsuffix : IsSuffix suffix)
    (hserves : policy.Serves suffix source)
    (hfollows : ∀ content, disk.pathError? (policy.path source suffix content) = none)
    (old : Bytes) (hread : g.fs.read source = .ok old)
    (hholds : g.holds disk (g.store.path source old) = false) :
    disk.exists? g.fs (g.store.path source old) = false := by
  obtain ⟨dir, n, -, hentry⟩ :=
    FileSystem.exists_isPlainEntry h.isLinkFree hsuffix hserves hread
  rw [h.path_eq] at hholds ⊢
  rwa [Disk.exists?_eq (hfollows old), ← h.holds_eq (hentry old) (hfollows old)]

end Guarded.IsSound

/-! ### Events -/

variable {events before later : List StoreEvent} {event : StoreEvent} {old new : Bytes}

lemma Guarded.written_after (options : PatchOptions) (dryRun : Bool) (g : Guarded)
    (event : StoreEvent) :
    FileSystem.Written g.fs (g.after options dryRun event).fs := by
  cases event with
  | patch disk path => exact (patching_patchFileOn disk options dryRun path g).written
  | edit path content =>
    rw [after]
    cases hwrite : g.fs.write path content with
    | error e => exact .refl
    | ok fs' => exact .write .refl hwrite

namespace Guarded.IsSound

variable (h : g.IsSound policy suffix (Promotes events)) (hsuffix : IsSuffix suffix)
  (hallows : policy.Allows suffix events)

include h hallows

/-- Nobody else writes where a backup belongs. -/
lemma nodeAt_after_edit (options : PatchOptions) (dryRun : Bool)
    (hevent : .edit p new ∈ events) (hused : Promotes events source)
    (hplain : (policy.path source suffix old).IsPlain) :
    (g.after options dryRun (.edit p new)).fs.nodeAt (policy.path source suffix old).names =
      g.fs.nodeAt (policy.path source suffix old).names := by
  rw [after]
  cases hwrite : g.fs.write p new with
  | error e => rfl
  | ok fs' =>
    have hlinks := FileSystem.Written.isLinkFree (.write .refl hwrite) h.isTree h.isLinkFree
    obtain ⟨l, executable, rfl, htakes, -, hfind⟩ := FileSystem.exists_put_of_write h.isTree hwrite
    have hp := hallows.isPlain p new hevent
    obtain rfl := FileSystem.location_eq_names hlinks hp hfind
    refine FileSystem.nodeAt_put_of_ne htakes.ne_nil (fun heq => ?_) g.fs _
    exact hallows.apart p new hevent source hused old ((hp.same_iff hplain).mpr heq)

include hsuffix

/-- The store stays right whatever happens. -/
theorem after (hevent : event ∈ events) :
    (g.after options dryRun event).IsSound policy suffix (Promotes events) := by
  cases event with
  | patch disk path =>
    have hused : Promotes events path := ⟨disk, hevent⟩
    exact h.patching hsuffix (hallows.serves path hused) (hallows.follows disk path hevent) hused
      (patching_patchFileOn disk options dryRun path g)
  | edit path content =>
    have hwritten := g.written_after options dryRun (.edit path content)
    refine h.written hwritten fun source old dir n hused hentry hfree => ?_
    have hedit := h.nodeAt_after_edit hallows options dryRun hevent hused hentry.isPlain
    rw [hentry.names_eq h.isLinkFree, hfree] at hedit
    exact hedit

/-- A backup that is there stays as it is, unless it is promoted itself. -/
theorem read_after (hevent : event ∈ events) (hused : Promotes events source)
    (hother : ∀ disk p, event = .patch disk p → ¬ p.same (policy.path source suffix old))
    (hread : g.fs.read (policy.path source suffix old) = .ok content) :
    (g.after options dryRun event).fs.read (policy.path source suffix old) = .ok content := by
  have hserves := hallows.serves source hused
  obtain ⟨dir, n, hentry⟩ := FileSystem.exists_isPlainEntry_of_read hsuffix hserves hread
  have hnames := hentry.names_eq h.isLinkFree
  obtain ⟨l, executable, hfind⟩ := FileSystem.read_eq_ok_iff.mp hread
  obtain ⟨hname, -, rfl, hnode⟩ := (hentry.find_iff (h.isLinkFree _)).mp hfind
  have hafter : (g.after options dryRun event).IsSound policy suffix _ :=
    h.after hsuffix hallows hevent
  have hentry' := hentry.mono ((g.written_after options dryRun event).grows h.isTree)
  -- neither a promotion nor somebody else touches the node of the backup
  have hkept : (g.after options dryRun event).fs.nodeAt (dir ++ [n]) = g.fs.nodeAt (dir ++ [n]) := by
    cases event with
    | patch disk path =>
      have hpatching := patching_patchFileOn disk options dryRun path g
      have hserves := hallows.serves path ⟨disk, hevent⟩
      refine hpatching.nodeAt_eq h.isTree
        (h.exists?_eq_false hsuffix hserves (hallows.follows disk path hevent)) (by simp [hnode]) ?_
      intro node hpath
      have hsame := FileSystem.location_eq_names h.isLinkFree hserves.isPlain hpath
      rw [← hnames] at hsame
      exact hother disk path rfl ((hserves.isPlain.same_iff hentry.isPlain).mpr hsame.symm)
    | edit path content =>
      rw [← hnames]
      exact h.nodeAt_after_edit hallows options dryRun hevent hused hentry.isPlain
  refine FileSystem.read_eq_ok_iff.mpr ⟨dir ++ [n], executable, ?_⟩
  rw [hentry'.find_iff (hafter.isLinkFree _)]
  exact ⟨hname, hentry.isShort, rfl, by rw [hkept, hnode]⟩

/-- What is new at the place of a backup under the policy of the first write was put there by
promoting its file, up to the point of writing it. -/
theorem triedToWrite_of_new (hevent : event ∈ events) (hpolicy : policy = .firstWriteWins)
    (hused : Promotes events source) (hnames : source.names = dir ++ [n])
    (hbackup : (backupPath source suffix).IsPlain)
    (hbackupNames : (backupPath source suffix).names = dir ++ [n ++ suffix])
    (hfree : g.fs.nodeAt (dir ++ [n ++ suffix]) = none)
    (hnew : (g.after options dryRun event).fs.nodeAt (dir ++ [n ++ suffix]) ≠ none) :
    ∃ disk q, event = .patch disk q ∧ q.same source ∧
      TriedToWrite ((patchFileOn disk options dryRun q).run.run g).1 := by
  subst hpolicy
  cases event with
  | edit path content =>
    have hplain : (BackupPolicy.firstWriteWins.path source suffix []).IsPlain := hbackup
    have hedit : (g.after options dryRun (.edit path content)).fs.nodeAt
        (backupPath source suffix).names = g.fs.nodeAt (backupPath source suffix).names :=
      h.nodeAt_after_edit hallows options dryRun hevent hused hplain
    rw [hbackupNames, hfree] at hedit
    exact absurd hedit hnew
  | patch disk q =>
    have hserves := hallows.serves q ⟨disk, hevent⟩
    have hpatching := patching_patchFileOn disk options dryRun q g
    have hstore (content : Bytes) := h.exists?_eq_false hsuffix hserves
      (hallows.follows disk q hevent) content
    have hafter : (g.after options dryRun (.patch disk q)).IsSound _ suffix _ :=
      h.after hsuffix hallows hevent
    have htried := hpatching.triedToWrite_of_new h.isTree hstore hfree hnew
    obtain ⟨content, executable, hread, hfind⟩ := hpatching.find_of_new h.isTree hstore hfree hnew
    -- what is new is the backup of `q`, and names of backups tell apart what they are backups of
    obtain ⟨dir', n', hnames', hentry'⟩ :=
      FileSystem.exists_isPlainEntry h.isLinkFree hsuffix hserves hread
    have hgrows := hpatching.written.grows h.isTree
    rw [h.path_eq] at hfind
    obtain ⟨-, -, hlocation, -⟩ :=
      (((hentry' content).mono hgrows).find_iff (hafter.isLinkFree _)).mp hfind
    obtain ⟨rfl, rfl⟩ := backup_concat_inj.mp hlocation
    have hplain := (hallows.serves source hused).isPlain
    exact ⟨disk, q, rfl, (hserves.isPlain.same_iff hplain).mpr (hnames'.trans hnames.symm), htried⟩

end Guarded.IsSound

/-! ### Runs -/

namespace Guarded

lemma afterAll_append : g.afterAll options dryRun (before ++ later) =
    (g.afterAll options dryRun before).afterAll options dryRun later := List.foldl_append ..

lemma afterAll_concat : g.afterAll options dryRun (before ++ [event]) =
    (g.afterAll options dryRun before).after options dryRun event := by
  rw [afterAll_append]
  rfl

lemma written_afterAll : FileSystem.Written g.fs (g.afterAll options dryRun events).fs := by
  induction events using List.reverseRecOn with
  | nil => exact .refl
  | append_singleton before event ih =>
    rw [afterAll_concat]
    exact ih.trans (written_after options dryRun _ event)

/-- What is new after several things happened is new after one of them. -/
lemma exists_event_of_new {k : Location} (hfree : g.fs.nodeAt k = none)
    (hnew : (g.afterAll options dryRun events).fs.nodeAt k ≠ none) :
    ∃ before event later, events = before ++ event :: later ∧
      (g.afterAll options dryRun before).fs.nodeAt k = none ∧
      ((g.afterAll options dryRun before).after options dryRun event).fs.nodeAt k ≠ none := by
  induction events using List.reverseRecOn with
  | nil => exact absurd hfree hnew
  | append_singleton before event ih =>
    rw [afterAll_concat] at hnew
    by_cases hbefore : (g.afterAll options dryRun before).fs.nodeAt k = none
    · exact ⟨before, event, [], rfl, hbefore, hnew⟩
    · obtain ⟨before', event', later, rfl, hfree', hnew'⟩ := ih hbefore
      exact ⟨before', event', later ++ [event], by simp, hfree', hnew'⟩

namespace IsSound

variable {part : List StoreEvent}

lemma afterAll (h : g.IsSound policy suffix (Promotes events)) (hsuffix : IsSuffix suffix)
    (hallows : policy.Allows suffix events) (hpart : ∀ event ∈ part, event ∈ events) :
    (g.afterAll options dryRun part).IsSound policy suffix (Promotes events) := by
  induction part using List.reverseRecOn with
  | nil => exact h
  | append_singleton before event ih =>
    rw [afterAll_concat]
    exact (ih fun e he => hpart e (by simp [he])).after hsuffix hallows (hpart event (by simp))

lemma read_afterAll (h : g.IsSound policy suffix (Promotes events))
    (hsuffix : IsSuffix suffix) (hallows : policy.Allows suffix events)
    (hpart : ∀ event ∈ part, event ∈ events) (hused : Promotes events source)
    (hother : ∀ p, Promotes part p → ¬ p.same (policy.path source suffix old))
    (hread : g.fs.read (policy.path source suffix old) = .ok content) :
    (g.afterAll options dryRun part).fs.read (policy.path source suffix old) = .ok content := by
  induction part using List.reverseRecOn with
  | nil => exact hread
  | append_singleton before event ih =>
    have hbefore (e : StoreEvent) (he : e ∈ before) : e ∈ events := hpart e (by simp [he])
    rw [afterAll_concat]
    refine (h.afterAll hsuffix hallows hbefore).read_after hsuffix hallows
      (hpart event (by simp)) hused (fun disk p hp => hother p ⟨disk, by simp [hp]⟩) ?_
    exact ih hbefore fun p ⟨disk, hp⟩ => hother p ⟨disk, by simp [hp]⟩

end IsSound
end Guarded

/-- A store that is new. -/
lemma Guarded.isSound_new (hfs : fs.IsTree) (hlinks : fs.IsLinkFree []) :
    (⟨fs, { suffix, policy }⟩ : Guarded).IsSound policy suffix used :=
  ⟨hfs, hlinks, rfl, fun q present h => by simp [BackupStore.lookup] at h⟩

section Run

variable (options : PatchOptions) (dryRun : Bool) (policy : BackupPolicy) (suffix : List Char)
  (fs : FileSystem)

/-- The state after several things happened, from a new store on. -/
def runEvents (events : List StoreEvent) : Guarded :=
  Guarded.afterAll options dryRun ⟨fs, { suffix, policy }⟩ events

/-- What the promotion of a file comes to after several things happened. -/
def outcomeAfter (events : List StoreEvent) (disk : Disk) (path : Path) :
    Except PatchError FileOutcome :=
  ((patchFileOn disk options dryRun path).run.run
    (runEvents options dryRun policy suffix fs events)).1

end Run

lemma patching_outcomeAfter (before : List StoreEvent) (disk : Disk) (source : Path) :
    Patching disk options dryRun source (runEvents options dryRun policy suffix fs before)
      (outcomeAfter options dryRun policy suffix fs before disk source)
      (runEvents options dryRun policy suffix fs (before ++ [.patch disk source])) := by
  rw [runEvents, runEvents, Guarded.afterAll_concat, outcomeAfter, ← runEvents]
  exact patching_patchFileOn disk options dryRun source _

section Kept

variable {middle : List StoreEvent} {f : FileOutcome} (hfs : fs.IsTree)
  (hlinks : fs.IsLinkFree []) (hsuffix : IsSuffix suffix) (hallows : policy.Allows suffix events)

include hfs hlinks hsuffix hallows

lemma isSound_runEvents (options : PatchOptions) (dryRun : Bool)
    (hevents : events = before ++ later) :
    (runEvents options dryRun policy suffix fs before).IsSound policy suffix
      (Promotes events) :=
  (Guarded.isSound_new hfs hlinks).afterAll hsuffix hallows fun event hevent => by
    simp [hevents, hevent]

/-- The store is right about the backups of a file that is about to be promoted. -/
lemma exists?_eq_false_runEvents (hevents : events = before ++ .patch disk source :: later)
    (content : Bytes)
    (hread : (runEvents options dryRun policy suffix fs before).fs.read source = .ok content) :
    let g := runEvents options dryRun policy suffix fs before
    g.holds disk (g.store.path source content) = false →
      disk.exists? g.fs (g.store.path source content) = false :=
  have hevent : .patch disk source ∈ events := by simp [hevents]
  (isSound_runEvents hfs hlinks hsuffix hallows options dryRun hevents).exists?_eq_false hsuffix
    (hallows.serves source ⟨disk, hevent⟩) (hallows.follows disk source hevent) content hread

/-- Until it is tried to write a file there is no backup of it, unless there was one at the start:
nothing else could have put it there. -/
lemma exists?_eq_false_of_untried (hevents : events = before ++ .patch disk source :: later)
    (hmissing : fs.exists? (backupPath source suffix) = false)
    (hfirst : ∀ earlier disk' q between, before = earlier ++ .patch disk' q :: between →
      q.same source → ¬ TriedToWrite (outcomeAfter options dryRun policy suffix fs earlier disk' q))
    (hpolicy : policy = .firstWriteWins) (hnames : source.names = dir ++ [n])
    (hbackup : (runEvents options dryRun policy suffix fs before).fs.IsPlainEntry
      (backupPath source suffix) dir (n ++ suffix)) :
    (runEvents options dryRun policy suffix fs before).fs.exists? (backupPath source suffix) =
      false := by
  subst hpolicy
  have hsound := isSound_runEvents hfs hlinks hsuffix hallows options dryRun hevents
  by_contra hthere
  rw [Bool.not_eq_false] at hthere
  obtain ⟨l, node, hfind⟩ := FileSystem.exists?_eq_true_iff.mp hthere
  obtain ⟨-, -, rfl, hnode⟩ := (hbackup.find_iff (hsound.isLinkFree _)).mp hfind
  have hfree : fs.nodeAt (dir ++ [n ++ suffix]) = none :=
    (Guarded.written_afterAll.exists?_or_free hfs hfind).resolve_left (by simp [hmissing])
  have hnew : (runEvents options dryRun .firstWriteWins suffix fs before).fs.nodeAt
      (dir ++ [n ++ suffix]) ≠ none := by simp [hnode]
  obtain ⟨earlier, event, between, rfl, hfree', hnew'⟩ := Guarded.exists_event_of_new hfree hnew
  have hsplit : events = earlier ++ (event :: between ++ .patch disk source :: later) := by
    simp [hevents]
  have hearlier := isSound_runEvents hfs hlinks hsuffix hallows options dryRun hsplit
  obtain ⟨disk', q, rfl, hsame, htried⟩ :=
    hearlier.triedToWrite_of_new hsuffix hallows (by simp [hevents]) rfl
      ⟨disk, by simp [hevents]⟩ hnames hbackup.isPlain (hbackup.names_eq hsound.isLinkFree) hfree'
      hnew'
  exact hfirst earlier disk' q between rfl hsame htried

/-- The first promotion of a file that goes as far as writing it makes its backup, if there was none
at the start, and the backup holds what the file held then. It does not matter whether the file was
written after that. -/
lemma backup_of_first_try (hpolicy : policy = .firstWriteWins)
    (hevents : events = before ++ .patch disk source :: later)
    (hmissing : fs.exists? (backupPath source suffix) = false)
    (hfirst : ∀ earlier disk' q between, before = earlier ++ .patch disk' q :: between →
      q.same source → ¬ TriedToWrite (outcomeAfter options dryRun policy suffix fs earlier disk' q))
    (htried : TriedToWrite (outcomeAfter options dryRun policy suffix fs before disk source)) :
    (∀ f, outcomeAfter options dryRun policy suffix fs before disk source = .ok f →
      f.backup = some ⟨backupPath source suffix, true⟩) ∧
    ∃ content, (runEvents options dryRun policy suffix fs before).fs.read source = .ok content ∧
      (runEvents options dryRun policy suffix fs (before ++ [.patch disk source])).fs.read
        (backupPath source suffix) = .ok content := by
  subst hpolicy
  have hevent : .patch disk source ∈ events := by simp [hevents]
  have hsound := isSound_runEvents hfs hlinks hsuffix hallows options dryRun hevents
  obtain ⟨content, ⟨path, created⟩, hread, hpath, hbackup, hkept, hmade⟩ :=
    (patching_outcomeAfter before disk source).exists_backup hsound.isTree
      (exists?_eq_false_runEvents hfs hlinks hsuffix hallows hevents) htried
  obtain ⟨dir, n, hnames, hentry⟩ := FileSystem.exists_isPlainEntry hsound.isLinkFree hsuffix
    (hallows.serves source ⟨disk, hevent⟩) hread
  have hnone := exists?_eq_false_of_untried hfs hlinks hsuffix hallows hevents hmissing hfirst rfl
    hnames (hentry content)
  rw [hsound.path_eq] at hpath
  obtain rfl : path = backupPath source suffix := hpath
  -- the store does not hold that there is a backup, so it was made now
  have hholds := hsound.holds_eq (hentry content) (hallows.follows disk source hevent content)
  obtain rfl : created = true := by
    by_contra hnot
    have htrue := hkept (Bool.not_eq_true _ ▸ hnot)
    exact absurd ((hholds.symm.trans htrue).symm.trans hnone) (by simp)
  obtain ⟨l, executable, -, hfind⟩ := hmade rfl
  exact ⟨hbackup, content, hread, FileSystem.read_eq_ok_iff.mpr ⟨l, executable, hfind⟩⟩

/-- A backup that is reported as made holds what the file held before. -/
lemma read_of_created (hevents : events = before ++ .patch disk source :: later)
    (houtcome : outcomeAfter options dryRun policy suffix fs before disk source = .ok f)
    {backup : BackupOutcome} (hbackup : f.backup = some backup) (hcreated : backup.created = true) :
    ∃ content, (runEvents options dryRun policy suffix fs before).fs.read source = .ok content ∧
      (runEvents options dryRun policy suffix fs (before ++ [.patch disk source])).fs.read
        backup.path = .ok content := by
  have hsound := isSound_runEvents hfs hlinks hsuffix hallows options dryRun hevents
  obtain ⟨content, l, executable, hread, -, -, hfind⟩ :=
    (patching_outcomeAfter before disk source).read_backup hsound.isTree
      (exists?_eq_false_runEvents hfs hlinks hsuffix hallows hevents) houtcome hbackup hcreated
  exact ⟨content, hread, FileSystem.read_eq_ok_iff.mpr ⟨l, executable, hfind⟩⟩

/-- A backup that is there stays as it is while others are promoted. -/
lemma read_backup_of_read (hevents : events = before ++ middle ++ later)
    (hused : Promotes events source)
    (hother : ∀ p, Promotes middle p → ¬ p.same (policy.path source suffix old))
    (hread : (runEvents options dryRun policy suffix fs before).fs.read
      (policy.path source suffix old) = .ok content) :
    (runEvents options dryRun policy suffix fs (before ++ middle)).fs.read
      (policy.path source suffix old) = .ok content := by
  have hsplit : events = before ++ (middle ++ later) := by simp [hevents]
  have hsound := isSound_runEvents hfs hlinks hsuffix hallows options dryRun hsplit
  rw [runEvents, Guarded.afterAll_append]
  refine hsound.read_afterAll hsuffix hallows (fun event hevent => ?_) hused hother hread
  simp [hevents, hevent]

end Kept

/-- Over a whole run of promotions, each on a disk that may refuse it what it likes, and among which
others may write files, the store is right about all that it knows (first part), a backup stays as
it is unless it is promoted itself (second part), a backup that is reported as made holds what the
file held before (third part), and under the policy of the first write a file that had no backup at
the start has one from the first time on that it was tried to write the file, with what the file held
just before (fourth part). -/
theorem backups_of_run (hfs : fs.IsTree) (hlinks : fs.IsLinkFree []) (hsuffix : IsSuffix suffix)
    (hallows : policy.Allows suffix events) :
    (∀ before later, events = before ++ later → ∀ q present,
      (runEvents options dryRun policy suffix fs before).store.lookup q = some present →
      (∃ source content, Promotes events source ∧ q.same (policy.path source suffix content) ∧
        (runEvents options dryRun policy suffix fs before).fs.exists?
          (policy.path source suffix content) = present) ∧
      ∀ source content old, Promotes events source → q.same (policy.path source suffix content) →
        (runEvents options dryRun policy suffix fs before).fs.read source = .ok old →
        (runEvents options dryRun policy suffix fs before).fs.exists?
          (policy.path source suffix content) = present) ∧
    (∀ before middle later, events = before ++ middle ++ later → ∀ source old content,
      Promotes events source →
      (∀ p, Promotes middle p → ¬ p.same (policy.path source suffix old)) →
      (runEvents options dryRun policy suffix fs before).fs.read (policy.path source suffix old) =
        .ok content →
      (runEvents options dryRun policy suffix fs (before ++ middle)).fs.read
        (policy.path source suffix old) = .ok content) ∧
    (∀ before disk source later, events = before ++ .patch disk source :: later → ∀ f backup,
      outcomeAfter options dryRun policy suffix fs before disk source = .ok f →
      f.backup = some backup → backup.created = true →
      ∃ content, (runEvents options dryRun policy suffix fs before).fs.read source = .ok content ∧
        (runEvents options dryRun policy suffix fs (before ++ [.patch disk source])).fs.read
          backup.path = .ok content) ∧
    (policy = .firstWriteWins → ∀ before disk source later,
      events = before ++ .patch disk source :: later →
      fs.exists? (backupPath source suffix) = false →
      (∀ p, Promotes events p → ¬ p.same (backupPath source suffix)) →
      (∀ earlier disk' q between, before = earlier ++ .patch disk' q :: between → q.same source →
        ¬ TriedToWrite (outcomeAfter options dryRun policy suffix fs earlier disk' q)) →
      TriedToWrite (outcomeAfter options dryRun policy suffix fs before disk source) →
      (∀ f, outcomeAfter options dryRun policy suffix fs before disk source = .ok f →
        f.backup = some ⟨backupPath source suffix, true⟩) ∧
        ∃ content, (runEvents options dryRun policy suffix fs before).fs.read source = .ok content ∧
          (runEvents options dryRun policy suffix fs events).fs.read (backupPath source suffix) =
            .ok content) := by
  refine ⟨?known, ?kept, ?made, ?first⟩
  case known =>
    intro before later hevents q present hlookup
    have hsound := isSound_runEvents hfs hlinks hsuffix hallows options dryRun hevents
    refine ⟨?_, fun source content old hused hsame hread => ?_⟩
    · obtain ⟨source, content, -, -, hused, hsame, -, hexists⟩ :=
        hsound.remembers q present hlookup
      exact ⟨source, content, hused, hsame, hexists⟩
    · obtain ⟨dir, n, -, hentry⟩ := FileSystem.exists_isPlainEntry hsound.isLinkFree hsuffix
        (hallows.serves source hused) hread
      obtain ⟨disk, hevent⟩ := hused
      rw [BackupStore.lookup, of_decide_eq_true hsame, ← BackupStore.lookup] at hlookup
      rw [← hsound.holds_eq (hentry content) (hallows.follows disk source hevent content),
        Guarded.holds, hlookup, Option.getD_some]
  case kept =>
    intro before middle later hevents source old content hused hother hread
    exact read_backup_of_read hfs hlinks hsuffix hallows hevents hused hother hread
  case made =>
    intro before disk source later hevents f backup houtcome hbackup hcreated
    exact read_of_created hfs hlinks hsuffix hallows hevents houtcome hbackup hcreated
  case first =>
    rintro rfl before disk source later hevents hmissing hother hfirst htried
    obtain ⟨hbackup, content, hread, hkept⟩ :=
      backup_of_first_try hfs hlinks hsuffix hallows rfl hevents hmissing hfirst htried
    refine ⟨hbackup, content, hread, ?_⟩
    have hevents' : before ++ [.patch disk source] ++ later = events := by simp [hevents]
    have hused : Promotes events source := ⟨disk, by simp [hevents]⟩
    have hkept' : (runEvents options dryRun .firstWriteWins suffix fs
        (before ++ [.patch disk source])).fs.read
          (BackupPolicy.firstWriteWins.path source suffix content) = .ok content := hkept
    have hlater : ∀ p, Promotes later p → ¬ p.same (backupPath source suffix) := by
      rintro p ⟨disk', hp⟩
      exact hother p ⟨disk', by simp [hevents, hp]⟩
    have hend := read_backup_of_read hfs hlinks hsuffix hallows
      (by rw [hevents', List.append_nil]) hused hlater hkept'
    rw [hevents'] at hend
    exact hend

/-! ### A file that cannot be written at first, and a path that is too long -/

namespace Pristine

/-- A source file with a table. -/
def table : Bytes := bytesOf "static int t[4];\n"

/-- A tree that holds the table. -/
def tree : FileSystem :=
  ⟨.ofList [(["d".toList], .directory), (["d".toList, "x.c".toList], .file table false)], []⟩

/-- The disk that does not let a file be written. -/
def keepsFrom (p : Path) : Disk where
  writeError? _ q _ := if q = p then some .permissionDenied else none

/-- The backup of the table cannot be written, then the table itself cannot be. Somebody else writes
another table, and that is promoted. -/
def session : List StoreEvent :=
  [.patch (keepsFrom (.ofString "/d/x.c.orig")) (.ofString "/d/x.c"),
    .patch (keepsFrom (.ofString "/d/x.c")) (.ofString "/d/x.c"),
    .edit (.ofString "/d/x.c") (bytesOf "static char u[2];\n"),
    .patch .plain (.ofString "/d/./x.c")]

lemma patch_cases {disk : Disk} {source : Path} (h : .patch disk source ∈ session) :
    disk.pathError? = (fun _ => none) ∧
      (source = .ofString "/d/x.c" ∨ source = .ofString "/d/./x.c") := by
  simp only [session, List.mem_cons, StoreEvent.patch.injEq, reduceCtorEq, List.not_mem_nil,
    or_false, false_or] at h
  rcases h with ⟨rfl, rfl⟩ | ⟨rfl, rfl⟩ | ⟨rfl, rfl⟩
  · exact ⟨rfl, .inl rfl⟩
  · exact ⟨rfl, .inl rfl⟩
  · exact ⟨rfl, .inr rfl⟩

lemma allows_session : BackupPolicy.firstWriteWins.Allows ".orig".toList session := by
  have hedits (p : Path) (content : Bytes) (h : .edit p content ∈ session) :
      p = .ofString "/d/x.c" := by
    simp only [session, List.mem_cons, reduceCtorEq, StoreEvent.edit.injEq, List.not_mem_nil,
      or_false, false_or] at h
    exact h.1
  refine ⟨?serves, ?follows, ?isPlain, ?apart⟩
  case serves =>
    rintro source ⟨disk, h⟩
    rcases (patch_cases h).2 with rfl | rfl
    all_goals
      refine ⟨⟨by decide, by decide⟩, fun content => ?_⟩
      rw [BackupPolicy.path]
      decide
  case follows =>
    intro disk source h content
    rw [(patch_cases h).1]
  case isPlain =>
    intro p content h
    rw [hedits p content h]
    exact ⟨by decide, by decide⟩
  case apart =>
    rintro p content h source ⟨disk, h'⟩ old
    rw [hedits p content h, BackupPolicy.path]
    rcases (patch_cases h').2 with rfl | rfl <;> decide

/-- The first promotion makes no backup. The second one does, although it does not write the table,
and in the end the backup still holds what the file held then. -/
theorem backups_of_run_refused :
    tree.IsTree ∧ tree.IsLinkFree [] ∧ IsSuffix ".orig".toList ∧
      BackupPolicy.firstWriteWins.Allows ".orig".toList session ∧
      (runEvents {} false .firstWriteWins ".orig".toList tree session).fs.read
        (backupPath (.ofString "/d/x.c") ".orig".toList) = .ok table ∧
      (runEvents {} false .firstWriteWins ".orig".toList tree session).fs.read (.ofString "/d/x.c") =
        .ok (bytesOf "static const char u[2];\n") := by
  have htree : tree.IsTree := FileSystem.isTree_of_forall (by decide +kernel)
  have hlinks : tree.IsLinkFree [] := FileSystem.isLinkFree_of_forall (by decide +kernel) []
  have hsuffix : IsSuffix ".orig".toList := ⟨by decide, by decide⟩
  refine ⟨htree, hlinks, hsuffix, allows_session, ?_, by decide +kernel⟩
  obtain ⟨-, -, -, hkept⟩ := @backups_of_run {} false .firstWriteWins ".orig".toList tree session
    htree hlinks hsuffix allows_session
  have hother (p : Path) (hp : Promotes session p) :
      ¬ p.same (backupPath (.ofString "/d/x.c") ".orig".toList) := by
    obtain ⟨disk, hp⟩ := hp
    rcases (patch_cases hp).2 with rfl | rfl <;> decide
  have hunprotected : outcomeAfter {} false .firstWriteWins ".orig".toList tree []
      (keepsFrom (.ofString "/d/x.c.orig")) (.ofString "/d/x.c") =
        .error (.backup (.write (.ofString "/d/x.c.orig") .permissionDenied)) := by
    decide +kernel
  have hunwritten : outcomeAfter {} false .firstWriteWins ".orig".toList tree (session.take 1)
      (keepsFrom (.ofString "/d/x.c")) (.ofString "/d/x.c") =
        .error (.write (.ofString "/d/x.c") .permissionDenied) := by
    decide +kernel
  have hread : (runEvents {} false .firstWriteWins ".orig".toList tree (session.take 1)).fs.read
      (.ofString "/d/x.c") = .ok table := by
    decide +kernel
  have hfirst : ∀ earlier disk q between, session.take 1 = earlier ++ .patch disk q :: between →
      q.same (.ofString "/d/x.c") → ¬ TriedToWrite
        (outcomeAfter {} false .firstWriteWins ".orig".toList tree earlier disk q) := by
    intro earlier disk q between hsplit _ htried
    obtain ⟨rfl, hcall⟩ : earlier = [] ∧ _ := by
      cases earlier with
      | nil => exact ⟨rfl, List.head_eq_of_cons_eq hsplit⟩
      | cons _ earlier => simp [session] at hsplit
    obtain ⟨rfl, rfl⟩ := StoreEvent.patch.inj hcall
    rw [hunprotected] at htried
    exact htried
  obtain ⟨-, content, hcontent, hend⟩ := hkept rfl (session.take 1) _ (.ofString "/d/x.c")
    (session.drop 2) rfl (by decide +kernel) hother hfirst (by rw [hunwritten]; trivial)
  obtain rfl : table = content := Except.ok.inj (hread.symm.trans hcontent)
  exact hend

/-- A suffix with which the names of backups are long. -/
def longSuffix : List Char := '.' :: List.replicate 200 'b'

/-- A tree that holds the table and an older backup of it under a long name. -/
def guarded : FileSystem :=
  tree.put ["d".toList, "x.c".toList ++ longSuffix] (.file (bytesOf "pristine\n") false)

/-- A spelling of the path of the table that can be followed, while the one of its backup is too
long. -/
def overlong : Path := ⟨List.replicate 3900 '/' ++ "d/x.c".toList⟩

/-- The backup is overwritten after the table was promoted under a path that is too long for it. -/
theorem backup_overwritten :
    guarded.IsTree ∧ guarded.IsLinkFree [] ∧ IsSuffix longSuffix ∧ overlong.IsPlain ∧
      (Path.ofString "/d/x.c").IsPlain ∧
      guarded.read (backupPath (.ofString "/d/x.c") longSuffix) = .ok (bytesOf "pristine\n") ∧
      (∀ p ∈ [overlong, .ofString "/d/x.c"],
        ¬ p.same (backupPath (.ofString "/d/x.c") longSuffix)) ∧
      (runEvents {} false .firstWriteWins longSuffix guarded
        [.patch .plain overlong, .patch .plain (.ofString "/d/x.c")]).fs.read
          (backupPath (.ofString "/d/x.c") longSuffix) = .ok table :=
  ⟨FileSystem.isTree_of_forall (by decide +kernel),
    FileSystem.isLinkFree_of_forall (by decide +kernel) [], ⟨by decide, by decide⟩,
    ⟨by decide +kernel, by decide +kernel⟩, ⟨by decide, by decide⟩, by decide +kernel,
    by decide +kernel, by decide +kernel⟩

end Pristine

end ConstPromotion
