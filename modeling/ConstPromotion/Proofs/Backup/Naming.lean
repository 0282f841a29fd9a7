import ConstPromotion.Backup.Naming
import ConstPromotion.Proofs.FileSystem.Entries

/-!
# Backups lie beside their files

The name of a backup is the name of the file and a text without slashes (`BackupPolicy.tail`). So a
path that stands for an entry has its backup in the same directory (`IsEntry.backupPath`), and a
file is never its own backup.
-/

namespace ConstPromotion

variable {policy : BackupPolicy} {source p q : Path} {suffix text : List Char} {content : Bytes}
  {n m : Name}

/-! ### What comes after the name -/

/-- A text that makes another name of each name when it is added to it. -/
structure IsSuffix (text : List Char) : Prop where
  ne_nil : text ≠ []
  slash_notMem : '/' ∉ text

lemma lt_of_mem_lastDigits {base width k d : Nat} (hbase : 0 < base)
    (h : d ∈ lastDigits base width k) : d < base := by
  induction width generalizing k with
  | zero => simp [lastDigits] at h
  | succ width ih =>
    rw [lastDigits, List.mem_append, List.mem_singleton] at h
    rcases h with h | rfl
    · exact ih h
    · exact Nat.mod_lt k hbase

lemma slash_notMem_hexDigest (content : Bytes) : '/' ∉ Sha256.hexDigest content := by
  have hdigit : ∀ d < 16, Nat.digitChar d ≠ '/' := by decide
  rw [Sha256.hexDigest, List.mem_flatMap]
  rintro ⟨w, -, hmem⟩
  obtain ⟨d, hd, hslash⟩ := List.mem_map.mp hmem
  exact hdigit d (lt_of_mem_lastDigits (by decide) hd) hslash

lemma length_hexDigest (content : Bytes) : (Sha256.hexDigest content).length = 64 := by
  simp [Sha256.hexDigest, Sha256.hexWord]

namespace BackupPolicy

/-- What the name of a backup has after the name of the file. -/
def tail (policy : BackupPolicy) (suffix : List Char) (content : Bytes) : List Char :=
  match policy with
  | .firstWriteWins => suffix
  | .versioned => suffix ++ '.' :: (Sha256.hexDigest content).take versionDigits

lemma path_eq (policy : BackupPolicy) (source : Path) (suffix : List Char) (content : Bytes) :
    policy.path source suffix content = backupPath source (policy.tail suffix content) := by
  cases policy <;> rfl

/-- A versioned backup has another name than the file also if the suffix is empty. -/
lemma isSuffix_tail_versioned (h : '/' ∉ suffix) (content : Bytes) :
    IsSuffix (versioned.tail suffix content) := by
  refine ⟨by simp [tail], ?_⟩
  rw [tail, List.mem_append, List.mem_cons, not_or, not_or]
  exact ⟨h, by decide, fun hmem => slash_notMem_hexDigest content (List.mem_of_mem_take hmem)⟩

lemma isSuffix_tail (h : IsSuffix suffix) (policy : BackupPolicy) (content : Bytes) :
    IsSuffix (policy.tail suffix content) := by
  cases policy with
  | firstWriteWins => exact h
  | versioned => exact isSuffix_tail_versioned h.slash_notMem content

end BackupPolicy

/-- A name stays one when a suffix is added to it. -/
lemma Path.IsEntryName.append (hn : IsEntryName n) (htext : IsSuffix text) :
    IsEntryName (n ++ text) := by
  have hne := hn.ne_nil
  refine ⟨by simp [hne], by simpa using ⟨hn.slash_notMem, htext.slash_notMem⟩, ?_, ?_⟩
  · intro h
    rcases List.append_eq_singleton_iff.mp h with ⟨h, -⟩ | ⟨-, h⟩
    · exact hne h
    · exact htext.ne_nil h
  · intro h
    have hlength := congrArg List.length h
    obtain ⟨c, rest, rfl⟩ := List.exists_cons_of_ne_nil hne
    obtain ⟨d, more, rfl⟩ := List.exists_cons_of_ne_nil htext.ne_nil
    obtain rfl : rest = [] := by
      simp only [List.length_append, List.length_cons, List.length_nil] at hlength
      exact List.eq_nil_of_length_eq_zero (by omega)
    rw [List.cons_append, List.cons.injEq] at h
    exact hn.ne_current (by rw [h.1])

/-! ### Beside a file -/

/-- Below a directory, an entry is known by its own directory and its name. -/
lemma below_concat_inj {l above above' : Location} :
    l ++ above ++ [n] = l ++ above' ++ [m] ↔ above = above' ∧ n = m := by
  rw [List.append_assoc, List.append_assoc, List.append_cancel_left_eq, ← List.concat_eq_append,
    ← List.concat_eq_append, List.concat_inj]

/-- A backup is that of one file. -/
lemma backup_concat_inj {above above' : Location} :
    above ++ [n ++ text] = above' ++ [m ++ text] ↔ above = above' ∧ n = m := by
  rw [← List.concat_eq_append, ← List.concat_eq_append, List.concat_inj, List.append_left_inj]

/-- The components of a path and of its backup agree but for the last one. -/
lemma components_backupPath (h : source.fileName? = some n) (htext : IsSuffix text) :
    ∃ start, source.components = start ++ [.name n] ∧
      (backupPath source text).components = start ++ [.name (n ++ text)] := by
  rw [backupPath, h]
  exact Path.components_withFileName h ((Path.isEntryName_of_fileName? h).append htext)

lemma components_backupPath_concat {start : List Component}
    (h : source.components = start ++ [.name n]) (htext : IsSuffix text) :
    (backupPath source text).components = start ++ [.name (n ++ text)] := by
  have hname : source.fileName? = some n := by rw [Path.fileName?, h, List.getLast?_concat]
  obtain ⟨start', hsource, hbackup⟩ := components_backupPath hname htext
  rw [hbackup, (List.append_inj' (h.symm.trans hsource) rfl).1]

/-- A file is not its own backup. -/
theorem not_same_backupPath (h : source.fileName? = some n) (htext : IsSuffix text) :
    (backupPath source text).same source = false := by
  obtain ⟨start, hsource, hbackup⟩ := components_backupPath h htext
  rw [Path.same, hsource, hbackup]
  simp [htext.ne_nil]

/-- The backup of a plain path is plain, unless no file can be there. -/
lemma Path.IsPlain.backupPath (h : source.IsPlain) (htext : IsSuffix text)
    (hname : (backupPath source text).pieces.getLast? = some n) (hn : IsEntryName n) :
    (backupPath source text).IsPlain := by
  rw [ConstPromotion.backupPath] at hname ⊢
  cases hsource : source.fileName? with
  | none =>
    rw [Option.getD_none, List.nil_append]
    rw [hsource, Option.getD_none, List.nil_append, Path.withFileName, hsource,
      getLast?_pieces_child htext.slash_notMem h.chars_ne_nil, Option.some_inj] at hname
    exact h.withFileName (hname ▸ hn)
  | some m => exact h.withFileName ((isEntryName_of_fileName? hsource).append htext)

/-- A path has its backup in the same directory. -/
theorem FileSystem.IsEntry.backupPath {fs : FileSystem} {dir : Location}
    (h : fs.IsEntry source dir n) (htext : IsSuffix text) :
    fs.IsEntry (backupPath source text) dir (n ++ text) := by
  rw [ConstPromotion.backupPath, h.fileName?]
  exact h.withFileName (h.isEntryName.append htext)

end ConstPromotion
