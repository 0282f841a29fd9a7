import ConstPromotion.Proofs.FileSystem.Walk

/-!
# What was there before files were written

Where files were only written, whatever a path leads to is what it led to before, unless it is new
(`Written.find_of_nodeAt`). So a walk meets no other files than it met before, apart from the new
ones (`Written.mem_filesBelow`).
-/

namespace ConstPromotion.FileSystem.Written

variable {disk : Disk} {fs fs' : FileSystem} {root p : Path} {k : Location}
  {content : Bytes} {executable : Bool}

/-- A file that is not new was under its path before. -/
theorem find_of_nodeAt (h : Written fs fs') (hfs : fs.IsTree)
    (hfind : fs'.find p = .ok (k, .file content executable)) (hk : fs.nodeAt k ≠ none) :
    ∃ content' executable', fs.find p = .ok (k, .file content' executable') := by
  have hexists := (h.exists?_or_free hfs hfind).resolve_right hk
  obtain ⟨l, node, hearlier⟩ := exists?_eq_true_iff.mp hexists
  obtain ⟨node', hlater, hshape⟩ := (h.grows hfs).find hearlier
  obtain ⟨rfl, rfl⟩ := find_inj hlater hfind
  obtain ⟨content', executable', rfl⟩ := Node.shape_eq_file hshape.symm
  exact ⟨content', executable', hearlier⟩

/-- New files have names that entries can have. -/
lemma hasValidNames (h : Written fs fs') (hfs : fs.IsTree) (hlinks : fs.IsLinkFree [])
    (hnames : fs.HasValidNames) : fs'.HasValidNames := by
  induction h with
  | refl => exact hnames
  | write h hwrite ih =>
    have hlinks' := (h.write hwrite).isLinkFree hfs hlinks
    obtain ⟨l, executable, rfl, htakes, -, hfind⟩ := exists_put_of_write (h.isTree hfs) hwrite
    obtain ⟨dir, n, -, hn, -, hl⟩ := exists_isEntry_of_find hfind (by simp)
    intro l' m hnode
    by_cases heq : l = l' ++ [m]
    · obtain ⟨-, hname⟩ := List.append_inj' (heq.symm.trans (hl (hlinks' _))) rfl
      exact List.singleton_inj.mp hname ▸ hn
    · rw [nodeAt_put_of_ne htakes.ne_nil heq] at hnode
      exact ih l' m hnode

/-- A file that a walk meets, it met before, unless it is new. -/
theorem mem_filesBelow (h : Written fs fs') (hfs : fs.IsTree) (hlinks : fs.IsLinkFree [])
    (hnames : fs.HasValidNames) (hroot : fs.isDirectory root = true)
    (hp : p ∈ disk.filesBelow fs' root) (hfind : fs'.find p = .ok (k, .file content executable))
    (hk : fs.nodeAt k ≠ none) : p ∈ disk.filesBelow fs root := by
  have hgrows := h.grows hfs
  have hnames' := h.hasValidNames hfs hlinks hnames
  obtain ⟨l, hdir⟩ := isDirectory_iff.mp hroot
  rw [Disk.filesBelow_eq (hgrows.find_directory hdir)] at hp
  obtain ⟨below, hbelow, rfl⟩ := List.mem_map.mp hp
  obtain ⟨above, n, content', executable', rfl, habove, hnode⟩ :=
    Disk.nodeAt_of_mem_fileLocations hnames' (hgrows.find_directory hdir) hbelow
  have hshort := isShort_of_find hfind
  rw [← List.append_assoc] at hnode
  have hn := hnames' (l ++ above) n (by rw [hnode]; simp)
  rw [Path.descend_concat] at hfind hshort
  -- the walk found it by its names, so it is the file that the path leads to
  have hfind' := find_child habove hn hshort hnode (by simp)
  obtain ⟨rfl, -⟩ := find_inj hfind' hfind
  obtain ⟨content'', executable'', hearlier⟩ := h.find_of_nodeAt hfs hfind' hk
  have hearlierNode := hfs.nodeAt_of_find hearlier
  have hlength := length_le_depth hk
  rw [Disk.filesBelow_eq hdir]
  apply List.mem_map_of_mem
  apply Disk.mem_fileLocations hnames hfs hdir hearlierNode
  · simp only [List.length_append, List.length_singleton] at hlength
    omega
  · exact isShort_of_find habove
  · exact Disk.shows_of_mem_fileLocations hbelow

end ConstPromotion.FileSystem.Written
