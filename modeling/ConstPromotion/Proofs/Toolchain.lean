import ConstPromotion.Pipeline.Basic
import ConstPromotion.Proofs.Attempt
import ConstPromotion.Proofs.FileSystem.Writing

/-!
# The check for tools

The check finds the file of every tool, or names the first tool that has none
(`World.checkTools_cases`). The file of a tool is the first one in the places where the tool is
looked for (`World.exists_place_of_resolveTool`).
-/

namespace ConstPromotion

namespace World

variable {w : World} {tools : List ToolRequirement} {found : List ResolvedTool}

lemma checkTools_cons (w : World) (tool : ToolRequirement) (tools : List ToolRequirement) :
    w.checkTools (tool :: tools) =
      match w.resolveTool tool.name with
      | some path => (w.checkTools tools).map (⟨tool.role, path⟩ :: ·)
      | none => .error (.missing tool) := by
  rw [checkTools, List.mapM_cons]
  cases w.resolveTool tool.name with
  | none => rfl
  | some path =>
    change (w.checkTools tools >>= fun found => _) = _
    cases w.checkTools tools <;> rfl

/-- The check answers with the files of all tools, or with a tool that has none. -/
theorem checkTools_cases (w : World) (tools : List ToolRequirement) :
    (∃ found, w.checkTools tools = .ok found ∧
      List.Forall₂ (fun t f => f.role = t.role ∧ w.resolveTool t.name = some f.path) tools found) ∨
    ∃ tool ∈ tools, w.resolveTool tool.name = none ∧
      w.checkTools tools = .error (.missing tool) := by
  induction tools with
  | nil => exact .inl ⟨[], rfl, .nil⟩
  | cons tool tools ih =>
    rw [checkTools_cons]
    cases hpath : w.resolveTool tool.name with
    | none => exact .inr ⟨tool, List.mem_cons_self, hpath, rfl⟩
    | some path =>
      rcases ih with ⟨found, hfound, hall⟩ | ⟨other, hmem, hnone, herror⟩
      · exact .inl ⟨_, by rw [hfound]; rfl, .cons ⟨rfl, hpath⟩ hall⟩
      · exact .inr ⟨other, List.mem_cons_of_mem tool hmem, hnone, by rw [herror]; rfl⟩

lemma forall₂_of_checkTools (h : w.checkTools tools = .ok found) :
    List.Forall₂ (fun t f => f.role = t.role ∧ w.resolveTool t.name = some f.path) tools found := by
  rcases w.checkTools_cases tools with ⟨found', hfound, hall⟩ | ⟨_, -, -, herror⟩
  · obtain rfl := Except.ok.inj (hfound.symm.trans h)
    exact hall
  · rw [herror] at h
    cases h

/-- Where the check succeeds, every tool has its file among those that were found. -/
theorem exists_mem_of_checkTools (h : w.checkTools tools = .ok found) {tool : ToolRequirement}
    (hmem : tool ∈ tools) :
    ∃ f ∈ found, f.role = tool.role ∧ w.resolveTool tool.name = some f.path := by
  have hall := forall₂_of_checkTools h
  obtain ⟨i, hi, rfl⟩ := List.mem_iff_getElem.mp hmem
  have hi' : i < found.length := hall.length_eq ▸ hi
  exact ⟨found[i], List.getElem_mem hi', hall.get hi hi'⟩

/-- Where the check succeeds, every file that was found is that of one of the tools. -/
theorem exists_tool_of_checkTools (h : w.checkTools tools = .ok found) {f : ResolvedTool}
    (hmem : f ∈ found) :
    ∃ tool ∈ tools, f.role = tool.role ∧ w.resolveTool tool.name = some f.path := by
  have hall := forall₂_of_checkTools h
  obtain ⟨i, hi, rfl⟩ := List.mem_iff_getElem.mp hmem
  have hi' : i < tools.length := hall.length_eq ▸ hi
  exact ⟨tools[i], List.getElem_mem hi', hall.get hi' hi⟩

/-! ### Places -/

variable {name : String} {p : Path}

/-- Where a program is looked for: in the directories of the search path, or, under a name with a
slash, in the working directory alone. -/
def places (w : World) (name : String) : List Path :=
  if name.toList.contains '/' then [⟨[]⟩]
  else searchDirectories ((w.env.get? "PATH").getD defaultSearchPath)

/-- A name is a relative path with a single component. -/
lemma relative_of_slash_notMem (h : '/' ∉ p.chars) :
    p.isAbsolute = false ∧ p.components.length ≤ 1 := by
  have hrelative := Path.isAbsolute_of_slash_notMem h
  have hpieces : p.pieces = [p.chars] := List.splitOn_eq_singleton h
  refine ⟨hrelative, ?_⟩
  rw [Path.components_eq, hrelative, hpieces]
  cases hc : Path.component? true p.chars <;> simp [Path.componentsFrom, hc]

/-- A relative path with a single component that leads to a file is a name. -/
lemma slash_notMem_of_isFile_join (hsingle : ¬ p.components.length > 1)
    (hrelative : p.isAbsolute = false) {dir : Path} (hfile : w.fs.isFile (dir.join p) = true) :
    '/' ∉ p.chars := by
  obtain ⟨l, content, executable, hfind⟩ := FileSystem.isFile_iff.mp hfile
  obtain ⟨above, n, hentry, -⟩ := FileSystem.exists_isEntry_of_find hfind (by simp)
  have hn := hentry.isEntryName
  obtain ⟨-, before, -, -, hpieces, -⟩ := hentry.leads
  -- the path itself ends in the name of the file
  obtain ⟨first, hfirst⟩ : ∃ first, p.pieces = first ++ [n] := by
    obtain ⟨first, last, hp⟩ := (List.eq_nil_or_concat' p.pieces).resolve_left p.pieces_ne_nil
    obtain ⟨more, hmore⟩ : ∃ more, (dir.join p).pieces = more ++ p.pieces := by
      by_cases hdir : dir.chars = []
      · exact ⟨[], by simp [Path.join, hrelative, hdir]⟩
      · exact ⟨dir.base, Path.pieces_join hrelative hdir⟩
    rw [hmore, hp, ← List.append_assoc] at hpieces
    exact ⟨first, by rw [hp, (List.append_inj' hpieces rfl).2]⟩
  rw [Path.components_eq, hrelative, hfirst, Path.componentsFrom_concat hn] at hsingle
  cases first with
  | nil =>
    rw [← p.intercalate_pieces, hfirst, List.nil_append, List.intercalate_singleton]
    exact hn.slash_notMem
  | cons piece rest =>
    have hpiece : piece ≠ [] := by
      rintro rfl
      rw [(Path.isAbsolute_iff hfirst (by simp)).mpr rfl] at hrelative
      cases hrelative
    obtain ⟨c, hc⟩ : ∃ c, Path.component? true piece = some c := by
      simp only [Path.component?, if_neg hpiece, if_true]
      split_ifs <;> simp
    simp [Path.componentsFrom, hc] at hsingle

/-- The file of a tool is the first one in the places where it is looked for. -/
theorem exists_place_of_resolveTool (h : w.resolveTool name = some p) :
    name ≠ "" ∧ w.fs.isFile p = true ∧ ∃ before dir after, w.places name = before ++ dir :: after ∧
      p = dir.join (.ofString name) ∧
      ∀ d ∈ before, w.fs.isFile (d.join (.ofString name)) = false := by
  rw [resolveTool] at h
  dsimp only at h
  split_ifs at h with hempty hpath hfile
  · obtain rfl := Option.some.inj h
    have hslash : '/' ∈ name.toList := by
      by_contra hslash
      obtain ⟨hrelative, hsingle⟩ := relative_of_slash_notMem (p := .ofString name) hslash
      rcases hpath with hmany | habsolute
      · exact absurd hmany (not_lt.mpr hsingle)
      · simp [hrelative] at habsolute
    refine ⟨hempty, hfile, [], ⟨[]⟩, [], ?_, ?_, by simp⟩
    · rw [places, if_pos (by simpa using hslash), List.nil_append]
    · simp [Path.join]
  · rw [not_or, Bool.not_eq_true] at hpath
    obtain ⟨path, hpath', hfind⟩ := Option.bind_eq_some_iff.mp h
    have hfile := List.find?_some hfind
    obtain ⟨-, before, after, hplaces, hbefore⟩ := List.find?_eq_some_iff_append.mp hfind
    obtain ⟨ds, rest, hdirs, rfl, hrest⟩ := List.map_eq_append_iff.mp hplaces
    obtain ⟨dir, ds', rfl, rfl, -⟩ := List.map_eq_cons_iff.mp hrest
    have hslash := slash_notMem_of_isFile_join hpath.1 hpath.2 hfile
    refine ⟨hempty, hfile, ds, dir, ds', ?_, rfl, ?_⟩
    · rw [places, if_neg (by simpa [Path.ofString] using hslash), hpath', Option.getD_some, hdirs]
    · simpa using hbefore

end World

/-! ### The environment of a pipeline -/

lemma run_checkEnvironment (p : Pipeline) (build : Bool) (kind : InspectorKind) (s : Progress) :
    (p.checkEnvironment build kind).run.run s =
      ((s.world.checkTools (p.config.requirements p.verify build kind)).mapError .environment,
        s) := by
  rw [Pipeline.checkEnvironment, Attempt.run_bind, Attempt.run_get]
  cases h : s.world.checkTools (p.config.requirements p.verify build kind) <;> simp only [h] <;> rfl

/-- Where the check of the environment passes, it has changed nothing, and the tools were found. -/
lemma checkTools_of_checkEnvironment {p : Pipeline} {build : Bool} {kind : InspectorKind}
    {s s' : Progress} {tools : List ResolvedTool}
    (h : (p.checkEnvironment build kind).run.run s = (.ok tools, s')) :
    s' = s ∧ s.world.checkTools (p.config.requirements p.verify build kind) = .ok tools := by
  rw [run_checkEnvironment] at h
  obtain ⟨htools, rfl⟩ := Prod.mk.inj h
  cases hcheck : s.world.checkTools (p.config.requirements p.verify build kind) with
  | error e =>
    rw [hcheck] at htools
    cases htools
  | ok found =>
    rw [hcheck] at htools
    cases htools
    exact ⟨rfl, rfl⟩

end ConstPromotion
