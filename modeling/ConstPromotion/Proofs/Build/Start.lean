import ConstPromotion.Proofs.Build.Artifact
import ConstPromotion.Proofs.FileSystem.Spelling
import ConstPromotion.Proofs.Toolchain

/-!
# Starting the build tool

The check of the environment looks for the build tool from the directory of the caller and takes the
first file that it finds. The build starts the tool by its name from the directory of the library,
and takes the first file that can be started. Where both look at the same places and the file that
was found can be started, the build starts that file (`starts_of_checkEnvironment`).
-/

namespace ConstPromotion

open FileSystem

/-! ### Files that can be started -/

section Image

variable {fs : FileSystem} {p q : Path} {arguments : List String} {image : Image} {depth : Nat}

lemma executable_congr (h : fs.find p = fs.find q) : fs.executable p = fs.executable q := by
  rw [executable, executable, h]

/-- Whether a file can be started depends neither on the spelling of its path nor on the
arguments. -/
lemma exists_imageWithin (h : fs.find p = fs.find q)
    (hp : fs.imageWithin depth p arguments = .ok image) (arguments' : List String) :
    ∃ image', fs.imageWithin depth q arguments' = .ok image' := by
  induction depth generalizing p q arguments arguments' with
  | zero => cases hp
  | succ depth ih =>
    rw [imageWithin] at hp ⊢
    obtain ⟨content, hcontent, hp⟩ := exists_of_bind_eq_ok hp
    rw [← executable_congr h, hcontent]
    simp only [bind, Except.bind]
    cases hi : Interpreter.ofContent? content with
    | some i =>
      simp only [hi] at hp ⊢
      exact ih rfl hp _
    | none =>
      cases hu : utilityOf? content with
      | some utility => exact ⟨_, rfl⟩
      | none =>
        simp only [hi, hu] at hp
        cases hp

/-- What is no file cannot be started. -/
lemma image_of_isFile_eq_false (h : fs.isFile p = false) (arguments : List String) :
    (∃ e, fs.find p = .error e ∧ fs.image p arguments = .error e) ∨
      fs.image p arguments = .error .permissionDenied := by
  rw [isFile] at h
  rw [FileSystem.image, maxInterpreters, imageWithin, executable]
  cases hfind : fs.find p with
  | error e => exact .inl ⟨e, rfl, rfl⟩
  | ok found =>
    obtain ⟨l, node⟩ := found
    cases node with
    | file content executable => simp [hfind] at h
    | directory => exact .inr rfl
    | link target => exact .inr rfl

end Image

/-! ### The search for a program -/

/-- A search goes on after the error. -/
def OsError.IsPassedOver (e : OsError) : Prop :=
  e = .permissionDenied ∨ e = .notFound ∨ e = .notDirectory

/-- The first path that can be started is started, if the search gets past those before it. -/
lemma firstStarted_append {α : Type} {start : Path → Except OsError α} {failure : OsError}
    {before after : List Path} {p : Path} {x : α}
    (hbefore : ∀ q ∈ before, ∃ e, start q = .error e ∧ e.IsPassedOver) (hp : start p = .ok x) :
    firstStarted start failure (before ++ p :: after) = .ok x := by
  induction before generalizing failure with
  | nil => rw [List.nil_append, firstStarted, hp]
  | cons q before ih =>
    obtain ⟨⟨e, hq, he⟩, hbefore⟩ := List.forall_mem_cons.mp hbefore
    rw [List.cons_append, firstStarted, hq]
    simp only [if_pos (show e = .permissionDenied ∨ e = .notFound ∨ e = .notDirectory from he)]
    exact ih hbefore

/-- A program is searched for in its places. -/
lemma startNamed_eq {α : Type} {w : World} {name : String} (hname : name ≠ "")
    (start : Path → Except OsError α) :
    w.startNamed start name =
      firstStarted start .notFound ((w.places name).map (candidate · name)) := by
  rw [World.startNamed, if_neg hname, World.places]
  by_cases hslash : name.toList.contains '/' = true
  · rw [if_pos hslash, if_pos hslash]
    simp only [List.map_cons, List.map_nil, candidate, if_true, firstStarted]
    cases start (.ofString name) with
    | ok x => rfl
    | error e => simp
  · rw [if_neg hslash, if_neg hslash]

/-! ### Two directories -/

namespace World

/-- The world as a program sees it that is started in a directory. -/
def within (w : World) (l : Location) : World := { w with fs := w.fs.within l }

variable {w : World} {l : Location} {name : String}

/-- The check looks for a tool in a place: it is in none of the places before. -/
def LooksIn (w : World) (name : String) (dir : Path) : Prop :=
  ∃ before after, w.places name = before ++ dir :: after ∧
    ∀ d ∈ before, w.fs.isFile (d.join (.ofString name)) = false

/-- The places in which the check looks for a tool are the same when they are seen from a directory,
and none of them ends the search for a program that can be started. -/
structure LooksAlike (w : World) (l : Location) (name : String) : Prop where
  find_eq : ∀ dir, w.LooksIn name dir →
    (w.within l).fs.find (candidate dir name) = w.fs.find (dir.join (.ofString name))
  isPassedOver : ∀ dir e, w.LooksIn name dir → w.fs.find (dir.join (.ofString name)) = .error e →
    e.IsPassedOver

/-- Absolute places are the same when they are seen from any directory. -/
theorem find_candidate_of_isAbsolute {dir : Path} (hdir : dir ∈ w.places name)
    (habsolute : (candidate dir name).isAbsolute = true) (hshort : (candidate dir name).IsShort)
    (hname : name ≠ "") :
    (w.within l).fs.find (candidate dir name) = w.fs.find (dir.join (.ofString name)) := by
  rw [within, find_within habsolute]
  by_cases hnil : dir.chars = []
  · rw [candidate, if_pos hnil, Path.join]
    simp [hnil]
  · rw [places] at hdir
    split_ifs at hdir with hslash
    · rw [List.mem_singleton.mp hdir] at hnil
      exact absurd rfl hnil
    · rw [candidate, if_neg hnil] at habsolute hshort ⊢
      refine find_doubled_slash (by simpa using hslash) (by simpa using hname) ?_ hshort
      rwa [Path.isAbsolute, List.head?_append_of_ne_nil _ hnil] at habsolute

/-- A program is started from the file that the check finds, if the places look alike and the file
can be started. -/
theorem image_of_resolveTool {p q : Path} {arguments' : List String} {image : Image}
    (halike : w.LooksAlike l name) (hresolve : w.resolveTool name = some p)
    (hq : (w.within l).fs.find q = w.fs.find p)
    (hstart : (w.within l).fs.image q arguments' = .ok image) (arguments : List String) :
    ∃ q' image', (w.within l).fs.find q' = w.fs.find p ∧
      (w.within l).fs.image q' arguments = .ok image' ∧
      (w.within l).image name arguments = .ok image' := by
  obtain ⟨hname, -, before, dir, after, hplaces, rfl, hbefore⟩ :=
    exists_place_of_resolveTool hresolve
  have hdir := halike.find_eq dir ⟨before, after, hplaces, hbefore⟩
  obtain ⟨image', himage⟩ := exists_imageWithin (hq.trans hdir.symm) hstart arguments
  refine ⟨candidate dir name, image', hdir, himage, ?_⟩
  have hplaces' : (w.within l).places name = before ++ dir :: after := hplaces
  rw [World.image, startNamed_eq hname, hplaces', List.map_append, List.map_cons]
  refine firstStarted_append ?_ himage
  intro c hc
  obtain ⟨d, hd, rfl⟩ := List.mem_map.mp hc
  -- the check passed over the places before, and what is there cannot be started either
  have hlooks : w.LooksIn name d := by
    obtain ⟨earlier, later, rfl⟩ := List.append_of_mem hd
    refine ⟨earlier, later ++ dir :: after, by simp [hplaces], ?_⟩
    exact fun d' hd' => hbefore d' (List.mem_append_left _ hd')
  have hfile : (w.within l).fs.isFile (candidate d name) = false := by
    rw [isFile, halike.find_eq d hlooks]
    exact hbefore d hd
  rcases image_of_isFile_eq_false hfile arguments with ⟨e, hfind, himage⟩ | himage
  · rw [halike.find_eq d hlooks] at hfind
    exact ⟨e, himage, halike.isPassedOver d e hlooks hfind⟩
  · exact ⟨_, himage, .inl rfl⟩

end World

/-! ### Builds -/

/-- The call of the build tool. -/
def BuildRequest.call (r : BuildRequest) : Invocation where
  program := r.make
  arguments := r.arguments
  directory := some r.libraryDir

lemma makeBuild_build (r : BuildRequest) :
    makeBuild.build r = (do
      let ended ← r.call.run.wrapping (.spawn r.make)
      if !ended.isSuccess then throw (.failed r.make ended.message)
      (collectArtifact r).onFiles) := rfl

variable {w : World} {l : Location}

/-- What is started for a program with a directory to start it in. -/
lemma image_of_find {i : Invocation} {dir : Path} (hdir : i.directory = some dir)
    (hfind : w.fs.find dir = .ok (l, .directory)) (hnul : i.holdsNul = false) :
    i.image w = ((w.within l).image i.program i.arguments).map (w.within l, ·) := by
  have hin : i.inDirectory w = .ok (w.within l) := by
    rw [Invocation.inDirectory, hdir]
    simp only [hfind, bind, Except.bind]
    rfl
  rw [Invocation.image, hnul, hin]
  cases himage : (w.within l).image i.program i.arguments with
  | ok image => simp [himage, bind, Except.bind, Except.map, pure, Except.pure]
  | error e => simp [himage, bind, Except.bind, Except.map]

/-- A program that can be started is run to its end. -/
lemma exists_run_of_image {i : Invocation} {started : World × Image}
    (h : i.image w = .ok started) : ∃ ended w', i.run.run.run w = (.ok ended, w') := by
  simp only [Invocation.run, StateT.run, ExceptT.run, ExceptT.mk, h]
  exact ⟨_, _, rfl⟩

lemma raises_collectArtifact (r : BuildRequest) :
    Attempt.Raises (fun e => ∀ name cause, e ≠ .spawn name cause) (collectArtifact r) := by
  intro fs e fs' hrun
  have hcollecting := collecting_collectArtifact r fs
  rw [hrun] at hcollecting
  cases hcollecting <;> simp

/-- A build that starts the build tool fails for another reason, if it fails. -/
lemma run_makeBuild_ne_spawn {r : BuildRequest} {started : World × Image}
    (h : r.call.image w = .ok started) (name : String) (cause : OsError) (w' : World) :
    (makeBuild.build r).run.run w ≠ (.error (.spawn name cause), w') := by
  obtain ⟨ended, w₁, hcall⟩ := exists_run_of_image h
  have hspawned : (r.call.run.wrapping (BuildError.spawn r.make)).run.run w = (.ok ended, w₁) := by
    rw [Attempt.run_wrapping, hcall]
    rfl
  intro hrun
  rw [makeBuild_build, Attempt.run_bind_ok hspawned] at hrun
  cases hsuccess : ended.isSuccess with
  | false =>
    simp only [hsuccess, Bool.not_false, if_true] at hrun
    cases hrun
  | true =>
    simp only [hsuccess, Bool.not_true, Bool.false_eq_true, if_false] at hrun
    exact (raises_collectArtifact r).onPart _ _ hrun name cause rfl

lemma make_mem_requirements (c : Config) (verify : Bool) (kind : InspectorKind) :
    ⟨"build tool", c.tools.make⟩ ∈ c.requirements verify true kind := by
  simp [Config.requirements]

lemma name_eq_make_of_mem_requirements {c : Config} {verify : Bool} {kind : InspectorKind}
    {tool : ToolRequirement} (h : tool ∈ c.requirements verify true kind)
    (hrole : tool.role = "build tool") : tool.name = c.tools.make := by
  simp only [Config.requirements, if_true, List.mem_append, List.mem_cons, List.not_mem_nil,
    or_false] at h
  rcases h with (rfl | rfl | rfl) | h
  · simp at hrole
  · simp at hrole
  · rfl
  · split_ifs at h
    · rw [List.mem_singleton.mp h] at hrole
      simp at hrole
    · simp at h

/-- Where the check of the environment passes, the build starts the file that was reported for the
build tool and does not fail to start it, if the places in which it was looked for look alike from
the directory of the library and the file can be started there. -/
theorem starts_of_checkEnvironment {p : Pipeline} {kind : InspectorKind} {g g' : Progress}
    {tools : List ResolvedTool}
    (hcheck : (p.checkEnvironment true kind).run.run g = (.ok tools, g'))
    (hlibrary : g.world.fs.find p.layout.libraryDir = .ok (l, .directory))
    (hnul : p.request.call.holdsNul = false)
    (halike : g.world.LooksAlike l p.config.tools.make)
    (hstart : ∀ tool ∈ tools, tool.role = "build tool" →
      ∃ q arguments image, (g.world.within l).fs.find q = g.world.fs.find tool.path ∧
        (g.world.within l).fs.image q arguments = .ok image) :
    g' = g ∧ (∃ tool ∈ tools, tool.role = "build tool") ∧
      (∀ tool ∈ tools, tool.role = "build tool" →
        g.world.fs.isFile tool.path = true ∧
        ∃ q image, (g.world.within l).fs.find q = g.world.fs.find tool.path ∧
          (g.world.within l).fs.image q p.request.arguments = .ok image ∧
          p.request.call.image g.world = .ok (g.world.within l, image)) ∧
      ∀ name cause w,
        (makeBuild.build p.request).run.run g.world ≠ (.error (.spawn name cause), w) := by
  obtain ⟨rfl, htools⟩ := checkTools_of_checkEnvironment hcheck
  have hstarts : ∀ tool ∈ tools, tool.role = "build tool" →
      g'.world.fs.isFile tool.path = true ∧
      ∃ q image, (g'.world.within l).fs.find q = g'.world.fs.find tool.path ∧
        (g'.world.within l).fs.image q p.request.arguments = .ok image ∧
        p.request.call.image g'.world = .ok (g'.world.within l, image) := by
    intro tool hmem hrole
    obtain ⟨required, hrequired, hsame, hpath⟩ := World.exists_tool_of_checkTools htools hmem
    rw [name_eq_make_of_mem_requirements hrequired (hsame.symm.trans hrole)] at hpath
    obtain ⟨q, arguments, image, hq, himage⟩ := hstart tool hmem hrole
    obtain ⟨q', image', hq', himage', hnamed⟩ :=
      World.image_of_resolveTool halike hpath hq himage p.request.arguments
    refine ⟨(World.exists_place_of_resolveTool hpath).2.1, q', image', hq', himage', ?_⟩
    have hcall := image_of_find (rfl : p.request.call.directory = _) hlibrary hnul
    exact hcall.trans (congrArg (Except.map _) hnamed)
  obtain ⟨tool, hmem, hrole, -⟩ := World.exists_mem_of_checkTools htools
    (make_mem_requirements p.config p.verify kind)
  obtain ⟨-, q, image, -, -, hcall⟩ := hstarts tool hmem hrole
  exact ⟨rfl, ⟨tool, hmem, hrole⟩, hstarts, run_makeBuild_ne_spawn hcall⟩

/-! ### Build tools under three names -/

namespace Startable

/-- A world with a library, a build tool in `bin`, another one in `tools`, and a file in `bin` that
cannot be executed. -/
def world : World where
  fs := ⟨.ofList [(["bin".toList], .directory),
    (["bin".toList, "locked".toList], .file (utilityImage "true") false),
    (["bin".toList, "make".toList], .file (utilityImage "true") true),
    (["lib".toList], .directory),
    (["lib".toList, "libx.a".toList], .file (bytesOf "!<ar>\n") false),
    (["tools".toList], .directory),
    (["tools".toList, "make".toList], .file (utilityImage "true") true)], []⟩
  env := .ofList [("PATH", "/none:/bin/")]

/-- A build in the library by a build tool. -/
def pipeline (make : String) : Pipeline :=
  .ofConfig { sourceDir := ".", libraryDir := "lib", archiveName := "libx.a"
              tools := { cc := "make", ar := "make", make } } (.ofString "/") false false

/-- What is found for its tools. -/
def found (path : String) : List ResolvedTool :=
  [⟨"compiler", .ofString "/bin/make"⟩, ⟨"archiver", .ofString "/bin/make"⟩,
    ⟨"build tool", .ofString path⟩]

lemma looksAlike_make : world.LooksAlike ["lib".toList] "make" := by
  have hplaces : ∀ dir, world.LooksIn "make" dir → dir ∈ world.places "make" := by
    rintro dir ⟨before, after, hplaces, -⟩
    simp [hplaces]
  constructor
  · intro dir hlooks
    have hall : ∀ dir ∈ world.places "make", (candidate dir "make").isAbsolute = true ∧
        (candidate dir "make").IsShort := by decide +kernel
    obtain ⟨habsolute, hshort⟩ := hall dir (hplaces dir hlooks)
    exact World.find_candidate_of_isAbsolute (hplaces dir hlooks) habsolute hshort (by decide)
  · intro dir e hlooks hfind
    have hall : ∀ dir ∈ world.places "make",
        (world.fs.find (dir.join (.ofString "make"))).toOption.isSome = true ∨
          world.fs.find (dir.join (.ofString "make")) = .error .notFound := by decide +kernel
    rcases hall dir (hplaces dir hlooks) with hsome | hnone
    · rw [hfind] at hsome
      cases hsome
    · rw [hfind] at hnone
      cases hnone
      exact .inr (.inl rfl)

/-- A build tool in an absolute directory of the search path is started. -/
theorem starts_of_checkEnvironment_make :
    let p := pipeline "make"
    let g : Progress := ⟨world, .notStarted⟩
    let child := world.within ["lib".toList]
    (p.checkEnvironment true .builtin).run.run g = (.ok (found "/bin/make"), g) ∧
      world.fs.find p.layout.libraryDir = .ok (["lib".toList], .directory) ∧
      p.request.call.holdsNul = false ∧ world.LooksAlike ["lib".toList] "make" ∧
      child.fs.image (.ofString "/bin/make") [] = .ok ⟨"true", []⟩ ∧
      (∃ q image, child.fs.find q = world.fs.find (.ofString "/bin/make") ∧
        child.fs.image q p.request.arguments = .ok image ∧
        p.request.call.image world = .ok (child, image)) ∧
      ∀ name cause w,
        (makeBuild.build p.request).run.run world ≠ (.error (.spawn name cause), w) := by
  intro p g child
  have hcheck : (p.checkEnvironment true .builtin).run.run g = (.ok (found "/bin/make"), g) := by
    rw [run_checkEnvironment]
    have htools : world.checkTools (p.config.requirements p.verify true .builtin) =
        .ok (found "/bin/make") := by decide +kernel
    rw [htools]
    rfl
  have hlibrary : world.fs.find p.layout.libraryDir = .ok (["lib".toList], .directory) := by
    decide +kernel
  have hnul : p.request.call.holdsNul = false := by decide +kernel
  have himage : child.fs.image (.ofString "/bin/make") [] = .ok ⟨"true", []⟩ := by decide +kernel
  have hpath : ∀ tool ∈ found "/bin/make", tool.role = "build tool" →
      tool.path = .ofString "/bin/make" := by decide +kernel
  have hstart : ∀ tool ∈ found "/bin/make", tool.role = "build tool" →
      ∃ q arguments image, child.fs.find q = world.fs.find tool.path ∧
        child.fs.image q arguments = .ok image := by
    intro tool hmem hrole
    rw [hpath tool hmem hrole]
    exact ⟨.ofString "/bin/make", [], _, find_within rfl, himage⟩
  obtain ⟨-, -, hstarts, hspawn⟩ :=
    starts_of_checkEnvironment hcheck hlibrary hnul looksAlike_make hstart
  obtain ⟨-, hstarted⟩ := hstarts ⟨"build tool", .ofString "/bin/make"⟩ (by simp [found]) rfl
  exact ⟨hcheck, hlibrary, hnul, looksAlike_make, himage, hstarted, hspawn⟩

/-- The check passes and the build cannot start the tool: where its name has a slash and is taken
from the directory of the library, and where its file cannot be executed. -/
theorem spawn_after_checkEnvironment :
    let checked (make : String) :=
      (((pipeline make).checkEnvironment true .builtin).run.run ⟨world, .notStarted⟩).1
    let built (make : String) := ((makeBuild.build (pipeline make).request).run.run world).1
    world.fs.find (.ofString "/lib") = .ok (["lib".toList], .directory) ∧
      checked "tools/make" = .ok (found "tools/make") ∧
      built "tools/make" = .error (.spawn "tools/make" .notFound) ∧
      checked "locked" = .ok (found "/bin/locked") ∧
      built "locked" = .error (.spawn "locked" .permissionDenied) := by
  refine ⟨?_, ?_, ?_, ?_, ?_⟩
  all_goals decide +kernel

end Startable

end ConstPromotion
