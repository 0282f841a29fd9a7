import ConstPromotion.Shell.Program

/-!
# Tools

Whether the tools that a run needs are there. A name with more than one component is a path, and a
bare name is looked for in the directories of the search path.
-/

namespace ConstPromotion

/-- A tool that is needed, with the part it plays. -/
structure ToolRequirement where
  role : String
  name : String
deriving DecidableEq

/-- A tool that was found, with the part it plays. -/
structure ResolvedTool where
  role : String
  path : Path
deriving DecidableEq

/-- Why a run cannot start. -/
inductive ToolchainError where
  | missing (tool : ToolRequirement)
deriving DecidableEq

/-- The wording of an error. -/
def ToolchainError.message : ToolchainError → String
  | .missing t =>
    "Required " ++ t.role ++ " '" ++ t.name
      ++ "' not found (install it or adjust the toolchain config)"

namespace World

/-- The first file with a name in the directories of the search path. -/
def findInPath (w : World) (name : String) : Option Path := do
  let path ← w.env.get? "PATH"
  ((searchDirectories path).map fun dir => dir.join (.ofString name)).find? w.fs.isFile

/-- The file of a tool. -/
def resolveTool (w : World) (name : String) : Option Path :=
  if name = "" then none
  else
    let p := Path.ofString name
    if p.components.length > 1 ∨ p.isAbsolute then
      if w.fs.isFile p then some p else none
    else w.findInPath name

/-- The files of all tools, or the first tool that is missing. -/
def checkTools (w : World) (tools : List ToolRequirement) :
    Except ToolchainError (List ResolvedTool) :=
  tools.mapM fun tool =>
    match w.resolveTool tool.name with
    | some path => .ok ⟨tool.role, path⟩
    | none => .error (.missing tool)

end World

end ConstPromotion
