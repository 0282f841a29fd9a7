import ConstPromotion.Program
import ConstPromotion.Text.Timestamp
import Std.Time.DateTime.Timestamp

/-!
# The command line

Reads what lies below the working directory, below the directories named on the command line and
below those of the search path, runs the program on it, and carries out on disk what the program
changed.
-/

namespace ConstPromotion

/-- The nodes that a run starts with or leaves behind. -/
abbrev Nodes := SortedMap Location Node

/-- The location of an absolute path. -/
def Location.ofString (s : String) : Location :=
  (Path.ofString s).components.filterMap fun
    | .name n => some n
    | _ => none

/-- A location as text. -/
def Location.text (l : Location) : String := l.path.toString

/-- A file as it is kept for a run. Scripts and machine code may be executed. -/
def fileNode (name : String) (content : Bytes) : Node :=
  if [0x7F, 0x45, 0x4C, 0x46].isPrefixOf content && utilityNames.contains name then
    .file (utilityImage name) true
  else
    .file content ([0x23, 0x21].isPrefixOf content || [0x7F, 0x45, 0x4C, 0x46].isPrefixOf content)

/-- Reads what lies at and below a path. -/
partial def loadNodes (wanted : String → Bool) (path : String) (nodes : Nodes) : IO Nodes := do
  let place := (IO.FS.DirEntry.mk path "").root
  let location := Location.ofString path
  match (← place.symlinkMetadata).type with
  | .dir =>
    let mut nodes := nodes.insert location .directory
    for entry in ← place.readDir do
      if wanted entry.fileName then nodes ← loadNodes wanted entry.path.toString nodes
    return nodes
  | .file =>
    let content ← IO.FS.readBinFile path
    return nodes.insert location
      (fileNode (String.ofList (location.getLastD [])) content.toList)
  | .symlink => return nodes.insert location (.link (← IO.FS.realPath path).toString.toList)
  | .other => return nodes

/-- Adds the directories that lead to a location. -/
def withParents (location : Location) (nodes : Nodes) : Nodes :=
  ((List.range location.length).drop 1).foldl (fun nodes n =>
    nodes.insert (location.take n) .directory) nodes

/-- The absolute paths that an argument names, also after an equals sign. -/
def namedPlaces (argument : String) : List String :=
  let value := (longOption? argument).bind Prod.snd |>.getD argument
  if value.toList.head? = some '/' then [value] else []

/-- The nodes that a run with the given arguments starts with. -/
def loadDisk (here search scratch : String) (arguments : List String) : IO Nodes := do
  let mut nodes : Nodes := SortedMap.empty
  let tools := (searchDirectories search).map Path.toString
  for place in tools do
    nodes ← try loadNodes utilityNames.contains place nodes catch _ => pure nodes
  for place in here :: arguments.flatMap namedPlaces do
    nodes ← try loadNodes (fun _ => true) place nodes catch _ => pure nodes
  nodes := nodes.insert (Location.ofString scratch) .directory
  for (location, _) in nodes.entries do
    nodes := withParents location nodes
  return nodes

/-- Puts a node on disk. -/
def storeNode (location : Location) : Node → IO Unit
  | .directory => IO.FS.createDirAll location.text
  | .file content executable => do
    IO.FS.writeBinFile location.text ⟨content.toArray⟩
    if executable then
      let all : IO.AccessRight := ⟨true, true, true⟩
      let others : IO.AccessRight := ⟨true, false, true⟩
      IO.setAccessRights location.text ⟨all, others, others⟩
  | .link _ => return ()

/-- Carries out on disk what a run changed. -/
def storeDisk (before after : Nodes) : IO Unit := do
  for (location, node) in before.entries.reverse do
    if (after.get? location).isNone then
      if node = .directory then IO.FS.removeDirAll location.text
      else IO.FS.removeFile location.text
  for (location, node) in after.entries do
    if before.get? location ≠ some node then storeNode location node

/-- The values of the variables that a run looks at. -/
def loadEnvironment : IO (List (String × String)) := do
  let names := ["PATH", "TMPDIR", "CONSTPATCH_CC", "CONSTPATCH_READELF", verifyVariable]
  return (← names.mapM fun name => return (← IO.getEnv name).map (name, ·)).filterMap id

/-- Runs the program on the disk. -/
def runOnDisk (arguments : List String) : IO UInt32 := do
  let here := (← IO.currentDir).toString
  let vars ← loadEnvironment
  let valueOr (name other : String) := (vars.lookup name).getD other
  let before ←
    loadDisk here (valueOr "PATH" defaultSearchPath) (valueOr "TMPDIR" "/tmp") arguments
  let now := (← Std.Time.Timestamp.now).toNanosecondsSinceUnixEpoch.toInt.toNat
  let (status, world) := (program arguments).run
    { fs := ⟨before, Location.ofString here⟩
      env := .ofList vars
      clock := Timestamp.render (now / 1000000000) (now % 1000000000) }
  storeDisk before world.fs.nodes
  (← IO.getStdout).write ⟨world.stdout.toArray⟩
  (← IO.getStderr).write ⟨world.stderr.toArray⟩
  return UInt32.ofNat status

end ConstPromotion

/-- The command line. -/
def main (arguments : List String) : IO UInt32 := ConstPromotion.runOnDisk arguments
