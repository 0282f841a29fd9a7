import ConstPromotion.OsError
import ConstPromotion.Path.Basic
import ConstPromotion.SortedMap
import ConstPromotion.Text.Utf8

/-!
# File systems

A file system is a finite map from locations to nodes. A location is the list of names that lead to
a node from the root, without links; the root itself is always a directory and has no entry.
Locations are ordered name by name, so the entries below a directory are in the order in which a
walk that goes through sorted names meets them.
-/

namespace ConstPromotion

/-- The names that lead to a node from the root. -/
abbrev Location := List Name

instance : OrderedKey Location where
  trans := List.lt_trans
  eq_of_not_lt h h' := List.le_antisymm (List.not_lt.1 h') (List.not_lt.1 h)

/-- The absolute path of a location. -/
def Location.path (l : Location) : Path := .ofComponents (.root :: l.map Component.name)

/-- What lies at a location. -/
inductive Node where
  | file (content : Bytes) (executable : Bool)
  | directory
  | link (target : List Char)
deriving DecidableEq

/-- A file system, with the directory in which relative paths start. -/
structure FileSystem where
  nodes : SortedMap Location Node
  workingDir : Location

namespace FileSystem

/-- The node at a location. -/
def nodeAt (fs : FileSystem) (l : Location) : Option Node :=
  if l = [] then some .directory else fs.nodes.get? l

/-- Puts a node at a location. -/
def put (fs : FileSystem) (l : Location) (n : Node) : FileSystem :=
  { fs with nodes := fs.nodes.insert l n }

/-- Removes what lies at a location and below it. -/
def removeAt (fs : FileSystem) (l : Location) : FileSystem :=
  { fs with nodes := fs.nodes.restrict fun k => !l.isPrefixOf k }

/-- The entries of the directory at a location, in the order of their names. -/
def childrenAt (fs : FileSystem) (l : Location) : List (Name × Node) :=
  fs.nodes.entries.filterMap fun (k, n) =>
    match l.isPrefixOf? k with
    | some [name] => some (name, n)
    | _ => none

/-- A bound on the depth of all locations. -/
def depth (fs : FileSystem) : Nat := (fs.nodes.keys.map List.length).foldl max 0


end FileSystem

end ConstPromotion
