import ConstPromotion.FileSystem.Basic

/-!
# From paths to locations

A path is followed name by name. Every name but the last has to lead to a directory, links are
followed on the way, and a path that ends in a slash leads to a directory or nowhere. What a path
leads to is a node, or a free name in a directory where a node can be made.
-/

namespace ConstPromotion

/-- What a path leads to. -/
inductive Place where
  | found (location : Location) (node : Node)
  | free (location : Location)

/-- What is wanted of the name that a path ends in. -/
inductive Ending where
  /-- What lies there; a link is followed. -/
  | target
  /-- What lies there; a link stands for itself. -/
  | link
  /-- A place for a file; a link is followed, and no slash may stand after the name. -/
  | file
deriving DecidableEq

namespace FileSystem

/-- How many bytes a name may have. -/
def maxNameBytes : Nat := 255

/-- How many bytes a path may have, with the byte that ends it. -/
def maxPathBytes : Nat := 4096

/-- How many links may be followed on one path. -/
def maxLinks : Nat := 40

/-- Follows the pieces of a path from the directory at `here`. A link on the way, or at the end if
links are followed there, is handed to `onLink` with the directory it lies in, its target and the
pieces that are left. -/
def followWith (fs : FileSystem) (ending : Ending)
    (onLink : Location → (target : List Char) → List (List Char) → Except OsError Place) :
    (here : Location) → List (List Char) → Except OsError Place
  | here, [] => .ok (.found here .directory)
  | here, piece :: rest =>
    if piece = [] ∨ piece = ['.'] then followWith fs ending onLink here rest
    else if piece = ['.', '.'] then followWith fs ending onLink here.dropLast rest
    else if ending = .file ∧ rest ≠ [] ∧ rest.all (· = []) then .error .isDirectory
    else if Utf8.size piece > maxNameBytes then .error .nameTooLong
    else
      let there := here ++ [piece]
      match fs.nodeAt there with
      | none => if rest.all (· = []) then .ok (.free there) else .error .notFound
      | some .directory => followWith fs ending onLink there rest
      | some (.file content executable) =>
        if rest = [] then .ok (.found there (.file content executable)) else .error .notDirectory
      | some (.link target) =>
        if rest = [] ∧ ending = .link then .ok (.found there (.link target))
        else onLink here target rest

/-- Follows the pieces of a path, and at most the given number of links. -/
def followPieces (fs : FileSystem) (ending : Ending) : (links : Nat) → (here : Location) →
    List (List Char) → Except OsError Place
  | 0 => followWith fs ending fun _ _ _ => .error .tooManyLinks
  | links + 1 => followWith fs ending fun here target rest =>
    if target = [] then .error .notFound
    else
      followPieces fs ending links (if target.head? = some '/' then [] else here)
        (target.splitOn '/' ++ rest)

/-- What a path leads to, given what is wanted of its last name. -/
def resolve (fs : FileSystem) (ending : Ending) (p : Path) : Except OsError Place :=
  if p.chars.contains '\x00' then .error .nulInName
  else if p.chars = [] then .error .notFound
  else if Utf8.size p.chars ≥ maxPathBytes then .error .nameTooLong
  else if p.isAbsolute then fs.followPieces ending maxLinks [] (p.chars.splitOn '/')
  else if fs.nodeAt fs.workingDir = some .directory then
    fs.followPieces ending maxLinks fs.workingDir (p.chars.splitOn '/')
  else .error .notFound

/-- The node that a path leads to, with its location. -/
def find (fs : FileSystem) (p : Path) : Except OsError (Location × Node) := do
  match ← fs.resolve .target p with
  | .found l n => return (l, n)
  | .free _ => .error .notFound

/-- Whether a path leads to a regular file. -/
def isFile (fs : FileSystem) (p : Path) : Bool :=
  match fs.find p with
  | .ok (_, .file _ _) => true
  | _ => false

/-- Whether a path leads to a directory. -/
def isDirectory (fs : FileSystem) (p : Path) : Bool :=
  match fs.find p with
  | .ok (_, .directory) => true
  | _ => false

/-- Whether a path leads to anything. -/
def exists? (fs : FileSystem) (p : Path) : Bool := (fs.find p).toOption.isSome

/-- The working directory, unless it was removed. -/
def currentDir (fs : FileSystem) : Except OsError Path :=
  if fs.nodeAt fs.workingDir = some .directory then .ok (Location.path fs.workingDir)
  else .error .notFound

/-- The absolute path without links of what a path leads to. -/
def canonical (fs : FileSystem) (p : Path) : Except OsError Path := do
  let (l, _) ← fs.find p
  return Location.path l

end FileSystem

end ConstPromotion
