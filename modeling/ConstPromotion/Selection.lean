import ConstPromotion.Attempt
import ConstPromotion.Config.Basic
import ConstPromotion.Patch.Report
import ConstPromotion.Path.Clean

/-!
# Selection of files

The reviewed files come first, in the order in which they are listed and whether they exist or not.
After them come the files that a scan of the tree finds: those with one of the extensions that hold
at least one declaration to promote. A file is selected once, under whichever spelling it is listed,
and a denied file is not scanned; denying does not touch the reviewed list.
-/

namespace ConstPromotion

/-- Which files of a tree are selected. -/
structure SelectionPolicy where
  /-- The reviewed files, relative to the root. -/
  allowList : List Path
  /-- The files that the scan leaves out, relative to the root. -/
  denyList : List Path
  /-- The extensions of the files that are scanned, without the dot. -/
  extensions : List String

/-- The policy that a configuration describes. -/
def Config.selectionPolicy (c : Config) : SelectionPolicy where
  allowList := c.allowList.map Path.ofString
  denyList := c.denyList.map Path.ofString
  extensions := c.scanExtensions

/-- Why a file was selected. -/
inductive CandidateOrigin where
  | allowList
  | scan
deriving DecidableEq

/-- A selected file. -/
structure Candidate where
  path : Path
  /-- The key of the file below the root. -/
  relative : Path
  origin : CandidateOrigin
deriving DecidableEq

/-- Why no files could be selected. -/
inductive SelectionError where
  | missingRoot (root : Path)
deriving DecidableEq

/-- The wording of an error. -/
def SelectionError.message : SelectionError → String
  | .missingRoot root => "Source root does not exist: " ++ root.toString

/-- Whether promotion would change a content. -/
def hasDeclaration (content : Bytes) : Bool :=
  (content.splitOn 0x0A).any fun line => (ArrayDeclaration.matchBytes? line).isSome

/-- Whether promotion would change the file at a path of a disk. A file that cannot be read has
nothing to promote. -/
def Disk.isPromotable (disk : Disk) (fs : FileSystem) (p : Path) : Bool :=
  match disk.read fs p with
  | .ok content => hasDeclaration content
  | .error _ => false

/-- Whether promotion would change the file at a path. -/
def FileSystem.isPromotable (fs : FileSystem) (p : Path) : Bool := Disk.plain.isPromotable fs p

/-- Whether a path has one of the extensions, upper and lower case letters of ASCII being the same.
An extension that is no text is none of them. -/
def Disk.hasExtension (disk : Disk) (extensions : List String) (p : Path) : Bool :=
  match p.extension? with
  | some e => disk.isText e &&
    extensions.any fun wanted => wanted.toList.map Char.toLower = e.map Char.toLower
  | none => false

/-- Whether a path has one of the extensions, all names being text. -/
def hasExtension (extensions : List String) (p : Path) : Bool :=
  Disk.plain.hasExtension extensions p

/-- Whether a path is among others under some spelling. -/
def isAmong (p : Path) (others : List Path) : Bool := others.any (·.same p)

/-- The keys of the reviewed files, without those that an earlier entry has under some spelling. -/
def reviewedKeys (root : Path) (allowList : List Path) : List Path :=
  allowList.foldl (fun keys entry =>
    let key := Path.keyUnder root entry
    if isAmong key keys then keys else keys ++ [key]) []

/-- Selects the files of a tree on a disk. -/
def selectCandidatesOn (disk : Disk) (fs : FileSystem) (root : Path) (policy : SelectionPolicy) :
    Except SelectionError (List Candidate) :=
  if disk.isDirectory fs root then
    let reviewed := reviewedKeys root policy.allowList
    let left := reviewed ++ policy.denyList.map (Path.keyUnder root)
    let scanned := (disk.filesBelow fs root).filter fun p =>
      disk.hasExtension policy.extensions p && !isAmong (Path.keyUnder root p) left
        && disk.isPromotable fs p
    .ok (reviewed.map (fun key => ⟨root.join key, key, .allowList⟩)
      ++ scanned.map fun p => ⟨p, Path.keyUnder root p, .scan⟩)
  else .error (.missingRoot root)

/-- Selects the files of a tree. -/
def selectCandidates (fs : FileSystem) (root : Path) (policy : SelectionPolicy) :
    Except SelectionError (List Candidate) :=
  selectCandidatesOn .plain fs root policy

/-! ### Written forms -/

/-- The name of an origin in reports. -/
def CandidateOrigin.name : CandidateOrigin → String
  | .allowList => "allow_list"
  | .scan => "scan"

/-- The JSON form of a selected file. -/
def Candidate.toJson (c : Candidate) : Json :=
  .record [("path", c.path.toJson), ("relative", c.relative.toJson),
    ("origin", .text c.origin.name)]

end ConstPromotion
