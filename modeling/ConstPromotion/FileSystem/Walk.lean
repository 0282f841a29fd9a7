import ConstPromotion.FileSystem.Operations

/-!
# Walking a tree

A walk visits the regular files of a tree, each directory in the order of the names in it, and goes
down into a directory when it meets it. Links below the root are not followed; a root that is a
link to a directory is.

The directories are listed by the effect `list`, so that a walk whose visits change files sees each
directory as it is when the walk gets there.
-/

namespace ConstPromotion

variable {m : Type → Type} [Monad m] {β : Type}

/-- Collects what the visits of entries of the directory at `dir` give; `descend` walks a directory
among them. -/
def walkEntries (visit descend : Path → m (List β)) (dir : Path) :
    List (Name × Node) → m (List β)
  | [] => return []
  | (name, node) :: entries => do
    let here ← match node with
      | .file _ _ => visit (dir.child name)
      | .directory => descend (dir.child name)
      | .link _ => pure []
    return here ++ (← walkEntries visit descend dir entries)

/-- Walks the directory at `dir`, at most `depth` levels of it, and collects what the visits give.
-/
def walkDirectory (list : Path → m (List (Name × Node))) (visit : Path → m (List β)) :
    (depth : Nat) → (dir : Path) → m (List β)
  | 0, _ => return []
  | depth + 1, dir => do
    walkEntries visit (walkDirectory list visit depth) dir (← list dir)

/-- Walks the tree at `root`, given what lies there in the file system at the start. A root that is
a file is visited, unless a link leads to it. -/
def FileSystem.walk (fs : FileSystem) (list : Path → m (List (Name × Node)))
    (visit : Path → m (List β)) (root : Path) : m (List β) :=
  match fs.resolve .link root, fs.find root with
  | .ok (.found _ (.file _ _)), _ => visit root
  | _, .ok (_, .directory) => walkDirectory list visit (fs.depth + 1) root
  | _, _ => pure []

/-- The entries of a directory, none if it cannot be listed. -/
def FileSystem.entriesOf (fs : FileSystem) (dir : Path) : List (Name × Node) :=
  (fs.children dir).toOption.getD []

end ConstPromotion
