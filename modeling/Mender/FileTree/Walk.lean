import Mender.FileTree.Access

/-!
# Walking a tree

A walk lists the regular files under a root. It does not follow symbolic links below the root; a
root that is a link to a directory is walked all the same. A file's path is the root as it was
spelled with the names on the way joined to it. In what order a directory lists its entries is left to a
listing; a tree has one of its own.
-/

namespace Mender.FileTree

/-- The regular files under the directory `dir`, at most `depth` levels down, for a listing of the entries
of each directory. Directories whose name is pruned are not entered, and neither are those whose path has
become too long to be followed. -/
def filesBy (list : Location → List (Text × Entry)) (pruned : Text → Bool) :
    (depth : Nat) → (path : Path) → (dir : Location) → List Path
  | 0, _, _ => []
  | depth + 1, path, dir => (list dir).flatMap fun (name, e) =>
    match e with
    | .file _ => [path.join name]
    | .link _ => []
    | .directory =>
      if pruned name || isTooLong (path.join name) then []
      else filesBy list pruned depth (path.join name) (dir ++ [name])

/-- The regular files under a root, for a listing of the entries of each directory: of the root alone, or of
all directories below it. -/
def walkBy (tree : FileTree) (list : Location → List (Text × Entry)) (pruned : Text → Bool)
    (recursive : Bool) (root : Path) : Except FileError (List Path) := do
  let depth := if recursive then tree.height + 1 else 1
  match ← tree.stat .inspect root with
  | (_, .file _) => return [root]
  | (l, .directory) => return filesBy list pruned depth root l
  | (_, .link _) =>
    match ← tree.stat .use root with
    | (l, .directory) => return filesBy list pruned depth root l
    | _ => return []

/-- The regular files under a directory of a tree. -/
def filesUnder (tree : FileTree) (pruned : Text → Bool) (depth : Nat) (path : Path) (dir : Location) :
    List Path :=
  filesBy tree.children pruned depth path dir

/-- The regular files under a root of a tree. -/
def walk (tree : FileTree) (pruned : Text → Bool) (recursive : Bool) (root : Path) :
    Except FileError (List Path) :=
  tree.walkBy tree.children pruned recursive root

end Mender.FileTree
