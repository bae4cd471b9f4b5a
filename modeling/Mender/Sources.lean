import Mender.Failure
import Mender.FileTree.Walk

/-!
# Sources

Which files under a root are sources. A source has one of the wanted extensions and none of the
excluded endings. Directories of build output and of tools are not searched.
-/

namespace Mender

/-- What makes a file a source. -/
structure SourceQuery where
  extensions : List Text
  excluded : List Text
  recursive : Bool
deriving DecidableEq, Repr

namespace SourceQuery

/-- The query that settings ask for. Backups are never sources. -/
def ofSettings (b : BatchSettings) : SourceQuery :=
  ⟨b.extensions, b.nonSourceSuffixes, b.recursive⟩

/-- The directories that are not searched. -/
def prunedDirectories : List Text := [".git", ".vs", "bin", "obj", "node_modules", "packages"]

/-- Whether two texts are the same up to the case of ASCII letters. -/
def sameIgnoringCase (a b : Text) : Bool := a.map Char.toLower = b.map Char.toLower

/-- Whether a path is that of a source. -/
def selects (q : SourceQuery) (p : Path) : Bool :=
  match p.fileName?, p.extension? with
  | some name, some ext =>
    !q.excluded.any (·.isSuffixOf name) && q.extensions.any (sameIgnoringCase ext)
  | _, _ => false

/-- The sources under a root, in the order of their paths, for a listing of the entries of each
directory. -/
def findBy (q : SourceQuery) (tree : FileTree) (list : Location → List (Text × Entry)) (root : Path) :
    Except Failure (List Path) :=
  match tree.walkBy list prunedDirectories.contains q.recursive root with
  | .error e => .error (.filesystem root (.scan root e))
  | .ok files => .ok (Path.sort (files.filter q.selects))

/-- The sources under a root of a tree. -/
def find (q : SourceQuery) (tree : FileTree) (root : Path) : Except Failure (List Path) :=
  q.findBy tree tree.children root

end SourceQuery

end Mender
