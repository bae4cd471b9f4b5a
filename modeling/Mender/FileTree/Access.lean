import Mender.FileTree.Resolve

/-!
# Reading and writing

The operations on files of a tree. A refused operation changes nothing. Writing follows symbolic
links, also to a file that does not exist yet; creating a file or a link does not.
-/

namespace Mender.FileTree

/-- The entry that a path leads to. -/
def stat (tree : FileTree) (purpose : Purpose) (p : Path) :
    Except FileError (Location × Entry) := do
  match ← tree.resolve purpose p with
  | .present l e => return (l, e)
  | .vacant _ => throw .notFound

/-- Whether a path leads to an entry, through symbolic links. -/
def pathExists (tree : FileTree) (p : Path) : Bool := (tree.stat .use p).isOk

/-- Whether a path leads to a directory, through symbolic links. -/
def isDirectory (tree : FileTree) (p : Path) : Bool :=
  match tree.stat .use p with
  | .ok (_, .directory) => true
  | _ => false

/-- The bytes of the file that a path leads to. -/
def read (tree : FileTree) (p : Path) : Except FileError ByteArray := do
  match ← tree.stat .use p with
  | (_, .file bytes) => return bytes
  | _ => throw .isDirectory

/-- Writes a file: an existing one gets new bytes, and a missing one is made. -/
def write (tree : FileTree) (p : Path) (bytes : ByteArray) : Except FileError FileTree := do
  match ← tree.resolve .write p with
  | .present l (.file _) => return tree.put l (.file bytes)
  | .present _ _ => throw .isDirectory
  | .vacant l => return tree.put l (.file bytes)

/-- Makes a file where nothing is. -/
def create (tree : FileTree) (p : Path) (bytes : ByteArray) : Except FileError FileTree := do
  match ← tree.resolve .make p with
  | .present _ _ => throw .alreadyExists
  | .vacant l => return tree.put l (.file bytes)

/-- Makes a symbolic link where nothing is. The target is spelled as a path and need not exist. -/
def createLink (tree : FileTree) (p : Path) (goal : Text) : Except FileError FileTree := do
  checkSpelling ⟨goal⟩
  match ← tree.resolve .make p with
  | .present _ _ => throw .alreadyExists
  | .vacant l => return tree.put l (.link goal)

/-- Makes a directory where nothing is. A separator at the end of the path makes no difference. -/
def createDirectory (tree : FileTree) (p : Path) : Except FileError FileTree := do
  let name : Path := ⟨(p.text.reverse.dropWhile (· = '/')).reverse⟩
  match ← tree.resolve .inspect (if name.text = [] then p else name) with
  | .present _ _ => throw .alreadyExists
  | .vacant l => return tree.put l .directory

/-- Makes a directory and all directories on the way to it, unless they are there; at most `n` of
them. The directories that were made stay if a later one is refused. -/
def createDirectoriesUpTo : (n : Nat) → FileTree → Path → FileTree × Except FileError Unit
  | 0, tree, _ => (tree, .error .notFound)
  | n + 1, tree, p =>
    let attempt (tree : FileTree) (otherwise : FileTree × Except FileError Unit) :
        FileTree × Except FileError Unit :=
      match tree.createDirectory p with
      | .ok tree => (tree, .ok ())
      | .error .notFound => otherwise
      | .error e => if tree.isDirectory p then (tree, .ok ()) else (tree, .error e)
    if p.text = [] then (tree, .ok ())
    else attempt tree <|
      match p.parent? with
      | none => (tree, .error .notFound)
      | some parent =>
        match createDirectoriesUpTo n tree parent with
        | (tree, .ok ()) => attempt tree (tree, .error .notFound)
        | (tree, .error e) => (tree, .error e)

/-- Makes a directory and all directories on the way to it, unless they are there. -/
def createDirectories (tree : FileTree) (p : Path) : FileTree × Except FileError Unit :=
  createDirectoriesUpTo (p.text.length + 1) tree p

/-- Removes the entry that a path names, with all that is below it. -/
def remove (tree : FileTree) (p : Path) : Except FileError FileTree := do
  let (l, _) ← tree.stat .inspect p
  return tree.erase l

end Mender.FileTree
