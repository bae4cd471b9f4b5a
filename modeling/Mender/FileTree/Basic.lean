import Mender.Path
import Std.Data.ExtTreeMap

/-!
# File trees

A file tree maps locations to entries: regular files, directories and symbolic links. A location is
the list of names from the top. Two file trees with the same entries are equal.
-/

namespace Mender

/-- Where an entry is: the names on the way to it from the top. -/
abbrev Location := List Text

/-- What can be at a location. -/
inductive Entry where
  | file (bytes : ByteArray)
  | directory
  | link (target : Text)

/-- Entries are compared by their kind and by the bytes or the target. -/
instance : DecidableEq Entry
  | .file a, .file b =>
    if h : a.data = b.data then .isTrue (congrArg Entry.file (ByteArray.ext h))
    else .isFalse fun e => h (congrArg ByteArray.data (Entry.file.inj e))
  | .link a, .link b =>
    if h : a = b then .isTrue (congrArg Entry.link h) else .isFalse fun e => h (Entry.link.inj e)
  | .directory, .directory => .isTrue rfl
  | .file _, .directory => .isFalse nofun
  | .file _, .link _ => .isFalse nofun
  | .directory, .file _ => .isFalse nofun
  | .directory, .link _ => .isFalse nofun
  | .link _, .file _ => .isFalse nofun
  | .link _, .directory => .isFalse nofun

/-- A file tree, seen from its working directory. -/
structure FileTree where
  entries : Std.ExtTreeMap Location Entry
  workingDirectory : Location

namespace FileTree

/-- The tree with nothing but the way to its working directory. -/
def empty (workingDirectory : Location) : FileTree :=
  let way := (List.range workingDirectory.length).map fun i => workingDirectory.take (i + 1)
  ⟨way.foldl (fun m l => m.insert l .directory) ∅, workingDirectory⟩

/-- The entry at a location. The top is always a directory. -/
def get? (tree : FileTree) (l : Location) : Option Entry :=
  if l = [] then some .directory else tree.entries[l]?

/-- Puts an entry at a location. -/
def put (tree : FileTree) (l : Location) (e : Entry) : FileTree :=
  { tree with entries := tree.entries.insert l e }

/-- Removes a location with all that is below it. -/
def erase (tree : FileTree) (l : Location) : FileTree :=
  { tree with entries := tree.entries.filter fun k _ => !l.isPrefixOf k }

/-- All entries with their locations, a directory before what is in it. -/
def toList (tree : FileTree) : List (Location × Entry) := tree.entries.toList

/-- The entries below a location, with the names on the way to them, in the order of their names. -/
def below (tree : FileTree) (l : Location) : List (Location × Entry) :=
  tree.toList.filterMap fun (k, e) =>
    if l.isPrefixOf k && l.length < k.length then some (k.drop l.length, e) else none

/-- The entries of a directory with their names. -/
def children (tree : FileTree) (l : Location) : List (Text × Entry) :=
  (tree.below l).filterMap fun
    | ([name], e) => some (name, e)
    | _ => none

/-- The length of the longest location. -/
def height (tree : FileTree) : Nat :=
  tree.toList.foldl (fun h (k, _) => max h k.length) 0

/-- An entry that was put is found at its location, and no other location is changed. -/
theorem get?_put (tree : FileTree) {l : Location} (e : Entry) (l' : Location) (h : l ≠ []) :
    (tree.put l e).get? l' = if l' = l then some e else tree.get? l' := by
  unfold get? put
  by_cases h' : l' = []
  · subst h'; simp [Ne.symm h]
  · by_cases hl : l' = l
    · subst hl; simp [h']
    · have : l ≠ l' := fun hh => hl hh.symm
      simp [h', hl, Std.ExtTreeMap.getElem?_insert, this]

end FileTree

/-- Why an operation on a file tree is refused. -/
inductive FileError where
  | notFound
  | alreadyExists
  | notDirectory
  | isDirectory
  | nameTooLong
  | linkLoop
  | nulInPath
deriving DecidableEq, Repr

/-- The text of a refusal. -/
def FileError.message : FileError → Text
  | .notFound => "No such file or directory (os error 2)"
  | .alreadyExists => "File exists (os error 17)"
  | .notDirectory => "Not a directory (os error 20)"
  | .isDirectory => "Is a directory (os error 21)"
  | .nameTooLong => "File name too long (os error 36)"
  | .linkLoop => "Too many levels of symbolic links (os error 40)"
  | .nulInPath => "file name contained an unexpected NUL byte"

end Mender
