import Mender.Failure
import Mender.FileTree.Walk

/-!
# Backups

The backup of a source stands beside it and has the source's name with a suffix. A backup is made
once and never overwritten, so that it holds what the source was before it was first touched.
Restoring copies the backup over its source and leaves the backup where it is.
-/

namespace Mender

/-- What became of a backup that was asked for. -/
inductive BackupFate where
  /-- It was made. -/
  | made
  /-- There was one already, and it was kept. -/
  | kept
deriving DecidableEq, Repr

namespace Backup

/-- The path of the backup of a source. -/
def pathOf (suffix : Text) (source : Path) : Path := source.append suffix

/-- A text without a given ending. -/
def withoutSuffix? (suffix t : Text) : Option Text :=
  if suffix.isSuffixOf t then some (t.take (t.length - suffix.length)) else none

/-- The path of the source that a backup belongs to, if its name has the suffix and more. -/
def sourceOf? (suffix : Text) (backup : Path) : Option Path := do
  let name ← backup.fileName?
  match ← withoutSuffix? suffix name with
  | [] => none
  | rest => some (backup.withFileName rest)

/-- Whether a backup is in place: a regular file, not a link to one. Anything else there is a
failure. -/
def inPlace (tree : FileTree) (backup : Path) : Except Failure Bool :=
  match tree.stat .inspect backup with
  | .ok (_, .file _) => .ok true
  | .ok _ => .error (.backup backup .notRegular)
  | .error .notFound => .ok false
  | .error e => .error (.backup backup (.refused e))

/-- Makes the backup of a source unless there is one. -/
def ensure (suffix : Text) (tree : FileTree) (source : Path) :
    Except Failure (BackupFate × FileTree) := do
  let backup := pathOf suffix source
  if ← inPlace tree backup then return (.kept, tree)
  match tree.read source with
  | .error e => throw (.backup source (.refused e))
  | .ok bytes =>
    match tree.create backup bytes with
    | .ok tree => return (.made, tree)
    | .error e => throw (.backup backup (.refused e))

/-- Writes the bytes of a source's backup over the source. -/
def restore (suffix : Text) (tree : FileTree) (source : Path) : Except Failure FileTree :=
  let backup := pathOf suffix source
  match tree.read backup with
  | .error e => .error (.filesystem backup (.refused e))
  | .ok bytes =>
    match tree.write source bytes with
    | .error e => .error (.filesystem source (.refused e))
    | .ok tree => .ok tree

/-- The backups under a root, in the order of their paths. -/
def find (suffix : Text) (tree : FileTree) (root : Path) (recursive : Bool) :
    Except Failure (List Path) :=
  match tree.walk (fun _ => false) recursive root with
  | .error e => .error (.filesystem root (.scan root e))
  | .ok files => .ok (Path.sort (files.filter fun p => (sourceOf? suffix p).isSome))

end Backup

end Mender
