import Mender.FileTree.Basic

/-!
# Resolving paths

A path is followed part by part from the working directory, or from the top. A symbolic link on the
way is replaced by its target; one at the end of the path is followed or not, by the purpose that
the path is followed for. The number of links that one path leads through is limited, and so is the
length of names and of paths.
-/

namespace Mender.FileTree

/-- How many symbolic links one path may lead through. -/
def maxLinks : Nat := 40

/-- How many bytes a name may have. -/
def maxNameBytes : Nat := 255

/-- How many bytes a path may have. -/
def maxPathBytes : Nat := 4095

/-- Whether a path has too many bytes to be followed. -/
def isTooLong (p : Path) : Bool := maxPathBytes < Text.byteLength p.text

/-- Where a path leads. -/
inductive Place where
  /-- To an entry. -/
  | present (l : Location) (e : Entry)
  /-- To a name that is free in a directory that exists. -/
  | vacant (l : Location)
deriving DecidableEq

/-- What a path is followed for. -/
inductive Purpose where
  /-- To look at the entry that it names. -/
  | inspect
  /-- To use the entry that it leads to. -/
  | use
  /-- To write the file that it leads to, which need not exist. -/
  | write
  /-- To make the entry that it names. -/
  | make
deriving DecidableEq, Repr

namespace Purpose

/-- Whether a symbolic link at the end of the path is followed. -/
def followsLast : Purpose → Bool
  | .use => true
  | .write => true
  | _ => false

/-- Whether a file may come to be at the end of the path. -/
def mayMake : Purpose → Bool
  | .write => true
  | .make => true
  | _ => false

end Purpose

/-- The parts of a path that are followed one by one. A separator at the end leaves an empty part,
which asks for a directory. -/
def steps (t : Text) : List Text :=
  (Path.split t).filter (· ≠ []) ++ (if t.getLast? = some '/' then [[]] else [])

/-- Where a path that begins with this text is followed from. -/
def origin (t : Text) (here : Location) : Location := if t.head? = some '/' then [] else here

/-- Follows parts from the directory `dir`, through at most `links` symbolic links. No file can be
made under a name with a separator behind it. -/
def follow (tree : FileTree) (purpose : Purpose) :
    (links : Nat) → (parts : List Text) → (dir : Location) → Except FileError Place
  | _, [], dir => .ok (.present dir .directory)
  | links, part :: parts, dir =>
    if part = [] ∨ part = ['.'] then follow tree purpose links parts dir
    else if part = ['.', '.'] then follow tree purpose links parts dir.dropLast
    else if purpose.mayMake ∧ parts = [[]] then .error .isDirectory
    else if maxNameBytes < Text.byteLength part then .error .nameTooLong
    else
      let l := dir ++ [part]
      match tree.get? l with
      | none => if parts = [] then .ok (.vacant l) else .error .notFound
      | some .directory => follow tree purpose links parts l
      | some (.file bytes) =>
        if parts = [] then .ok (.present l (.file bytes)) else .error .notDirectory
      | some (.link target) =>
        if parts = [] ∧ !purpose.followsLast then .ok (.present l (.link target))
        else match links with
          | 0 => .error .linkLoop
          | links + 1 => follow tree purpose links (steps target ++ parts) (origin target dir)
termination_by links parts => (links, parts.length)

/-- Checks what can be said of a path without the tree. -/
def checkSpelling (p : Path) : Except FileError Unit :=
  if '\x00' ∈ p.text then .error .nulInPath
  else if p.text = [] then .error .notFound
  else if isTooLong p then .error .nameTooLong
  else .ok ()

/-- Where a path leads. -/
def resolve (tree : FileTree) (purpose : Purpose) (p : Path) : Except FileError Place := do
  checkSpelling p
  tree.follow purpose maxLinks (steps p.text) (origin p.text tree.workingDirectory)

end Mender.FileTree
