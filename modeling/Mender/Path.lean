import Mender.Text.Basic

/-!
# Paths

A path is kept as it is spelled. What it means is its list of components: repeated separators, a
separator at the end and parts that are a single dot make no difference, except that a dot at the
very front counts. Paths are ordered component by component.
-/

namespace Mender

/-- A path as it is spelled. -/
structure Path where
  text : Text
deriving DecidableEq, Repr

namespace Path

instance : Coe String Path := ⟨fun s => ⟨s.toList⟩⟩

/-- The parts of a text between separators. -/
def split : Text → List Text
  | [] => [[]]
  | c :: t =>
    if c = '/' then [] :: split t
    else match split t with
      | [] => [[c]]
      | s :: ss => (c :: s) :: ss

/-- Puts a separator between neighbouring parts. -/
def unsplit (parts : List Text) : Text := List.intercalate ['/'] parts

/-- A component of a path. -/
inductive Component where
  /-- The top of the file system. -/
  | root
  /-- The working directory, at the front of a path only. -/
  | current
  /-- The directory above. -/
  | parent
  /-- An entry of a directory. -/
  | normal (name : Text)
deriving DecidableEq, Repr

namespace Component

/-- The place of each kind of component in the order of paths. -/
def rank : Component → Nat
  | .root => 0
  | .current => 1
  | .parent => 2
  | .normal _ => 3

/-- The name of a normal component. -/
def name : Component → Text
  | .normal n => n
  | _ => []

instance : Ord Component := ⟨compareLex (compareOn rank) (compareOn name)⟩

end Component

/-- Whether a part of a path says nothing. -/
def isIdle (part : Text) : Bool := part.isEmpty || part == ['.']

/-- What a path begins with, if that is not an entry or the directory above. -/
def lead (p : Path) : Option Component :=
  match split p.text with
  | [] :: _ :: _ => some .root
  | ['.'] :: _ => some .current
  | _ => none

/-- The parts of a path behind its lead. -/
def body (p : Path) : List Text :=
  if p.lead.isSome then (split p.text).tail else split p.text

/-- The component that a part stands for. -/
def ofPart (part : Text) : Component := if part = ['.', '.'] then .parent else .normal part

/-- The components of a path. -/
def components (p : Path) : List Component :=
  p.lead.toList ++ (p.body.filter (!isIdle ·)).map ofPart

instance : Ord Path := ⟨compareOn components⟩

/-- The name of the entry that a path ends in. -/
def fileName? (p : Path) : Option Text :=
  match p.components.getLast? with
  | some (.normal n) => some n
  | _ => none

/-- What follows the last dot of the file name, unless that dot is its first character. -/
def extension? (p : Path) : Option Text := do
  let n ← p.fileName?
  let ext := (n.reverse.takeWhile (· ≠ '.')).reverse
  if ext.length + 1 < n.length then some ext else none

/-- Leaves out the parts at the end that say nothing. -/
def trimParts (parts : List Text) : List Text := (parts.reverse.dropWhile isIdle).reverse

/-- The text of a path with the given lead and parts. -/
def spell (lead : Option Component) (parts : List Text) : Text :=
  match lead, parts with
  | some .root, parts => '/' :: unsplit parts
  | some .current, [] => ['.']
  | some .current, parts => ['.', '/'] ++ unsplit parts
  | _, parts => unsplit parts

/-- The path without its last component. The root and the empty path have none. -/
def parent? (p : Path) : Option Path :=
  match trimParts p.body, p.lead with
  | [], some .current => some ⟨[]⟩
  | [], _ => none
  | parts, lead => some ⟨spell lead (trimParts parts.dropLast)⟩

/-- The path of an entry in the directory that a path denotes. -/
def join (p : Path) (name : Text) : Path :=
  ⟨if p.text = [] ∨ p.text.getLast? = some '/' then p.text ++ name
   else p.text ++ ['/'] ++ name⟩

/-- The path with another name in place of its last one. -/
def withFileName (p : Path) (name : Text) : Path :=
  if p.fileName?.isSome then (p.parent?.getD p).join name else p.join name

/-- The path with a text put behind its spelling. -/
def append (p : Path) (t : Text) : Path := ⟨p.text ++ t⟩

/-- Sorts paths by their components. -/
def sort (ps : List Path) : List Path := ps.mergeSort fun a b => (compare a b).isLE

end Path

end Mender
