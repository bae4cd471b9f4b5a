import Mender.Diff.Line
import Mender.Diff.Compaction

/-!
# Unified diffs

The edits between two texts are joined into changes, the changes are grouped into hunks with a few
lines of context, and the hunks are written one after the other under a common heading.
-/

namespace Mender.Diff

/-- A maximal run of an edit script: lines kept, lines deleted, lines inserted, or lines deleted
with other lines inserted in their place. -/
inductive Change where
  | keep (old new len : Nat)
  | delete (old new len : Nat)
  | insert (old new len : Nat)
  | replace (old oldLen new newLen : Nat)
deriving DecidableEq, Repr

namespace Change

/-- The old lines that a change covers, as a half-open range. -/
def oldRange : Change → Nat × Nat
  | .keep o _ l => (o, o + l)
  | .delete o _ l => (o, o + l)
  | .insert o _ _ => (o, o)
  | .replace o l _ _ => (o, o + l)

/-- The new lines that a change covers, as a half-open range. -/
def newRange : Change → Nat × Nat
  | .keep _ n l => (n, n + l)
  | .delete _ n _ => (n, n)
  | .insert _ n l => (n, n + l)
  | .replace _ _ n l => (n, n + l)

/-- How many lines a change deletes. -/
def deleted : Change → Nat
  | .delete _ _ l => l
  | .replace _ l _ _ => l
  | _ => 0

/-- How many lines a change inserts. -/
def inserted : Change → Nat
  | .insert _ _ l => l
  | .replace _ _ _ l => l
  | _ => 0

end Change

/-- The deletions and insertions met since the last kept line, each as a run of lines. -/
structure Pending where
  deletion : Option (Nat × Nat × Nat) := none
  insertion : Option (Nat × Nat × Nat) := none

namespace Pending

/-- Lengthens a run of lines, or starts it. -/
def extend (old new len : Nat) : Option (Nat × Nat × Nat) → Option (Nat × Nat × Nat)
  | none => some (old, new, len)
  | some (o, n, l) => some (o, n, l + len)

/-- What the pending edits come to. -/
def change : Pending → List Change
  | ⟨some (o, _, l), some (_, n, k)⟩ => [.replace o l n k]
  | ⟨some (o, n, l), none⟩ => [.delete o n l]
  | ⟨none, some (o, n, l)⟩ => [.insert o n l]
  | ⟨none, none⟩ => []

end Pending

/-- Puts kept lines in front of changes, joining them with kept lines that stand there. -/
def consKeep (old new len : Nat) : List Change → List Change
  | .keep _ _ l :: cs => .keep old new (len + l) :: cs
  | cs => .keep old new len :: cs

/-- Joins edits into changes, where `p` was met before them. -/
def changesFrom : Pending → List Edit → List Change
  | p, [] => p.change
  | p, .keep o n l :: es => p.change ++ consKeep o n l (changesFrom {} es)
  | p, .delete o n l :: es => changesFrom { p with deletion := Pending.extend o n l p.deletion } es
  | p, .insert o n l :: es =>
    changesFrom { p with insertion := Pending.extend o n l p.insertion } es

/-- The changes between two lists of lines. -/
def changes (old new : Array Text) : List Change :=
  changesFrom {} (compact old new (edits old new))

/-- How many kept lines are shown before and after the changed ones. -/
def context : Nat := 2

/-- A stretch of a diff: changes with their context. -/
abbrev Hunk := List Change

/-- Only the last lines before the first change are context. -/
def trimFront : List Change → List Change
  | .keep o n l :: cs => .keep (o + (l - context)) (n + (l - context)) (min l context) :: cs
  | cs => cs

/-- Only the first lines behind the last change are context. -/
def trimBack (cs : List Change) : List Change :=
  match cs.getLast? with
  | some (.keep o n l) => cs.dropLast ++ [.keep o n (min l context)]
  | _ => cs

/-- Divides changes into hunks where more lines are kept than two contexts show; `group` holds the
hunk begun. What is only context is no hunk. -/
def hunksFrom : (group : Hunk) → List Change → List Hunk
  | [], [] => []
  | [.keep _ _ _], [] => []
  | group, [] => [group]
  | group, .keep o n l :: cs =>
    if 2 * context < l then
      (group ++ [.keep o n context]) ::
        hunksFrom [.keep (o + (l - context)) (n + (l - context)) context] cs
    else hunksFrom (group ++ [.keep o n l]) cs
  | group, c :: cs => hunksFrom (group ++ [c]) cs

/-- The hunks of a list of changes. -/
def hunks (cs : List Change) : List Hunk := hunksFrom [] (trimBack (trimFront cs))

/-- A line of a hunk, marked as kept, deleted or inserted. A line without terminator gets a note. -/
def markedLine (mark : Char) (line : Text) : Text :=
  if isTerminated line then mark :: line
  else mark :: line ++ "\n\\ No newline at end of file\n"

/-- The lines of a range, each with a mark. -/
def markedLines (mark : Char) (ls : Array Text) (range : Nat × Nat) : Text :=
  (ls.extract range.1 range.2).toList.flatMap (markedLine mark)

/-- A change as lines of a hunk. -/
def Change.render (old new : Array Text) (c : Change) : Text :=
  match c with
  | .keep _ _ _ => markedLines ' ' old c.oldRange
  | _ => markedLines '-' old c.oldRange ++ markedLines '+' new c.newRange

/-- A range of lines in the heading of a hunk: the first line counted from one, and the number of
lines unless it is one. An empty range names the line before it. -/
def rangeText (start stop : Nat) : Text :=
  match stop - start with
  | 0 => Text.ofNat start ++ ",0"
  | 1 => Text.ofNat (start + 1)
  | len => Text.ofNat (start + 1) ++ [','] ++ Text.ofNat len

/-- The ranges of old and of new lines that a hunk spans, by its first and its last change. -/
def Hunk.ranges (h : Hunk) : (Nat × Nat) × (Nat × Nat) :=
  match h.head?, h.getLast? with
  | some first, some last =>
    ((first.oldRange.1, last.oldRange.2), (first.newRange.1, last.newRange.2))
  | _, _ => ((0, 0), (0, 0))

/-- A hunk under its heading. -/
def Hunk.render (old new : Array Text) (h : Hunk) : Text :=
  let (o, n) := Hunk.ranges h
  "@@ -" ++ rangeText o.1 o.2 ++ " +" ++ rangeText n.1 n.2 ++ " @@\n" ++
    h.flatMap (Change.render old new)

/-- The unified diff from one text to another under the name of a file; empty if they agree. -/
def unified (path old new : Text) : Text :=
  let o := (lines old).toArray
  let n := (lines new).toArray
  match hunks (changes o n) with
  | [] => []
  | hs => "--- " ++ path ++ "\n+++ " ++ path ++ "\n" ++ hs.flatMap (Hunk.render o n)

/-- How many lines an edit inserts and deletes. -/
structure LineChange where
  inserted : Nat
  deleted : Nat
deriving DecidableEq, Repr

/-- How many lines differ from one text to another. -/
def countChanges (old new : Text) : LineChange :=
  let cs := changes (lines old).toArray (lines new).toArray
  ⟨cs.foldr (fun c n => c.inserted + n) 0, cs.foldr (fun c n => c.deleted + n) 0⟩

end Mender.Diff
