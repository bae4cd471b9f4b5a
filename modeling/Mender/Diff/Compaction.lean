import Mender.Diff.Script

/-!
# Compacting edit scripts

A run of deletions or insertions between kept lines can often stand at several places, since what
comes before it may agree with its end and what comes after it with its beginning. Compaction moves
each run up as far as it goes and then down as far as it goes, and joins runs that meet on the way.
The script is held open at one run: the runs above it, nearest first, and the runs below it.
-/

namespace Mender.Diff

namespace Edit

/-- The number of lines that an edit is about. -/
def len : Edit → Nat
  | .keep _ _ n => n
  | .delete _ _ n => n
  | .insert _ _ n => n

/-- A measure of a list of edits that every move and every join lowers. -/
def weight : List Edit → Nat
  | [] => 0
  | e :: es => e.len + 1 + weight es

end Edit

/-- A script held open at the run `focus`. -/
structure Opened where
  above : List Edit
  focus : Edit
  below : List Edit

/-- Puts the `len` kept lines that end at `old` and `new` in front of the runs below. -/
def keepOnTop (old new len : Nat) : List Edit → List Edit
  | .keep o n l :: below => .keep (o - len) (n - len) (l + len) :: below
  | below => .keep (old - len) (new - len) len :: below

/-- Puts the `len` kept lines from `old` and `new` on behind the runs above. -/
def keepBehind (old new len : Nat) : List Edit → List Edit
  | .keep o n l :: above => .keep o n (l + len) :: above
  | above => .keep old new len :: above

/-- Moves a run up as far as it goes. -/
def moveUp (old new : Array Text) : (above : List Edit) → (focus : Edit) → (below : List Edit) →
    Opened
  | [], focus, below => ⟨[], focus, below⟩
  | .keep o n l :: above, .insert io i k, below =>
    let s := agreeBehind old new (min l k) (o + l) (i + k)
    if s = 0 ∨ l < s then
      if l = 0 then moveUp old new above (.insert io i k) below
      else ⟨.keep o n l :: above, .insert io i k, below⟩
    else
      let below := keepOnTop (o + l) (i + k) s below
      if l = s then moveUp old new above (.insert (io - s) (i - s) k) below
      else moveUp old new (.keep o n (l - s) :: above) (.insert (io - s) (i - s) k) below
  | .keep o n l :: above, focus, below =>
    if l = 0 then moveUp old new above focus below else ⟨.keep o n l :: above, focus, below⟩
  | .delete o n l :: above, .delete _ _ k, below => moveUp old new above (.delete o n (l + k)) below
  | .insert o n l :: above, .insert _ _ k, below => moveUp old new above (.insert o n (l + k)) below
  | e :: above, focus, below => moveUp old new above focus (e :: below)
termination_by above => Edit.weight above
decreasing_by
  all_goals simp [Edit.weight, Edit.len]; try omega

/-- Moves a run down as far as it goes. -/
def moveDown (old new : Array Text) : (above : List Edit) → (focus : Edit) →
    (below : List Edit) → Opened
  | above, focus, [] => ⟨above, focus, []⟩
  | above, .insert io i k, .keep o n l :: below =>
    let p := agreeAhead old new (min l k) o i
    if p = 0 ∨ l < p then
      if l = 0 then moveDown old new above (.insert io i k) below
      else ⟨above, .insert io i k, .keep o n l :: below⟩
    else
      let above := keepBehind o i p above
      if l = p then moveDown old new above (.insert (io + p) (i + p) k) below
      else moveDown old new above (.insert (io + p) (i + p) k)
        (.keep (o + p) (n + p) (l - p) :: below)
  | above, focus, .keep o n l :: below =>
    if l = 0 then moveDown old new above focus below else ⟨above, focus, .keep o n l :: below⟩
  | above, .delete o n l, .delete _ _ k :: below =>
    moveDown old new above (.delete o n (l + k)) below
  | above, .insert o n l, .insert _ _ k :: below =>
    moveDown old new above (.insert o n (l + k)) below
  | above, focus, e :: below => moveDown old new (e :: above) focus below
termination_by _ _ below => Edit.weight below
decreasing_by
  all_goals simp [Edit.weight, Edit.len]; try omega

/-- Walks down the script for at most `steps` runs and moves each one that is chosen. -/
def moveAll (old new : Array Text) (chosen : Edit → Bool) :
    (steps : Nat) → (above below : List Edit) → List Edit
  | 0, above, below => above.reverse ++ below
  | _, above, [] => above.reverse
  | steps + 1, above, focus :: below =>
    if chosen focus then
      let up := moveUp old new above focus below
      let down := moveDown old new up.above up.focus up.below
      moveAll old new chosen steps (down.focus :: down.above) down.below
    else moveAll old new chosen steps (focus :: above) below

/-- Whether an edit deletes lines. -/
def Edit.isDelete : Edit → Bool
  | .delete _ _ _ => true
  | _ => false

/-- Whether an edit inserts lines. -/
def Edit.isInsert : Edit → Bool
  | .insert _ _ _ => true
  | _ => false

/-- Compacts a script: first its deletions, then its insertions. -/
def compact (old new : Array Text) (es : List Edit) : List Edit :=
  let steps := fun es => (Edit.weight es + 1) * (Edit.weight es + 1)
  let es := moveAll old new Edit.isDelete (steps es) [] es
  moveAll old new Edit.isInsert (steps es) [] es

end Mender.Diff
