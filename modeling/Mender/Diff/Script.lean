import Mender.Text.Basic

/-!
# Edit scripts

An edit script turns the old lines into the new lines by keeping, deleting and inserting runs of
lines. It is found by cutting off what the two sides have in common at their ends, cutting the rest
in two where a shortest path from both ends meets, and going on with the two parts.
-/

namespace Mender.Diff

/-- A run of an edit script. Each one says where it stands in both lists of lines. -/
inductive Edit where
  /-- The `len` old lines from `old` on are the new lines from `new` on. -/
  | keep (old new len : Nat)
  /-- The `len` old lines from `old` on are gone. -/
  | delete (old new len : Nat)
  /-- The `len` new lines from `new` on have come in. -/
  | insert (old new len : Nat)
deriving DecidableEq, Repr

/-- How many lines, at most `limit`, agree from `i` and `j` on. -/
def agreeAhead (old new : Array Text) : (limit i j : Nat) → Nat
  | 0, _, _ => 0
  | limit + 1, i, j =>
    if old[i]? = new[j]? then agreeAhead old new limit (i + 1) (j + 1) + 1 else 0

/-- How many lines, at most `limit`, agree right before `i` and `j`. -/
def agreeBehind (old new : Array Text) : (limit i j : Nat) → Nat
  | 0, _, _ => 0
  | limit + 1, i, j =>
    if old[i - 1]? = new[j - 1]? then agreeBehind old new limit (i - 1) (j - 1) + 1 else 0

/-- A part of the old lines and a part of the new lines, as half-open ranges. -/
structure Window where
  oldStart : Nat
  oldStop : Nat
  newStart : Nat
  newStop : Nat

namespace Window

/-- The number of old lines in a window. -/
def oldSize (w : Window) : Nat := w.oldStop - w.oldStart

/-- The number of new lines in a window. -/
def newSize (w : Window) : Nat := w.newStop - w.newStart

end Window

/-- The furthest place reached on each diagonal, where diagonal `k` holds the places with `k` more
old than new lines behind them. -/
structure Frontier where
  reached : Array Nat
  middle : Nat

namespace Frontier

/-- A frontier with room for the diagonals up to `bound` on both sides. -/
def start (bound : Nat) : Frontier := ⟨Array.replicate (2 * bound + 1) 0, bound⟩

/-- The furthest place on a diagonal. -/
def get (f : Frontier) (k : Int) : Nat := f.reached.getD (k + f.middle).toNat 0

/-- Records the furthest place on a diagonal. -/
def set (f : Frontier) (k : Int) (x : Nat) : Frontier :=
  { f with reached := f.reached.setIfInBounds (k + f.middle).toNat x }

/-- Where a path of `d` steps enters diagonal `k`: by an insertion from the diagonal above it or by
a deletion from the one below, whichever gets further. -/
def entry (f : Frontier) (d : Nat) (k : Int) : Nat :=
  if k = -d ∨ (k ≠ d ∧ f.get (k - 1) < f.get (k + 1)) then f.get (k + 1) else f.get (k - 1) + 1

end Frontier

/-- The diagonals that paths of `d` steps end on, from the highest to the lowest. -/
def diagonals (d : Nat) : List Int :=
  (List.range (d + 1)).map fun (i : Nat) => (d : Int) - 2 * (i : Int)

/-- Lengthens the paths from the front of a window by one step, until one of them meets a path from
the back: then gives the place where its last run of common lines begins. -/
def stepForward (old new : Array Text) (w : Window) (d : Nat) (backward : Frontier) :
    List Int → Frontier → Except (Nat × Nat) Frontier
  | [], forward => .ok forward
  | k :: ks, forward =>
    let n := w.oldSize
    let m := w.newSize
    let delta : Int := n - m
    let x := forward.entry d k
    let y : Int := x - k
    let reach := if 0 ≤ y ∧ x < n ∧ y < m then
        x + agreeAhead old new (min (n - x) (m - y.toNat)) (w.oldStart + x) (w.newStart + y.toNat)
      else x
    let forward := forward.set k reach
    if delta % 2 ≠ 0 ∧ (k - delta).natAbs < d ∧ n ≤ reach + backward.get (delta - k) then
      .error (w.oldStart + x, w.newStart + y.toNat)
    else stepForward old new w d backward ks forward

/-- Lengthens the paths from the back of a window by one step, until one of them meets a path from
the front: then gives the place where its last run of common lines ends. -/
def stepBackward (old new : Array Text) (w : Window) (d : Nat) (forward : Frontier) :
    List Int → Frontier → Except (Nat × Nat) Frontier
  | [], backward => .ok backward
  | k :: ks, backward =>
    let n := w.oldSize
    let m := w.newSize
    let delta : Int := n - m
    let x := backward.entry d k
    let y : Int := x - k
    let run := if 0 ≤ y ∧ x < n ∧ y < m then
        agreeBehind old new (min (n - x) (m - y.toNat)) (w.oldStop - x) (w.newStop - y.toNat)
      else 0
    let backward := backward.set k (x + run)
    if delta % 2 = 0 ∧ (k - delta).natAbs ≤ d ∧ n ≤ x + run + forward.get (delta - k) then
      .error (w.oldStop - (x + run), w.newStop - (y.toNat + run))
    else stepBackward old new w d forward ks backward

/-- Searches for the meeting place with paths of `d`, `d + 1`, … steps, `rounds` lengths in all. -/
def meetFrom (old new : Array Text) (w : Window) :
    (rounds d : Nat) → (forward backward : Frontier) → Option (Nat × Nat)
  | 0, _, _, _ => none
  | rounds + 1, d, forward, backward =>
    match stepForward old new w d backward (diagonals d) forward with
    | .error place => some place
    | .ok forward =>
      match stepBackward old new w d forward (diagonals d) backward with
      | .error place => some place
      | .ok backward => meetFrom old new w rounds (d + 1) forward backward

/-- A place in a window that a shortest edit script passes through. -/
def meetingPlace? (old new : Array Text) (w : Window) : Option (Nat × Nat) :=
  let rounds := (w.oldSize + w.newSize + 1) / 2 + 1
  meetFrom old new w rounds 0 (.start (rounds + 1)) (.start (rounds + 1))

/-- The edits that turn the old lines of a window into its new lines. A window whose meeting place
does not divide it is replaced as a whole. -/
def editsIn (old new : Array Text) (w : Window) : List Edit :=
  let front := agreeAhead old new (min w.oldSize w.newSize) w.oldStart w.newStart
  let oldStart := w.oldStart + front
  let newStart := w.newStart + front
  let back := agreeBehind old new (min (w.oldStop - oldStart) (w.newStop - newStart))
    w.oldStop w.newStop
  let oldStop := w.oldStop - back
  let newStop := w.newStop - back
  let inner :=
    if oldStop ≤ oldStart ∧ newStop ≤ newStart then []
    else if newStop ≤ newStart then [.delete oldStart newStart (oldStop - oldStart)]
    else if oldStop ≤ oldStart then [.insert oldStart newStart (newStop - newStart)]
    else
      match meetingPlace? old new ⟨oldStart, oldStop, newStart, newStop⟩ with
      | none => [.delete oldStart newStart (oldStop - oldStart),
          .insert oldStop newStart (newStop - newStart)]
      | some (x, y) =>
        if _h : oldStart ≤ x ∧ x ≤ oldStop ∧ newStart ≤ y ∧ y ≤ newStop ∧
            oldStart + newStart < x + y ∧ x + y < oldStop + newStop then
          editsIn old new ⟨oldStart, x, newStart, y⟩ ++ editsIn old new ⟨x, oldStop, y, newStop⟩
        else [.delete oldStart newStart (oldStop - oldStart),
          .insert oldStop newStart (newStop - newStart)]
  (if front = 0 then [] else [.keep w.oldStart w.newStart front]) ++ inner ++
    (if back = 0 then [] else [.keep oldStop newStop back])
termination_by w.oldSize + w.newSize
decreasing_by
  all_goals simp only [Window.oldSize, Window.newSize]; omega

/-- The edits that turn the old lines into the new lines. -/
def edits (old new : Array Text) : List Edit := editsIn old new ⟨0, old.size, 0, new.size⟩

end Mender.Diff
