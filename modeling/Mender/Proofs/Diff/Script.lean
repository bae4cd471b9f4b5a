import Mathlib.Data.List.Basic
import Mathlib.Tactic.Common
import Mender.Diff.Compaction

/-!
# Edit scripts that fit

A script fits two lists of lines at a place when its runs stand there one behind the other (`Runs`): kept
lines agree, deleted lines are the next of the old lines, and inserted lines are the next of the new ones.
The script that is found fits (`runs_edits`), whatever place its search meets at.

Compaction moves insertions past deletions without correcting where they stand in the old lines, so of
that place only a bound is kept: it is at most what the insertion can still move down past (`slack`).
-/

namespace Mender.Diff

/-! ## Lines that agree -/

section agreement

variable {old new : Array Text} {i j k l limit : Nat}

/-- The `len` old lines from `i` on are the new lines from `j` on. -/
def Same (old new : Array Text) (i j len : Nat) : Prop := ∀ u < len, old[i + u]? = new[j + u]?

instance : Decidable (Same old new i j k) :=
  Nat.decidableBallLT k fun u _ => old[i + u]? = new[j + u]?

/-- Runs without lines are the same. -/
lemma same_zero : Same old new i j 0 := nofun

/-- Runs are the same when their first lines and the runs behind them are. -/
lemma same_succ : Same old new i j (k + 1) ↔ old[i]? = new[j]? ∧ Same old new (i + 1) (j + 1) k := by
  constructor
  · intro same
    refine ⟨same 0 (Nat.succ_pos k), fun u lt => ?_⟩
    have next := same (u + 1) (Nat.succ_lt_succ lt)
    rw [Nat.add_assoc, Nat.add_assoc, Nat.add_comm 1 u]
    exact next
  · rintro ⟨first, same⟩ u lt
    cases u with
    | zero => exact first
    | succ u =>
      have next := same u (Nat.lt_of_succ_lt_succ lt)
      rw [Nat.add_assoc, Nat.add_assoc, Nat.add_comm 1 u] at next
      exact next

/-- Runs are the same when their fronts and the runs behind the fronts are. -/
lemma same_add : Same old new i j (k + l) ↔ Same old new i j k ∧ Same old new (i + k) (j + k) l := by
  induction k generalizing i j with
  | zero =>
    rw [Nat.zero_add]
    exact (and_iff_right same_zero).symm
  | succ k ih =>
    rw [Nat.succ_add, same_succ, same_succ, ih, and_assoc]
    simp only [Nat.add_assoc, Nat.add_comm 1]

/-- Texts agree ahead for no more lines than one looks at. -/
lemma agreeAhead_le (old new : Array Text) (limit i j : Nat) :
    agreeAhead old new limit i j ≤ limit := by
  induction limit generalizing i j with
  | zero => exact Nat.le_refl 0
  | succ limit ih =>
    rw [agreeAhead]
    split
    · exact Nat.succ_le_succ (ih _ _)
    · exact Nat.zero_le _

/-- The lines that agree ahead are the same. -/
lemma same_agreeAhead (old new : Array Text) (limit i j : Nat) :
    Same old new i j (agreeAhead old new limit i j) := by
  induction limit generalizing i j with
  | zero => exact same_zero
  | succ limit ih =>
    rw [agreeAhead]
    split
    · next agree => exact same_succ.2 ⟨agree, ih _ _⟩
    · exact same_zero

/-- Where nothing agrees, not even the first line does. -/
lemma not_same_of_agreeAhead (pos : 0 < limit) (none : agreeAhead old new limit i j = 0) (pos' : 0 < k) :
    ¬ Same old new i j k := by
  cases limit with
  | zero => exact absurd pos (Nat.lt_irrefl 0)
  | succ limit =>
    rw [agreeAhead] at none
    split at none
    · cases none
    · next differ => exact fun same => differ (same 0 pos')

/-- Texts agree behind for no more lines than one looks at. -/
lemma agreeBehind_le (old new : Array Text) (limit i j : Nat) :
    agreeBehind old new limit i j ≤ limit := by
  induction limit generalizing i j with
  | zero => exact Nat.le_refl 0
  | succ limit ih =>
    rw [agreeBehind]
    split
    · exact Nat.succ_le_succ (ih _ _)
    · exact Nat.zero_le _

/-- The lines that agree behind are the same. -/
lemma same_agreeBehind {limit i j : Nat} (old new : Array Text) (le : limit ≤ i) (le' : limit ≤ j) :
    Same old new (i - agreeBehind old new limit i j) (j - agreeBehind old new limit i j)
      (agreeBehind old new limit i j) := by
  induction limit generalizing i j with
  | zero => exact same_zero
  | succ limit ih =>
    rw [agreeBehind]
    split
    · next agree =>
      have lower := ih (Nat.le_sub_one_of_lt le) (Nat.le_sub_one_of_lt le')
      have bound := agreeBehind_le old new limit (i - 1) (j - 1)
      generalize agreeBehind old new limit (i - 1) (j - 1) = s at lower bound
      have eq : i - (s + 1) = i - 1 - s := by omega
      have eq' : j - (s + 1) = j - 1 - s := by omega
      have stop : i - 1 - s + s = i - 1 := by omega
      have stop' : j - 1 - s + s = j - 1 := by omega
      rw [eq, eq', same_add, stop, stop']
      exact ⟨lower, same_succ.2 ⟨agree, same_zero⟩⟩
    · exact same_zero

end agreement

/-! ## Scripts -/

/-- How many deleted lines an insertion of the new lines from `a` on can be moved down past. -/
def slack (old new : Array Text) : (a : Nat) → List Edit → Nat
  | _, [] => 0
  | a, .keep o _ l :: es => if Same old new o a l then slack old new (a + l) es else 0
  | a, .delete _ _ l :: es => l + slack old new a es
  | a, .insert _ _ _ :: es => slack old new a es

/-- A script turns the old lines from `i` on into the new lines from `j` on. -/
inductive Runs (old new : Array Text) : (i j : Nat) → List Edit → Prop where
  | nil :
    Runs old new old.size new.size []
  | keep {i j l es} :
    Same old new i j l →
    Runs old new (i + l) (j + l) es →
    Runs old new i j (.keep i j l :: es)
  | delete {i j n l es} :
    Runs old new (i + l) j es →
    Runs old new i j (.delete i n l :: es)
  | insert {i j o l es} :
    0 < l →
    o ≤ i + slack old new j es →
    Runs old new i (j + l) es →
    Runs old new i j (.insert o j l :: es)

variable {old new : Array Text} {i j k l : Nat} {es tail : List Edit}

/-- A script that begins with kept lines fits where these are the same on both sides and the rest fits behind
them. -/
lemma Runs.of_keep {o n : Nat} (runs : Runs old new i j (.keep o n l :: es)) :
    o = i ∧ n = j ∧ Same old new i j l ∧ Runs old new (i + l) (j + l) es := by
  cases runs with
  | keep same runs => exact ⟨rfl, rfl, same, runs⟩

/-- A script that begins with a deletion fits where it begins in the old lines and the rest fits behind it. -/
lemma Runs.of_delete {o n : Nat} (runs : Runs old new i j (.delete o n l :: es)) :
    o = i ∧ Runs old new (i + l) j es := by
  cases runs with
  | delete runs => exact ⟨rfl, runs⟩

/-- A script that begins with an insertion fits where it begins in the new lines and the rest fits behind it.
In the old lines it may be said to stand further down by the slack. -/
lemma Runs.of_insert {o n : Nat} (runs : Runs old new i j (.insert o n l :: es)) :
    n = j ∧ 0 < l ∧ o ≤ i + slack old new j es ∧ Runs old new i (j + l) es := by
  cases runs with
  | insert pos bound runs => exact ⟨rfl, pos, bound, runs⟩

/-- Kept lines, if there are any. -/
def keepIf (o n l : Nat) : List Edit := if l = 0 then [] else [.keep o n l]

/-- All lines of a window replaced. -/
def replaceAll (w : Window) : List Edit :=
  [.delete w.oldStart w.newStart w.oldSize, .insert w.oldStop w.newStart w.newSize]

/-- The edits in a window whose ends have nothing in common. -/
def innerEdits (old new : Array Text) (w : Window) : List Edit :=
  if w.oldStop ≤ w.oldStart ∧ w.newStop ≤ w.newStart then []
  else if w.newStop ≤ w.newStart then [.delete w.oldStart w.newStart w.oldSize]
  else if w.oldStop ≤ w.oldStart then [.insert w.oldStart w.newStart w.newSize]
  else match meetingPlace? old new w with
    | none => replaceAll w
    | some (x, y) =>
      if _h : w.oldStart ≤ x ∧ x ≤ w.oldStop ∧ w.newStart ≤ y ∧ y ≤ w.newStop ∧
          w.oldStart + w.newStart < x + y ∧ x + y < w.oldStop + w.newStop then
        editsIn old new ⟨w.oldStart, x, w.newStart, y⟩ ++ editsIn old new ⟨x, w.oldStop, y, w.newStop⟩
      else replaceAll w

/-- The edits in a window keep what its two ends have in common and go on with what is between. -/
lemma editsIn_eq (old new : Array Text) (w : Window) : ∃ front limit back,
    Same old new w.oldStart w.newStart front ∧ front ≤ min w.oldSize w.newSize ∧
    limit = min (w.oldStop - (w.oldStart + front)) (w.newStop - (w.newStart + front)) ∧
    back = agreeBehind old new limit w.oldStop w.newStop ∧
    editsIn old new w = keepIf w.oldStart w.newStart front ++
      innerEdits old new ⟨w.oldStart + front, w.oldStop - back, w.newStart + front, w.newStop - back⟩ ++
      keepIf (w.oldStop - back) (w.newStop - back) back := by
  refine ⟨_, _, _, same_agreeAhead old new (min w.oldSize w.newSize) _ _, agreeAhead_le .., rfl, rfl, ?_⟩
  rw [editsIn]
  rfl

/-- A script may begin with any number of lines that are the same. -/
lemma runs_keepIf (same : Same old new i j l) (runs : Runs old new (i + l) (j + l) tail) :
    Runs old new i j (keepIf i j l ++ tail) := by
  unfold keepIf
  split
  · next none =>
    subst none
    exact runs
  · exact .keep same runs

/-- A script may replace all lines of a window. -/
lemma runs_replaceAll {w : Window} (le : w.oldStart ≤ w.oldStop) (lt : w.newStart < w.newStop)
    (runs : Runs old new w.oldStop w.newStop tail) :
    Runs old new w.oldStart w.newStart (replaceAll w ++ tail) := by
  have old_stop : w.oldStart + w.oldSize = w.oldStop := Nat.add_sub_of_le le
  have new_stop : w.newStart + w.newSize = w.newStop := Nat.add_sub_of_le (Nat.le_of_lt lt)
  refine .delete (.insert (Nat.sub_pos_of_lt lt) ?_ ?_)
  · rw [old_stop]
    exact Nat.le_add_right _ _
  · rw [old_stop, new_stop]
    exact runs

/-- The edits in a window fit there if those in smaller windows do. -/
lemma runs_innerEdits {w : Window} (le : w.oldStart ≤ w.oldStop) (le' : w.newStart ≤ w.newStop)
    (parts : ∀ v : Window, v.oldSize + v.newSize < w.oldSize + w.newSize → v.oldStart ≤ v.oldStop →
      v.newStart ≤ v.newStop → ∀ {tail}, Runs old new v.oldStop v.newStop tail →
        Runs old new v.oldStart v.newStart (editsIn old new v ++ tail))
    (runs : Runs old new w.oldStop w.newStop tail) :
    Runs old new w.oldStart w.newStart (innerEdits old new w ++ tail) := by
  have old_stop : w.oldStart + w.oldSize = w.oldStop := Nat.add_sub_of_le le
  have new_stop : w.newStart + w.newSize = w.newStop := Nat.add_sub_of_le le'
  unfold innerEdits
  split
  · next empty =>
    rw [Nat.le_antisymm le empty.1, Nat.le_antisymm le' empty.2]
    exact runs
  split
  · next empty =>
    refine .delete ?_
    rw [old_stop, Nat.le_antisymm le' empty]
    exact runs
  split
  · next full empty =>
    refine .insert (Nat.sub_pos_of_lt (Nat.lt_of_not_le full)) (Nat.le_add_right _ _) ?_
    rw [new_stop, Nat.le_antisymm le empty]
    exact runs
  · next full _ =>
    have whole := runs_replaceAll le (Nat.lt_of_not_le full) runs
    split
    · exact whole
    -- nothing is known of the meeting place but what is tested here
    · next x y _ =>
      split
      · next inside =>
        obtain ⟨left, right, left', right', first, last⟩ := inside
        rw [List.append_assoc]
        refine parts ⟨w.oldStart, x, w.newStart, y⟩ ?_ left left' ?_
        · dsimp only [Window.oldSize, Window.newSize]
          omega
        · refine parts ⟨x, w.oldStop, y, w.newStop⟩ ?_ right right' runs
          dsimp only [Window.oldSize, Window.newSize]
          omega
      · exact whole

/-- The edits of a window turn its old lines into its new lines. -/
lemma runs_editsIn (w : Window) (le : w.oldStart ≤ w.oldStop) (le' : w.newStart ≤ w.newStop)
    (runs : Runs old new w.oldStop w.newStop tail) :
    Runs old new w.oldStart w.newStart (editsIn old new w ++ tail) := by
  -- on the size of the window: what remains between the common ends is cut into smaller windows
  induction size : w.oldSize + w.newSize using Nat.strongRecOn generalizing w tail with
  | ind size ih =>
    subst size
    obtain ⟨front, limit, back, same, front_le, limit_eq, back_eq, eq⟩ := editsIn_eq old new w
    dsimp only [Window.oldSize, Window.newSize] at front_le
    have back_le := agreeBehind_le old new limit w.oldStop w.newStop
    have same' := same_agreeBehind old new (show limit ≤ w.oldStop by omega) (show limit ≤ w.newStop by omega)
    rw [← back_eq] at back_le same'
    rw [eq, List.append_assoc, List.append_assoc]
    refine runs_keepIf same ?_
    refine runs_innerEdits (w := ⟨w.oldStart + front, w.oldStop - back, w.newStart + front,
      w.newStop - back⟩) (by dsimp only; omega) (by dsimp only; omega) ?_ ?_
    · intro v smaller le le' tail runs
      refine ih _ ?_ v le le' runs rfl
      dsimp only [Window.oldSize, Window.newSize] at smaller ⊢
      omega
    · refine runs_keepIf same' ?_
      have old_stop : w.oldStop - back + back = w.oldStop := by omega
      have new_stop : w.newStop - back + back = w.newStop := by omega
      rw [old_stop, new_stop]
      exact runs

/-- The script that is found turns the old lines into the new lines. -/
lemma runs_edits (old new : Array Text) : Runs old new 0 0 (edits old new) := by
  have runs := runs_editsIn ⟨0, old.size, 0, new.size⟩ (Nat.zero_le _) (Nat.zero_le _)
    (@Runs.nil old new)
  rw [List.append_nil] at runs
  exact runs

end Mender.Diff
