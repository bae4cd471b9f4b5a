import Mender.Proofs.Diff.Patching
import Mender.Proofs.Diff.Shape

/-!
# Hunks and their headings

A unified diff is read as hunks (`written?`), each with its heading and its marked lines. The hunks of the
diff from one text to another stand one behind the other, with the same lines between them on both sides
(`Placed`), and a heading says where its hunk stands and how many lines it has, unless the hunk begins or
ends with lines that are only deleted or only inserted (`Headed`): such a run can be wrong about its place
on the other side. Two hunks face each other with kept lines, so that only the front of the first hunk and
the end of the last one are concerned (`unified_places_hunks`).
-/

namespace Mender.Diff

/-! ## Reading hunks -/

/-- The old lines among marked lines. -/
def oldLines (ls : List (Mark × Text)) : List Text := (ls.filter (·.1 ≠ .inserted)).map (·.2)

/-- The new lines among marked lines. -/
def newLines (ls : List (Mark × Text)) : List Text := (ls.filter (·.1 ≠ .deleted)).map (·.2)

/-- A hunk as it is written. Its heading says where it begins in the old and in the new lines and how many
of them it has. -/
structure Written where
  old : Nat × Nat
  new : Nat × Nat
  lines : List (Mark × Text)
deriving DecidableEq

/-- The marks of a hunk. -/
def Written.marks (h : Written) : List Mark := h.lines.map (·.1)

/-- Divides the lines of a diff at the headings: the lines above the first one, and the hunks. -/
def divide : List Item → List (Mark × Text) × List Written
  | [] => ([], [])
  | .heading o n :: items => ([], ⟨o, n, (divide items).1⟩ :: (divide items).2)
  | .line m t :: items => ((m, t) :: (divide items).1, (divide items).2)

/-- Reads the hunks of a diff for a file. -/
def written? (path diff : Text) : Option (List Written) := do
  match divide (← items? path diff) with
  | ([], hs) => some hs
  | (_ :: _, _) => none

variable {old new : Array Text} {i j i' j' m n l : Nat} {c : Change} {cs : List Change} {h : Hunk}
  {hs : List Hunk} {ls ls' : List (Mark × Text)}

/-- The lines of a range, each with a mark. -/
def markedRange (m : Mark) (ls : Array Text) (range : Nat × Nat) : List (Mark × Text) :=
  (ls.extract range.1 range.2).toList.map (m, ·)

/-- The marked lines of a change. -/
def Change.lines (old new : Array Text) (c : Change) : List (Mark × Text) :=
  match c with
  | .keep _ _ _ => markedRange .kept old c.oldRange
  | _ => markedRange .deleted old c.oldRange ++ markedRange .inserted new c.newRange

/-- The marked lines of changes. -/
def changedLines (old new : Array Text) (cs : List Change) : List (Mark × Text) :=
  cs.flatMap (Change.lines old new)

/-- How a hunk is written. -/
def Hunk.written (old new : Array Text) (h : Hunk) : Written :=
  let (o, n) := Hunk.ranges h
  ⟨(o.1, o.2 - o.1), (n.1, n.2 - n.1), changedLines old new h⟩

/-- The lines of a diff for a change are the marked lines of the change. -/
lemma items_eq_lines (old new : Array Text) (c : Change) :
    c.items old new = (c.lines old new).map fun x => .line x.1 x.2 := by
  have range : ∀ m ls r, markedItems m ls r = (markedRange m ls r).map fun x => .line x.1 x.2 := by
    intro m ls r
    rw [markedItems, markedRange, List.map_map]
    rfl
  cases c with
  | keep o n l => exact range _ _ _
  | _ =>
    change markedItems .deleted old _ ++ markedItems .inserted new _ =
      (markedRange .deleted old _ ++ markedRange .inserted new _).map _
    rw [range, range, List.map_append]

/-- Lines above the first heading stay above it when a diff is divided. -/
lemma divide_lines (ls : List (Mark × Text)) (items : List Item) :
    divide (ls.map (fun x => .line x.1 x.2) ++ items) = (ls ++ (divide items).1, (divide items).2) := by
  induction ls with
  | nil => rfl
  | cons x ls ih =>
    rw [List.map_cons, List.cons_append, divide, ih]
    rfl

/-- A diff of hunks is divided into these hunks as they are written. -/
lemma divide_hunks (old new : Array Text) (hs : List Hunk) :
    divide (hs.flatMap (Hunk.items old new)) = ([], hs.map (Hunk.written old new)) := by
  induction hs with
  | nil => rfl
  | cons h hs ih =>
    have body : h.flatMap (Change.items old new) =
        (changedLines old new h).map fun x => .line x.1 x.2 := by
      rw [changedLines, List.map_flatMap]
      exact List.flatMap_congr fun c _ => items_eq_lines old new c
    rw [List.flatMap_cons, Hunk.items, List.cons_append, divide, body, divide_lines, ih, List.append_nil]
    rfl

/-- The diff from one text to another is read as its hunks. -/
lemma written?_unified (path before after : Text) : written? path (unified path before after) =
    some ((hunks (changes (lines before).toArray (lines after).toArray)).map
      (Hunk.written (lines before).toArray (lines after).toArray)) := by
  rw [written?, items?_unified, Option.bind_eq_bind, Option.bind_some, divide_hunks]

/-! ## Marked lines -/

/-- Marked lines are the old and the new lines between two places. -/
structure Conveys (old new : Array Text) (i j : Nat) (ls : List (Mark × Text)) (i' j' : Nat) : Prop where
  old : old.toList.drop i = oldLines ls ++ old.toList.drop i'
  new : new.toList.drop j = newLines ls ++ new.toList.drop j'
  oldStop : i' = i + (oldLines ls).length
  newStop : j' = j + (newLines ls).length

/-- No lines are the lines between a place and itself. -/
lemma Conveys.nil : Conveys old new i j [] i j := ⟨rfl, rfl, rfl, rfl⟩

/-- Lines up to a place and lines from there on are the lines between both ends. -/
lemma Conveys.append (conveys : Conveys old new i j ls m n) (conveys' : Conveys old new m n ls' i' j') :
    Conveys old new i j (ls ++ ls') i' j' := by
  have olds : oldLines (ls ++ ls') = oldLines ls ++ oldLines ls' := by
    rw [oldLines, List.filter_append, List.map_append]
    rfl
  have news : newLines (ls ++ ls') = newLines ls ++ newLines ls' := by
    rw [newLines, List.filter_append, List.map_append]
    rfl
  constructor
  · rw [conveys.old, conveys'.old, olds, List.append_assoc]
  · rw [conveys.new, conveys'.new, news, List.append_assoc]
  · rw [conveys'.oldStop, conveys.oldStop, olds, List.length_append, Nat.add_assoc]
  · rw [conveys'.newStop, conveys.newStop, news, List.length_append, Nat.add_assoc]

/-- The lines of a range are old lines unless they are inserted. -/
lemma oldLines_range (m : Mark) (ls : Array Text) (r : Nat × Nat) :
    oldLines (markedRange m ls r) = if m = .inserted then [] else (ls.extract r.1 r.2).toList := by
  rw [markedRange]
  generalize (ls.extract r.1 r.2).toList = ts
  induction ts with
  | nil => cases m <;> rfl
  | cons t ts ih => cases m <;> simp_all [oldLines]

/-- The lines of a range are new lines unless they are deleted. -/
lemma newLines_range (m : Mark) (ls : Array Text) (r : Nat × Nat) :
    newLines (markedRange m ls r) = if m = .deleted then [] else (ls.extract r.1 r.2).toList := by
  rw [markedRange]
  generalize (ls.extract r.1 r.2).toList = ts
  induction ts with
  | nil => cases m <;> rfl
  | cons t ts ih => cases m <;> simp_all [newLines]

/-- Kept lines are the next old and the next new lines. -/
lemma conveys_kept (same : Same old new i j l) (le : i + l ≤ old.size) :
    Conveys old new i j (markedRange .kept old (i, i + l)) (i + l) (j + l) := by
  have olds : oldLines (markedRange .kept old (i, i + l)) = _ := oldLines_range _ _ _
  have news : newLines (markedRange .kept old (i, i + l)) = _ := newLines_range _ _ _
  constructor
  · rw [olds]
    exact drop_eq old i l
  · rw [news, if_neg nofun, same.extract]
    exact drop_eq new j l
  · rw [olds, if_neg nofun, length_extract le]
  · rw [news, if_neg nofun, length_extract le]

/-- Deleted lines are the next old lines, and no new ones. -/
lemma conveys_deleted (j : Nat) (le : i + l ≤ old.size) :
    Conveys old new i j (markedRange .deleted old (i, i + l)) (i + l) j := by
  have olds : oldLines (markedRange .deleted old (i, i + l)) = _ := oldLines_range _ _ _
  have news : newLines (markedRange .deleted old (i, i + l)) = [] := newLines_range _ _ _
  constructor
  · rw [olds]
    exact drop_eq old i l
  · rw [news, List.nil_append]
  · rw [olds, if_neg nofun, length_extract le]
  · rw [news, List.length_nil, Nat.add_zero]

/-- Inserted lines are the next new lines, and no old ones. -/
lemma conveys_inserted (i : Nat) (le : j + l ≤ new.size) :
    Conveys old new i j (markedRange .inserted new (j, j + l)) i (j + l) := by
  have olds : oldLines (markedRange .inserted new (j, j + l)) = [] := oldLines_range _ _ _
  have news : newLines (markedRange .inserted new (j, j + l)) = _ := newLines_range _ _ _
  constructor
  · rw [olds, List.nil_append]
  · rw [news]
    exact drop_eq new j l
  · rw [olds, List.length_nil, Nat.add_zero]
  · rw [news, if_neg nofun, length_extract le]

/-- An empty range has no lines. -/
lemma markedRange_empty (m : Mark) (ls : Array Text) (i : Nat) : markedRange m ls (i, i) = [] := by
  change ((ls.extract i (i + 0)).toList).map (m, ·) = []
  rw [toList_extract, List.take_zero, List.map_nil]

/-- The lines of a change are the old and the new lines between its two ends. -/
lemma conveys_change (covers : Covers old new i j c i' j') (le : i' ≤ old.size) (le' : j' ≤ new.size) :
    Conveys old new i j (c.lines old new) i' j' := by
  cases covers with
  | keep same => exact conveys_kept same le
  | @delete n l =>
    change Conveys old new i j
      (markedRange .deleted old (i, i + l) ++ markedRange .inserted new (n, n)) (i + l) j
    rw [markedRange_empty, List.append_nil]
    exact conveys_deleted j le
  | @insert o l =>
    change Conveys old new i j
      (markedRange .deleted old (o, o) ++ markedRange .inserted new (j, j + l)) i (j + l)
    rw [markedRange_empty, List.nil_append]
    exact conveys_inserted i le'
  | @replace l k => exact (conveys_deleted j le).append (conveys_inserted (i + l) le')

/-- The marked lines of changes are the lines that they turn into one another. -/
lemma conveys_changes (spans : Spans old new i j cs i' j') (le : i' ≤ old.size) (le' : j' ≤ new.size) :
    Conveys old new i j (changedLines old new cs) i' j' := by
  induction spans with
  | nil => exact .nil
  | cons covers spans ih =>
    rw [changedLines, List.flatMap_cons]
    exact (conveys_change covers (Nat.le_trans spans.le.1 le) (Nat.le_trans spans.le.2 le')).append (ih le le')

/-! ## Marks -/

/-- The marks of the lines of a change. -/
def Change.marks : Change → List Mark
  | .keep _ _ l => List.replicate l .kept
  | .delete _ _ l => List.replicate l .deleted
  | .insert _ _ l => List.replicate l .inserted
  | .replace _ l _ k => List.replicate l .deleted ++ List.replicate k .inserted

/-- A range inside of the lines has its mark as often as it is long. -/
lemma marks_range (m : Mark) {ls : Array Text} (le : i + l ≤ ls.size) :
    (markedRange m ls (i, i + l)).map (·.1) = List.replicate l m := by
  have length := length_extract le
  rw [markedRange, List.map_map]
  generalize (ls.extract i (i + l)).toList = ts at length
  subst length
  exact List.map_const' ..

/-- The lines of a change are marked as its kind says. -/
lemma marks_change (covers : Covers old new i j c i' j') (le : i' ≤ old.size) (le' : j' ≤ new.size) :
    (c.lines old new).map (·.1) = c.marks := by
  cases covers with
  | keep same => exact marks_range .kept le
  | @delete n l =>
    change (markedRange .deleted old (i, i + l) ++ markedRange .inserted new (n, n)).map _ = _
    rw [markedRange_empty, List.append_nil]
    exact marks_range .deleted le
  | @insert o l =>
    change (markedRange .deleted old (o, o) ++ markedRange .inserted new (j, j + l)).map _ = _
    rw [markedRange_empty, List.nil_append]
    exact marks_range .inserted le'
  | @replace l k =>
    change (markedRange .deleted old (i, i + l) ++ markedRange .inserted new (j, j + k)).map _ = _
    rw [List.map_append, marks_range .deleted le, marks_range .inserted le']
    rfl

/-- The lines of changes are marked one change after another. -/
lemma marks_changes (spans : Spans old new i j cs i' j') (le : i' ≤ old.size) (le' : j' ≤ new.size) :
    (changedLines old new cs).map (·.1) = cs.flatMap Change.marks := by
  induction spans with
  | nil => rfl
  | cons covers spans ih =>
    rw [changedLines, List.flatMap_cons, List.map_append, ← changedLines, ih le le', List.flatMap_cons,
      marks_change covers (Nat.le_trans spans.le.1 le) (Nat.le_trans spans.le.2 le')]

/-- Lines begin with deleted ones that nothing comes in for. -/
def opensDeleting (ms : List Mark) : Prop :=
  ∃ k rest, ms = List.replicate (k + 1) .deleted ++ rest ∧ ∀ m ∈ rest.head?, m = .kept

/-- Lines end with deleted ones. -/
def closesDeleting (ms : List Mark) : Prop := ms.getLast? = some .deleted

/-- Lines end with inserted ones that nothing was taken out for. -/
def closesInserting (ms : List Mark) : Prop :=
  ∃ k front, ms = front ++ List.replicate (k + 1) .inserted ∧ ∀ m ∈ front.getLast?, m = .kept

/-- Changes that begin with kept lines begin with the mark of a kept line. -/
lemma head?_marks {o : Nat} (pos : 0 < l) (cs : List Change) :
    ((Change.keep o n l :: cs).flatMap Change.marks).head? = some .kept := by
  obtain ⟨l, rfl⟩ := Nat.exists_eq_succ_of_ne_zero (Nat.ne_of_gt pos)
  rfl

/-- Changes that end with lines of one mark end with this mark. -/
lemma getLast?_marks {mark : Mark} (pos : 0 < l) (run : c.marks = List.replicate l mark) (cs : List Change) :
    ((cs ++ [c]).flatMap Change.marks).getLast? = some mark := by
  obtain ⟨l, rfl⟩ := Nat.exists_eq_succ_of_ne_zero (Nat.ne_of_gt pos)
  rw [List.flatMap_append, List.flatMap_singleton, run, List.replicate_succ', ← List.append_assoc,
    List.getLast?_concat]

/-- What is not different from a kept run is one. -/
lemma exists_keep (keep : c.isKeep ≠ false) : ∃ o n l, c = .keep o n l := by
  cases c with
  | keep o n l => exact ⟨o, n, l, rfl⟩
  | _ => exact absurd rfl keep

/-- Behind a deletion at the front of neat changes lines are kept. -/
lemma Neat.opensDeleting {o : Nat} (neat : Neat (.delete o n l :: cs)) :
    opensDeleting ((Change.delete o n l :: cs).flatMap Change.marks) := by
  have pos : 0 < l := neat.solid _ List.mem_cons_self
  refine ⟨l - 1, cs.flatMap Change.marks, ?_, ?_⟩
  · rw [Nat.sub_add_cancel pos, List.flatMap_cons]
    rfl
  · cases cs with
    | nil => nofun
    | cons c cs =>
      obtain ⟨o', n', k, rfl⟩ := exists_keep neat.of_cons_cons.symm
      rw [head?_marks (neat.solid (.keep o' n' k) (by simp)) cs]
      rintro m ⟨⟩
      rfl

/-- Before an insertion at the end of neat changes lines are kept. -/
lemma Neat.closesInserting {o : Nat} (neat : Neat (cs ++ [.insert o n l])) :
    closesInserting ((cs ++ [Change.insert o n l]).flatMap Change.marks) := by
  have pos : 0 < l := neat.solid (.insert o n l) (by simp)
  refine ⟨l - 1, cs.flatMap Change.marks, ?_, ?_⟩
  · rw [Nat.sub_add_cancel pos, List.flatMap_append, List.flatMap_singleton]
    rfl
  · rcases List.eq_nil_or_concat cs with rfl | ⟨cs, c, rfl⟩
    · nofun
    · rw [List.concat_eq_append] at neat ⊢
      have last : Neat [c, .insert o n l] := by
        rw [List.append_assoc] at neat
        exact neat.right
      obtain ⟨o', n', k, rfl⟩ := exists_keep last.of_cons_cons
      rw [getLast?_marks (last.solid (.keep o' n' k) (by simp)) rfl cs]
      rintro m ⟨⟩
      rfl

/-! ## Headings -/

/-- What the heading of a hunk that stands at two places says: it is right about where the hunk begins in
the old lines, and about the rest unless the hunk begins with lines that are only deleted, or ends with
lines that are only deleted or only inserted. -/
structure Written.Headed (h : Written) (i j : Nat) : Prop where
  oldStart : h.old.1 = i
  oldCount : ¬ closesInserting h.marks → h.old.2 = (oldLines h.lines).length
  newStart : ¬ opensDeleting h.marks → h.new.1 = j
  newCount : ¬ opensDeleting h.marks → ¬ closesDeleting h.marks → h.new.2 = (newLines h.lines).length

/-- The ranges of a hunk go from where its first change begins to where its last one ends. -/
lemma ranges_eq {c c' : Change} (first : h.head? = some c) (last : h.getLast? = some c') :
    Hunk.ranges h = ((c.oldRange.1, c'.oldRange.2), (c.newRange.1, c'.newRange.2)) := by
  rw [Hunk.ranges, first, last]

/-- The first change of a hunk knows where it begins in the new lines, unless it only deletes. -/
lemma first_of_spans (spans : Spans old new i j h i' j') (some : h ≠ []) (neat : Neat h) :
    ∃ c, h.head? = .some c ∧ (¬ opensDeleting (h.flatMap Change.marks) → c.newRange.1 = j) := by
  obtain ⟨c, cs, rfl⟩ := List.exists_cons_of_ne_nil some
  refine ⟨c, rfl, fun opens => ?_⟩
  obtain ⟨_, _, covers, -⟩ := spans.of_cons
  cases covers with
  | keep _ => rfl
  | delete => exact absurd neat.opensDeleting opens
  | insert => rfl
  | replace => rfl

/-- The last change of a hunk knows where it ends in the old lines, unless it only inserts, and in the new
lines, unless it only deletes. -/
lemma last_of_spans (spans : Spans old new i j h i' j') (some : h ≠ []) (neat : Neat h) :
    ∃ c, h.getLast? = .some c ∧ (¬ closesInserting (h.flatMap Change.marks) → c.oldRange.2 = i') ∧
      (¬ closesDeleting (h.flatMap Change.marks) → c.newRange.2 = j') := by
  obtain ⟨cs, c, rfl⟩ := (List.eq_nil_or_concat h).resolve_left some
  rw [List.concat_eq_append] at spans neat ⊢
  refine ⟨c, List.getLast?_concat, ?_⟩
  obtain ⟨_, _, -, last⟩ := spans.of_append
  obtain ⟨_, _, covers, nil⟩ := last.of_cons
  obtain ⟨rfl, rfl⟩ := nil.of_nil
  cases covers with
  | keep _ => exact ⟨fun _ => rfl, fun _ => rfl⟩
  | @delete n l =>
    have pos : 0 < l := neat.solid _ (List.mem_append_right _ (List.mem_singleton_self _))
    exact ⟨fun _ => rfl, absurd (getLast?_marks pos rfl cs)⟩
  | insert => exact ⟨absurd neat.closesInserting, fun _ => rfl⟩
  | replace => exact ⟨fun _ => rfl, fun _ => rfl⟩

/-- A neat hunk is headed as far as its first and its last change let it be. -/
lemma headed_written (spans : Spans old new i j h i' j') (le : i' ≤ old.size) (le' : j' ≤ new.size)
    (some : h ≠ []) (neat : Neat h) (start : (Hunk.ranges h).1.1 = i) :
    (Hunk.written old new h).Headed i j := by
  have conveys := conveys_changes spans le le'
  have marks : (Hunk.written old new h).marks = h.flatMap Change.marks := marks_changes spans le le'
  obtain ⟨c, first, begins⟩ := first_of_spans spans some neat
  obtain ⟨c', last, stops, stops'⟩ := last_of_spans spans some neat
  have written : Hunk.written old new h = ⟨(c.oldRange.1, c'.oldRange.2 - c.oldRange.1),
      (c.newRange.1, c'.newRange.2 - c.newRange.1), changedLines old new h⟩ := by
    rw [Hunk.written, ranges_eq first last]
  rw [ranges_eq first last] at start
  rw [written] at marks ⊢
  constructor
  · exact start
  · intro closes
    rw [marks] at closes
    rw [start, stops closes, conveys.oldStop, Nat.add_sub_cancel_left]
  · intro opens
    rw [marks] at opens
    exact begins opens
  · intro opens closes
    rw [marks] at opens closes
    rw [begins opens, stops' closes, conveys.newStop, Nat.add_sub_cancel_left]

/-! ## Hunks in their places -/

/-- Hunks stand one behind the other in the old lines from `i` and in the new lines from `j` on, where
`heading` tells what a heading may say. Between them, before the first and behind the last of them both sides
have the same lines. -/
inductive Placed (heading : Written → (i j : Nat) → Prop) :
    (i j : Nat) → (old new : List Text) → List Written → Prop where
  | nil {i j rest} :
    Placed heading i j rest rest []
  | cons {i j gap old new h hs} :
    heading h (i + gap.length) (j + gap.length) →
    Placed heading (i + gap.length + (oldLines h.lines).length) (j + gap.length + (newLines h.lines).length)
      old new hs →
    Placed heading i j (gap ++ (oldLines h.lines ++ old)) (gap ++ (newLines h.lines ++ new)) (h :: hs)

namespace Placed

variable {heading : Written → Nat → Nat → Prop} {before after : List Text} {ws : List Written}

/-- Without hunks both sides are the same. -/
lemma of_nil (placed : Placed heading i j before after []) : before = after := by
  cases placed
  rfl

/-- Every hunk that is placed has a heading that may stand where it is placed. -/
lemma headed (placed : Placed heading i j before after ws) : ∀ h ∈ ws, ∃ i j, heading h i j := by
  induction placed with
  | nil => nofun
  | cons headed _ ih => exact List.forall_mem_cons.2 ⟨⟨_, _, headed⟩, ih⟩

/-- If headings say where hunks begin, no hunk begins before the place that they are placed from. -/
lemma le_start (starts : ∀ {h i j}, heading h i j → h.old.1 = i) (placed : Placed heading i j before after ws) :
    ∀ h ∈ ws, i ≤ h.old.1 := by
  induction placed with
  | nil => nofun
  | cons headed _ ih =>
    refine List.forall_mem_cons.2 ⟨?_, fun h mem => ?_⟩
    · rw [starts headed]
      exact Nat.le_add_right _ _
    · have le := ih h mem
      omega

/-- Each hunk begins where the ones before it have ended, or later. -/
lemma increasing (starts : ∀ {h i j}, heading h i j → h.old.1 = i)
    (placed : Placed heading i j before after ws) :
    ws.Pairwise fun g h => g.old.1 + (oldLines g.lines).length ≤ h.old.1 := by
  induction placed with
  | nil => exact .nil
  | cons headed placed ih =>
    refine .cons (fun h mem => ?_) ih
    rw [starts headed]
    exact placed.le_start starts h mem

end Placed

/-- Hunks that fit are placed in the old and the new lines, with headings as right as they can be. -/
lemma placed_hunks (fits : Fits old new i j hs) (neat : ∀ h ∈ hs, h ≠ [] ∧ Neat h) :
    Placed Written.Headed i j (old.toList.drop i) (new.toList.drop j) (hs.map (Hunk.written old new)) := by
  induction fits with
  | @nil i j l same stop stop' =>
    have rest : old.toList.drop (i + l) = [] := List.drop_eq_nil_of_le (Nat.le_of_eq stop.symm)
    have rest' : new.toList.drop (j + l) = [] := List.drop_eq_nil_of_le (Nat.le_of_eq stop'.symm)
    rw [drop_eq old i l, drop_eq new j l, same.extract, rest, rest']
    exact .nil
  | @cons i j i' j' l h hs same start spans fits ih =>
    obtain ⟨⟨some, shape⟩, neat⟩ := List.forall_mem_cons.1 neat
    obtain ⟨le, le'⟩ := fits.le_size
    have length := length_extract (Nat.le_trans spans.le.1 le)
    have headed := headed_written spans le le' some shape start
    obtain ⟨olds, news, stop, stop'⟩ := conveys_changes spans le le'
    have placed := ih neat
    rw [drop_eq old i l, drop_eq new j l, olds, news, ← same.extract]
    generalize (old.extract i (i + l)).toList = gap at length ⊢
    subst length
    rw [stop, stop'] at placed ⊢
    exact .cons headed placed

/-- Two hunks face each other with kept lines. -/
def Written.Facing (g h : Written) : Prop := g.marks.getLast? = some .kept ∧ h.marks.head? = some .kept

/-- The lines of a hunk that fits are marked as its changes say. -/
lemma marks_written (fits : Fits old new i j hs) :
    ∀ h ∈ hs, (Hunk.written old new h).marks = h.flatMap Change.marks := by
  induction fits with
  | nil => nofun
  | cons _ _ spans fits ih =>
    exact List.forall_mem_cons.2 ⟨marks_changes spans fits.le_size.1 fits.le_size.2, ih⟩

/-- Hunks that face each other with kept lines do so as they are written. -/
lemma facing_written (fits : Fits old new i j hs) (neat : ∀ h ∈ hs, h ≠ [] ∧ Neat h)
    (facing : hs.IsChain Facing) : (hs.map (Hunk.written old new)).IsChain Written.Facing := by
  rw [List.isChain_map]
  refine (List.IsChain.iff_mem.1 facing).imp ?_
  rintro g h ⟨mem, mem', ⟨o, n, l, last⟩, o', n', l', first⟩
  rw [Written.Facing, marks_written fits g mem, marks_written fits h mem']
  constructor
  · obtain ⟨cs, rfl⟩ := List.getLast?_eq_some_iff.1 last
    exact getLast?_marks ((neat _ mem).2.solid _ (List.mem_of_getLast? last)) rfl cs
  · obtain ⟨cs, rfl⟩ := List.head?_eq_some_iff.1 first
    exact head?_marks ((neat _ mem').2.solid _ List.mem_cons_self) cs

/-! ## Texts that agree -/

/-- Texts with the same lines are the same. -/
lemma lines_inj {before after : Text} (same : lines before = lines after) : before = after := by
  rw [← flatten_lines before, same, flatten_lines]

/-- A text agrees with itself as far as one looks. -/
lemma agreeAhead_self (ls : Array Text) (limit i : Nat) : agreeAhead ls ls limit i i = limit := by
  induction limit generalizing i with
  | zero => rfl
  | succ limit ih => rw [agreeAhead, if_pos rfl, ih]

/-- The edits from a text to itself keep all lines. -/
lemma edits_self (ls : Array Text) : edits ls ls = keepIf 0 0 ls.size := by
  obtain ⟨front, back, ahead, behind, eq⟩ : ∃ front back,
      front = agreeAhead ls ls (min (ls.size - 0) (ls.size - 0)) 0 0 ∧
      back = agreeBehind ls ls (min (ls.size - (0 + front)) (ls.size - (0 + front))) ls.size ls.size ∧
      edits ls ls = keepIf 0 0 front ++
        innerEdits ls ls ⟨0 + front, ls.size - back, 0 + front, ls.size - back⟩ ++
        keepIf (ls.size - back) (ls.size - back) back := by
    refine ⟨_, _, rfl, rfl, ?_⟩
    rw [edits, editsIn]
    rfl
  obtain rfl : front = ls.size := by rw [ahead, agreeAhead_self, Nat.min_self, Nat.sub_zero]
  obtain rfl : back = 0 := by
    rw [behind, Nat.zero_add, Nat.sub_self]
    rfl
  have inner : innerEdits ls ls ⟨0 + ls.size, ls.size - 0, 0 + ls.size, ls.size - 0⟩ = [] := by
    rw [innerEdits, Nat.zero_add, Nat.sub_zero, if_pos ⟨Nat.le_refl _, Nat.le_refl _⟩]
  rw [eq, inner, List.append_nil]
  exact List.append_nil _

/-- Nothing moves if nothing is chosen. -/
lemma moveAll_of_other {chosen : Edit → Bool} {above below : List Edit} (steps : Nat)
    (other : ∀ e ∈ below, chosen e = false) :
    moveAll old new chosen steps above below = above.reverse ++ below := by
  fun_induction moveAll old new chosen steps above below with
  | case1 above below => rfl
  | case2 steps above _ => exact (List.append_nil _).symm
  | case3 steps above focus below picked _ _ _ =>
    cases picked.symm.trans (other focus List.mem_cons_self)
  | case4 steps above focus below _ ih =>
    rw [ih fun e mem => other e (List.mem_cons_of_mem _ mem), List.reverse_cons, List.append_assoc]
    rfl

/-- Compaction leaves a script alone that only keeps lines. -/
lemma compact_keepIf (o n l : Nat) : compact old new (keepIf o n l) = keepIf o n l := by
  have kept : ∀ e ∈ keepIf o n l, e.isDelete = false ∧ e.isInsert = false := by
    intro e mem
    unfold keepIf at mem
    split at mem
    · cases mem
    · obtain rfl := List.mem_singleton.1 mem
      exact ⟨rfl, rfl⟩
  have first : moveAll old new Edit.isDelete _ [] (keepIf o n l) = keepIf o n l :=
    moveAll_of_other ((Edit.weight (keepIf o n l) + 1) * (Edit.weight (keepIf o n l) + 1))
      fun e mem => (kept e mem).1
  rw [compact]
  dsimp only
  rw [first]
  exact moveAll_of_other _ fun e mem => (kept e mem).2

/-- Between lines and themselves nothing is changed. -/
lemma changes_self (ls : Array Text) : changes ls ls = [] ∨ ∃ l, changes ls ls = [.keep 0 0 l] := by
  rw [changes, edits_self, compact_keepIf, keepIf]
  split
  · exact .inl rfl
  · exact .inr ⟨_, rfl⟩

/-- A text has no hunks against itself. -/
lemma hunks_self (ls : Array Text) : hunks (changes ls ls) = [] := by
  rcases changes_self ls with none | ⟨l, kept⟩
  · rw [none]
    rfl
  · have short : ¬ 2 * context < min (min l context) context := by
      rw [context]
      omega
    rw [kept, hunks, trimFront, trimBack]
    dsimp only [List.getLast?_singleton, List.dropLast_singleton, List.nil_append]
    rw [hunksFrom.eq_def]
    exact if_neg short

/-- Only the diff from a text to itself is empty. -/
lemma unified_eq_nil_iff (path before after : Text) : unified path before after = [] ↔ before = after := by
  constructor
  · intro empty
    have none : hunks (changes (lines before).toArray (lines after).toArray) = [] := by
      rw [unified] at empty
      split at empty
      · assumption
      · cases empty
    have fits := fits_hunks (lines before).toArray (lines after).toArray
    rw [none] at fits
    exact lines_inj (placed_hunks fits nofun).of_nil
  · rintro rfl
    rw [unified, hunks_self]

/-- The diff from one text to another. Its hunks stand one behind the other, below headings that can only be
wrong where a hunk begins or ends with lines that have no counterpart, and they turn the old text into the new
one. -/
theorem unified_places_hunks (path before after : Text) :
    ∃ hs, written? path (unified path before after) = some hs ∧
      Placed Written.Headed 0 0 (lines before) (lines after) hs ∧
      hs.Pairwise (fun g h => g.old.1 + (oldLines g.lines).length ≤ h.old.1) ∧
      hs.IsChain Written.Facing ∧
      patched? path (unified path before after) before = some after ∧
      (unified path before after = [] ↔ before = after) := by
  have fits := fits_hunks (lines before).toArray (lines after).toArray
  have neat := neat_of_mem_hunks (neat_changes (lines before).toArray (lines after).toArray)
  have placed := placed_hunks fits neat
  exact ⟨_, written?_unified path before after, placed, placed.increasing Written.Headed.oldStart,
    facing_written fits neat (facing_hunks _), patched?_unified path before after,
    unified_eq_nil_iff path before after⟩

/-- The heading of a hunk that stands at two places is right. -/
def Written.Exact (h : Written) (i j : Nat) : Prop :=
  h.old = (i, (oldLines h.lines).length) ∧ h.new = (j, (newLines h.lines).length)

/-- A heading can be wrong: the hunk has two old and two new lines, and its heading speaks of the first old
and the second new one. -/
theorem heading_misplaces :
    ¬ ∃ hs, written? "f" (unified "f" "b\na\n" "a\na\n") = some hs ∧
      Placed Written.Exact 0 0 (lines "b\na\n") (lines "a\na\n") hs := by
  have before : lines "b\na\n" = ["b\n".toList, "a\n".toList] := by decide
  have after : lines "a\na\n" = ["a\n".toList, "a\n".toList] := by decide
  have changes : changes #["b\n".toList, "a\n".toList] #["a\n".toList, "a\n".toList] =
    [.delete 0 1 1, .keep 1 0 1, .insert 1 1 1] := by cbv
  have written : written? "f" (unified "f" "b\na\n" "a\na\n") = some [⟨(0, 1), (1, 1),
      [(.deleted, "b\n"), (.kept, "a\n"), (.inserted, "a\n")]⟩] := by
    rw [written?_unified, before, after, changes]
    rfl
  rintro ⟨hs, read, placed⟩
  obtain rfl := Option.some.inj (written.symm.trans read)
  obtain ⟨i, j, exact, -⟩ := placed.headed _ List.mem_cons_self
  have counts : 1 = 2 := congrArg Prod.snd exact
  cases counts

end Mender.Diff
