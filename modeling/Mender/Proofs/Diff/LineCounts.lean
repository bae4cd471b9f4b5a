import Mender.Proofs.Diff.Headings

/-!
# Line counts

The numbers of lines that are inserted and deleted between two texts are taken from all changes, and the
hunks of the diff hold the changes with what is kept around them. Grouping only takes kept lines away
(`changed_hunks`), so the numbers are those of the lines that the diff marks (`countChanges_tallies`). What
is neither deleted nor inserted is common to both texts (`exists_common`).
-/

namespace Mender.Diff

variable {old new : Array Text} {cs : List Change} {hs : List Hunk} {i j : Nat} {m : Mark}

/-! ## Grouping keeps the changes -/

/-- The changes that do not keep lines. -/
def changed (cs : List Change) : List Change := cs.filter (!·.isKeep)

/-- The changes among two lists are those among the one and those among the other. -/
lemma changed_append (cs cs' : List Change) : changed (cs ++ cs') = changed cs ++ changed cs' :=
  List.filter_append ..

/-- A kept run is no change. -/
lemma changed_keep (o n l : Nat) (cs : List Change) : changed (.keep o n l :: cs) = changed cs := rfl

/-- Cutting the context in front cuts no change. -/
lemma changed_trimFront (cs : List Change) : changed (trimFront cs) = changed cs := by
  unfold trimFront
  split <;> rfl

/-- Cutting the context behind cuts no change. -/
lemma changed_trimBack (cs : List Change) : changed (trimBack cs) = changed cs := by
  unfold trimBack
  split
  · next o n l last =>
    rw [changed_append]
    conv_rhs => rw [← List.dropLast_append_getLast? _ last, changed_append]
    rfl
  · rfl

/-- Cutting changes into hunks loses no change. -/
lemma changed_hunksFrom (group : Hunk) (cs : List Change) :
    changed (hunksFrom group cs).flatten = changed (group ++ cs) := by
  fun_induction hunksFrom group cs with
  | case1 => rfl
  | case2 o n l => rfl
  | case3 group some other => rw [List.flatten_singleton, List.append_nil]
  | case4 group o n l cs long ih =>
    rw [List.flatten_cons, changed_append, ih, changed_append, changed_append, changed_append,
      List.append_assoc]
    rfl
  | case5 group o n l cs short ih => rw [ih, ← List.append_cons]
  | case6 group c cs other ih => rw [ih, ← List.append_cons]

/-- The hunks hold every change that does not keep lines. -/
lemma changed_hunks (cs : List Change) : changed (hunks cs).flatten = changed cs := by
  rw [hunks, changed_hunksFrom, List.nil_append, changed_trimBack, changed_trimFront]

/-! ## Counting marks -/

/-- Lines that are not kept are those of the changes. -/
lemma count_marks_changed (cs : List Change) (other : m ≠ .kept) :
    ((changed cs).flatMap Change.marks).count m = (cs.flatMap Change.marks).count m := by
  induction cs with
  | nil => rfl
  | cons c cs ih =>
    rw [List.flatMap_cons, List.count_append, ← ih]
    cases c with
    | keep o n l =>
      have none : (Change.keep o n l).marks.count m = 0 := List.count_eq_zero.2 fun mem =>
        other (List.eq_of_mem_replicate mem)
      rw [none, Nat.zero_add, changed_keep]
    | _ => exact List.count_append

/-- How many lines of hunks bear a mark. -/
def tally (m : Mark) (hs : List Written) : Nat := (hs.flatMap Written.marks).count m

/-- The lines of hunks that bear a mark are those of their changes. -/
lemma tally_written (fits : Fits old new i j hs) :
    tally m (hs.map (Hunk.written old new)) = (hs.flatten.flatMap Change.marks).count m := by
  have marks : (hs.map (Hunk.written old new)).flatMap Written.marks =
      hs.flatMap (·.flatMap Change.marks) := by
    rw [List.flatMap_map]
    exact List.flatMap_congr fun h mem => marks_written fits h mem
  rw [tally, marks, ← List.flatMap_id, List.flatMap_assoc]
  rfl

/-- The hunks of a diff have as many inserted and deleted lines as all its changes. -/
lemma tally_hunks (m : Mark) (other : m ≠ .kept) :
    tally m ((hunks (changes old new)).map (Hunk.written old new)) =
      ((changes old new).flatMap Change.marks).count m := by
  rw [tally_written (fits_hunks old new), ← count_marks_changed _ other, changed_hunks,
    count_marks_changed _ other]

/-- The lines that bear a mark add up over the changes. -/
lemma count_marks_eq_foldr {f : Change → Nat} (count : ∀ c : Change, c.marks.count m = f c)
    (cs : List Change) : (cs.flatMap Change.marks).count m = cs.foldr (fun c n => f c + n) 0 := by
  induction cs with
  | nil => rfl
  | cons c cs ih => rw [List.flatMap_cons, List.count_append, count, ih, List.foldr_cons]

/-- The count of changed lines is the count of inserted and of deleted marks. -/
lemma countChanges_eq (before after : Text) : countChanges before after =
    let marks := (changes (lines before).toArray (lines after).toArray).flatMap Change.marks
    ⟨marks.count .inserted, marks.count .deleted⟩ := by
  have inserts : ∀ c : Change, c.marks.count .inserted = c.inserted := by
    intro c
    cases c <;> simp [Change.marks, Change.inserted, List.count_replicate]
  have deletes : ∀ c : Change, c.marks.count .deleted = c.deleted := by
    intro c
    cases c <;> simp [Change.marks, Change.deleted, List.count_replicate]
  dsimp only
  rw [countChanges, count_marks_eq_foldr inserts, count_marks_eq_foldr deletes]

/-! ## Common lines -/

/-- The kept lines among marked lines. -/
def keptLines (ls : List (Mark × Text)) : List Text := (ls.filter (·.1 = .kept)).map (·.2)

variable (ls : List (Mark × Text))

/-- What is kept stands on both sides. -/
lemma kept_sublist : (keptLines ls).Sublist (oldLines ls) ∧ (keptLines ls).Sublist (newLines ls) := by
  constructor
  · exact (List.monotone_filter_right _ fun x kept => by grind).map _
  · exact (List.monotone_filter_right _ fun x kept => by grind).map _

/-- Each side has the kept lines and those that are on this side alone. -/
lemma length_lines : (oldLines ls).length = (keptLines ls).length + (ls.map (·.1)).count .deleted ∧
    (newLines ls).length = (keptLines ls).length + (ls.map (·.1)).count .inserted := by
  induction ls with
  | nil => exact ⟨rfl, rfl⟩
  | cons x ls ih =>
    obtain ⟨mark, t⟩ := x
    cases mark <;> grind [oldLines, newLines, keptLines]

/-- What two texts have left besides the lines that are counted is common to them. -/
lemma exists_common (before after : Text) : ∃ common : List Text,
    common.Sublist (lines before) ∧ common.Sublist (lines after) ∧
    (lines before).length = common.length + (countChanges before after).deleted ∧
    (lines after).length = common.length + (countChanges before after).inserted := by
  let old := (lines before).toArray
  let new := (lines after).toArray
  let ls := changedLines old new (changes old new)
  have spans := spans_changes old new
  have marks : ls.map (·.1) = _ := marks_changes spans (Nat.le_refl _) (Nat.le_refl _)
  obtain ⟨olds, news, -, -⟩ := conveys_changes spans (Nat.le_refl _) (Nat.le_refl _)
  rw [List.drop_zero, List.drop_eq_nil_of_le (Nat.le_of_eq Array.length_toList), List.append_nil] at olds news
  obtain ⟨onOld, onNew⟩ := kept_sublist ls
  obtain ⟨oldLength, newLength⟩ := length_lines ls
  rw [marks] at oldLength newLength
  rw [← olds] at onOld oldLength
  rw [← news] at onNew newLength
  rw [countChanges_eq]
  exact ⟨keptLines ls, onOld, onNew, oldLength, newLength⟩

/-- Nothing is counted only between a text and itself. -/
lemma countChanges_eq_zero_iff (before after : Text) :
    countChanges before after = ⟨0, 0⟩ ↔ before = after := by
  constructor
  · intro none
    obtain ⟨common, onOld, onNew, oldLength, newLength⟩ := exists_common before after
    rw [none, Nat.add_zero] at oldLength newLength
    have whole : common = lines before := onOld.eq_of_length oldLength.symm
    exact lines_inj (whole.symm.trans (onNew.eq_of_length newLength.symm))
  · rintro rfl
    rw [countChanges]
    rcases changes_self (lines before).toArray with none | ⟨l, kept⟩
    · rw [none]
      rfl
    · rw [kept]
      rfl

/-- The lines counted as inserted and deleted are those that the diff marks so, and the lines that remain of
either text are common to both. -/
theorem countChanges_tallies (path before after : Text) :
    ∃ (hs : List Written) (common : List Text), written? path (unified path before after) = some hs ∧
      (countChanges before after).inserted = tally .inserted hs ∧
      (countChanges before after).deleted = tally .deleted hs ∧
      (countChanges before after).deleted ≤ (lines before).length ∧
      (countChanges before after).inserted ≤ (lines after).length ∧
      common.Sublist (lines before) ∧ common.Sublist (lines after) ∧
      (lines before).length - (countChanges before after).deleted = common.length ∧
      (lines after).length - (countChanges before after).inserted = common.length ∧
      (countChanges before after = ⟨0, 0⟩ ↔ before = after) := by
  obtain ⟨common, onOld, onNew, oldLength, newLength⟩ := exists_common before after
  refine ⟨_, common, written?_unified path before after, ?_, ?_, by omega, by omega, onOld, onNew, by omega,
    by omega, countChanges_eq_zero_iff before after⟩
  · rw [countChanges_eq, tally_hunks .inserted nofun]
  · rw [countChanges_eq, tally_hunks .deleted nofun]

end Mender.Diff
