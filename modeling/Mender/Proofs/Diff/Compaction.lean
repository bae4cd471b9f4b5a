import Mender.Proofs.Diff.Script

/-!
# Compacted scripts

Every move of a run is made of a few rewritings of neighbouring runs. Each of them keeps the script
fitting and does not change how far the insertions above it can be moved down (`Refines`), so a compacted
script fits (`runs_compact`). Once it has been moved, an insertion cannot be moved down any further, and
no later move changes that (`Settled`). So an insertion at the front of a compacted script stands at the
front of the old lines, too (`front_compact`).
-/

namespace Mender.Diff

variable {old new : Array Text} {i j k l o n s p : Nat} {e focus : Edit}
  {es es' es'' above above' above'' below : List Edit}

/-! ## Rewriting neighbours -/

/-- The second script fits wherever the first one does, and insertions above it can be moved as far
down. -/
def Refines (old new : Array Text) (es es' : List Edit) : Prop :=
  ∀ i j, Runs old new i j es → Runs old new i j es' ∧ ∀ a, slack old new a es' = slack old new a es

/-- A script refines itself. -/
lemma Refines.refl (es : List Edit) : Refines old new es es := fun _ _ runs => ⟨runs, fun _ => rfl⟩

/-- Refining a script twice refines it. -/
lemma Refines.trans (refines : Refines old new es es') (refines' : Refines old new es' es'') :
    Refines old new es es'' := by
  intro i j runs
  obtain ⟨runs, same⟩ := refines i j runs
  obtain ⟨runs, same'⟩ := refines' i j runs
  exact ⟨runs, fun a => (same' a).trans (same a)⟩

/-- A script is refined below an edit. -/
lemma Refines.cons (refines : Refines old new es es') (e : Edit) :
    Refines old new (e :: es) (e :: es') := by
  intro i j runs
  cases runs with
  | keep agree runs =>
    obtain ⟨runs, same⟩ := refines _ _ runs
    exact ⟨.keep agree runs, fun a => by rw [slack, slack, same]⟩
  | delete runs =>
    obtain ⟨runs, same⟩ := refines _ _ runs
    exact ⟨.delete runs, fun a => by rw [slack, slack, same]⟩
  | insert pos bound runs =>
    obtain ⟨runs, same⟩ := refines _ _ runs
    rw [← same] at bound
    exact ⟨.insert pos bound runs, fun a => by rw [slack, slack, same]⟩

/-- A script is refined below any front. -/
lemma Refines.append (refines : Refines old new es es') (front : List Edit) :
    Refines old new (front ++ es) (front ++ es') := by
  induction front with
  | nil => exact refines
  | cons e front ih => exact ih.cons e

variable {o' n' io : Nat}

/-- A kept run without lines can be left out. -/
lemma refines_emptyKeep : Refines old new (.keep o n 0 :: es) es := by
  intro i j runs
  obtain ⟨-, -, -, rest⟩ := runs.of_keep
  exact ⟨rest, fun a => by rw [slack, if_pos same_zero, Nat.add_zero]⟩

/-- Joining two kept runs does not change how far an insertion can be moved down past them. -/
lemma slack_joinKeep (a : Nat) : slack old new a (.keep o n (l + k) :: es) =
    slack old new a (.keep o n l :: .keep (o + l) n' k :: es) := by
  simp only [slack, same_add, Nat.add_assoc]
  by_cases front : Same old new o a l
  · simp only [front, true_and, if_true]
  · simp only [front, false_and, if_false]

/-- Kept runs that meet can be joined. -/
lemma refines_joinKeep :
    Refines old new (.keep o n l :: .keep o' n' k :: es) (.keep o n (l + k) :: es) := by
  intro i j runs
  obtain ⟨rfl, rfl, agree, rest⟩ := runs.of_keep
  obtain ⟨rfl, rfl, agree', rest'⟩ := rest.of_keep
  rw [Nat.add_assoc, Nat.add_assoc] at rest'
  exact ⟨.keep (same_add.2 ⟨agree, agree'⟩) rest', slack_joinKeep⟩

/-- A kept run can be split anywhere. -/
lemma refines_splitKeep :
    Refines old new (.keep o n (l + k) :: es) (.keep o n l :: .keep (o + l) (n + l) k :: es) := by
  intro i j runs
  obtain ⟨rfl, rfl, agree, rest⟩ := runs.of_keep
  obtain ⟨agree, agree'⟩ := same_add.1 agree
  rw [← Nat.add_assoc, ← Nat.add_assoc] at rest
  exact ⟨.keep agree (.keep agree' rest), fun a => (slack_joinKeep a).symm⟩

/-- Deletions that meet can be joined. -/
lemma refines_joinDelete :
    Refines old new (.delete o n l :: .delete o' n' k :: es) (.delete o n (l + k) :: es) := by
  intro i j runs
  obtain ⟨rfl, rest⟩ := runs.of_delete
  obtain ⟨rfl, rest'⟩ := rest.of_delete
  rw [Nat.add_assoc] at rest'
  exact ⟨.delete rest', fun a => by rw [slack, slack, slack, Nat.add_assoc]⟩

/-- Insertions that meet can be joined. -/
lemma refines_joinInsert :
    Refines old new (.insert o n l :: .insert o' n' k :: es) (.insert o n (l + k) :: es) := by
  intro i j runs
  obtain ⟨rfl, pos, bound, rest⟩ := runs.of_insert
  obtain ⟨rfl, -, -, rest'⟩ := rest.of_insert
  rw [Nat.add_assoc] at rest'
  exact ⟨.insert (Nat.lt_add_right k pos) bound rest', fun a => rfl⟩

/-- A deletion can be taken up past an insertion. -/
lemma refines_deleteUp :
    Refines old new (.insert o n l :: .delete o' n' k :: es)
      (.delete o' n' k :: .insert o n l :: es) := by
  intro i j runs
  obtain ⟨rfl, pos, bound, rest⟩ := runs.of_insert
  obtain ⟨rfl, rest'⟩ := rest.of_delete
  rw [slack, ← Nat.add_assoc] at bound
  exact ⟨.delete (.insert pos bound rest'), fun a => rfl⟩

/-- An insertion can be taken up past a deletion. -/
lemma refines_insertUp :
    Refines old new (.delete o n l :: .insert o' n' k :: es)
      (.insert o' n' k :: .delete o n l :: es) := by
  intro i j runs
  obtain ⟨rfl, rest⟩ := runs.of_delete
  obtain ⟨rfl, pos, bound, rest'⟩ := rest.of_insert
  rw [Nat.add_assoc] at bound
  exact ⟨.insert pos bound (.delete rest'), fun a => rfl⟩

/-- An insertion moves up past kept lines that agree with its end. -/
lemma refines_shiftUp (agree : Same old new o (i + k - s) s) :
    Refines old new (.keep o n s :: .insert io i k :: es)
      (.insert (io - s) (i - s) k :: .keep o (i + k - s) s :: es) := by
  intro x y runs
  obtain ⟨rfl, rfl, kept, rest⟩ := runs.of_keep
  obtain ⟨rfl, pos, bound, rest'⟩ := rest.of_insert
  have start : n + s - s = n := by omega
  have stop : n + s + k - s = n + k := by omega
  rw [stop] at agree
  rw [start, stop]
  refine ⟨.insert pos ?_ (.keep agree ?_), fun a => rfl⟩
  · rw [slack, if_pos kept]
    omega
  · rw [Nat.add_right_comm n k s]
    exact rest'

/-- An insertion moves down past kept lines that agree with its beginning. -/
lemma refines_shiftDown (agree : Same old new o i p) :
    Refines old new (.insert io i k :: .keep o n p :: es)
      (.keep o i p :: .insert (io + p) (i + p) k :: es) := by
  intro x y runs
  obtain ⟨rfl, pos, bound, rest⟩ := runs.of_insert
  obtain ⟨rfl, rfl, -, rest'⟩ := rest.of_keep
  rw [slack, if_pos agree] at bound
  refine ⟨.keep agree (.insert pos ?_ ?_), fun a => rfl⟩
  · omega
  · rw [Nat.add_right_comm]
    exact rest'

/-- Lines kept in front of the runs below can be joined with the run on top of them. -/
lemma refines_keepOnTop (le : s ≤ o) (le' : s ≤ n) :
    Refines old new (.keep (o - s) (n - s) s :: below) (keepOnTop o n s below) := by
  unfold keepOnTop
  split
  · next o' n' l below =>
    intro i j runs
    have places : o' = o ∧ n' = n := by
      obtain ⟨rfl, rfl, -, rest⟩ := runs.of_keep
      obtain ⟨rfl, rfl, -⟩ := rest.of_keep
      exact ⟨Nat.sub_add_cancel le, Nat.sub_add_cancel le'⟩
    obtain ⟨rfl, rfl⟩ := places
    rw [Nat.add_comm l s]
    exact refines_joinKeep i j runs
  · exact .refl _

/-! ## Scripts held open -/

/-- No insertion among the runs above can be moved down any further. -/
def Settled (old new : Array Text) : (above rest : List Edit) → Prop
  | [], _ => True
  | e :: above, rest =>
    (∀ o n l, e = .insert o n l → slack old new n rest = 0) ∧ Settled old new above (e :: rest)

/-- Runs above stay settled if insertions can be moved down below them as far as before. -/
lemma Settled.congr (settled : Settled old new above es)
    (same : ∀ a, slack old new a es' = slack old new a es) : Settled old new above es' := by
  induction above generalizing es es' with
  | nil => trivial
  | cons e above ih =>
    refine ⟨fun o n l eq => (same n).trans (settled.1 o n l eq), ih settled.2 fun a => ?_⟩
    cases e with
    | keep o n l => rw [slack, slack, same]
    | delete o n l => rw [slack, slack, same]
    | insert o n l => rw [slack, slack, same]

/-- What is behind the front of a script fits at some place. -/
lemma Runs.of_append {front : List Edit} (runs : Runs old new i j (front ++ es)) :
    ∃ i j, Runs old new i j es := by
  induction front generalizing i j with
  | nil => exact ⟨i, j, runs⟩
  | cons e front ih =>
    cases runs with
    | keep _ runs => exact ih runs
    | delete runs => exact ih runs
    | insert _ _ runs => exact ih runs

/-- Taking an open script on keeps it fitting and, if insertions are moved, keeps the ones above
settled. -/
def Carries (old new : Array Text) (inserts : Bool) (above es above' es' : List Edit) : Prop :=
  ∀ i j, Runs old new i j (above.reverse ++ es) → Runs old new i j (above'.reverse ++ es') ∧
    (inserts = true → Settled old new above es → Settled old new above' es')

variable {inserts : Bool}

/-- Leaving an open script as it is takes it on. -/
lemma Carries.refl (above es : List Edit) : Carries old new inserts above es above es :=
  fun _ _ runs => ⟨runs, fun _ settled => settled⟩

/-- Taking an open script on twice takes it on. -/
lemma Carries.trans (carries : Carries old new inserts above es above' es')
    (carries' : Carries old new inserts above' es' above'' es'') :
    Carries old new inserts above es above'' es'' := by
  intro i j runs
  obtain ⟨runs, settled⟩ := carries i j runs
  obtain ⟨runs, settled'⟩ := carries' i j runs
  exact ⟨runs, fun on before => settled' on (settled on before)⟩

/-- Refining what is below takes an open script on. -/
lemma Refines.carries (refines : Refines old new es es') (above : List Edit) :
    Carries old new inserts above es above es' := by
  intro i j runs
  obtain ⟨_, _, part⟩ := runs.of_append
  exact ⟨(refines.append above.reverse i j runs).1, fun _ settled => settled.congr (refines _ _ part).2⟩

/-- The nearest run above can be put below. -/
lemma carries_up (e : Edit) (above es : List Edit) :
    Carries old new inserts (e :: above) es above (e :: es) := by
  intro i j runs
  rw [List.reverse_cons, List.append_assoc] at runs
  exact ⟨runs, fun _ settled => settled.2⟩

/-- The first run below can be put above, but for an insertion that may not be settled. -/
lemma carries_down (other : inserts = true → e.isInsert = false) (above es : List Edit) :
    Carries old new inserts above (e :: es) (e :: above) es := by
  intro i j runs
  refine ⟨?_, fun on settled => ⟨?_, settled⟩⟩
  · rw [List.reverse_cons, List.append_assoc]
    exact runs
  · rintro o n l rfl
    exact absurd (other on) nofun

/-- The run above is brought down and rewritten together with the runs below. -/
lemma Refines.pull (refines : Refines old new (e :: es) es') (above : List Edit) :
    Carries old new inserts (e :: above) es above es' :=
  (carries_up e above es).trans (refines.carries above)

/-- An insertion moves up past the last `s` of the `l` kept lines above it. -/
lemma refines_up (n io : Nat) (below : List Edit)
    (eq : s = agreeBehind old new (min l k) (o + l) (i + k)) :
    Refines old new (.keep o n l :: .insert io i k :: below)
      (.keep o n (l - s) :: .insert (io - s) (i - s) k :: keepOnTop (o + l) (i + k) s below) := by
  have agree := same_agreeBehind old new (show min l k ≤ o + l by omega) (show min l k ≤ i + k by omega)
  have le := agreeBehind_le old new (min l k) (o + l) (i + k)
  rw [← eq] at agree le
  have start : o + (l - s) = o + l - s := by omega
  have whole : l - s + s = l := by omega
  have split : Refines old new (.keep o n l :: .insert io i k :: below)
      (.keep o n (l - s) :: .keep (o + l - s) (n + (l - s)) s :: .insert io i k :: below) := by
    rw [← start]
    nth_rewrite 1 [← whole]
    exact refines_splitKeep
  have place : Refines old new (.keep (o + l - s) (i + k - s) s :: below)
      (keepOnTop (o + l) (i + k) s below) := refines_keepOnTop (by omega) (by omega)
  exact split.trans (.cons ((refines_shiftUp agree).trans (place.cons _)) _)

/-- An insertion moves down past the first `p` of the `l` kept lines below it. -/
lemma refines_down (n io : Nat) (below : List Edit)
    (eq : p = agreeAhead old new (min l k) o i) :
    Refines old new (.insert io i k :: .keep o n l :: below)
      (.keep o i p :: .insert (io + p) (i + p) k :: .keep (o + p) (n + p) (l - p) :: below) := by
  have agree := same_agreeAhead old new (min l k) o i
  have le := agreeAhead_le old new (min l k) o i
  rw [← eq] at agree le
  have whole : p + (l - p) = l := by omega
  have split : Refines old new (.keep o n l :: below)
      (.keep o n p :: .keep (o + p) (n + p) (l - p) :: below) := by
    nth_rewrite 1 [← whole]
    exact refines_splitKeep
  exact (split.cons _).trans (refines_shiftDown agree)

/-- A kept run can be joined behind the runs above. -/
lemma carries_keepBehind :
    Carries old new inserts above (.keep o n l :: es) (keepBehind o n l above) es := by
  unfold keepBehind
  split
  · exact (refines_joinKeep.pull _).trans (carries_down (fun _ => rfl) _ _)
  · exact carries_down (fun _ => rfl) _ _

/-- The runs that are moved: insertions, or else deletions. -/
def Edit.chosen (inserts : Bool) : Edit → Bool
  | .keep _ _ _ => false
  | .delete _ _ _ => !inserts
  | .insert _ _ _ => inserts

/-- Moving a chosen run up takes an open script on. -/
lemma carries_moveUp (chosen : focus.chosen inserts = true) (above below : List Edit) :
    Carries old new inserts above (focus :: below) (moveUp old new above focus below).above
      ((moveUp old new above focus below).focus :: (moveUp old new above focus below).below) := by
  fun_induction moveUp old new above focus below with
  | case1 => exact .refl _ _
  | case2 o n above io i k below s none ih => exact (refines_emptyKeep.pull _).trans (ih chosen)
  | case3 => exact .refl _ _
  -- all kept lines agree with the end of the insertion, and nothing is left of them above it
  | case4 o n l above io i k below s some below' all ih =>
    have up := refines_up n io below (rfl : s = _)
    rw [Nat.sub_eq_zero_of_le (Nat.le_of_eq all)] at up
    exact ((up.trans refines_emptyKeep).pull _).trans (ih chosen)
  | case5 o n l above io i k below s some below' part ih =>
    have up := refines_up n io below (rfl : s = _)
    exact ((up.pull _).trans (carries_down (fun _ => rfl) _ _)).trans (ih chosen)
  | case6 o n above focus below other ih => exact (refines_emptyKeep.pull _).trans (ih chosen)
  | case7 => exact .refl _ _
  | case8 o n l above o' n' k below ih => exact (refines_joinDelete.pull _).trans (ih chosen)
  | case9 o n l above o' n' k below ih => exact (refines_joinInsert.pull _).trans (ih chosen)
  | case10 e above focus below kept keeps deletes insertions ih =>
    cases focus with
    | keep o n l => cases chosen
    | delete o n l =>
      cases e with
      | keep o' n' k => exact absurd rfl (keeps o' n' k)
      | delete o' n' k => exact (deletes _ _ _ _ _ _ rfl rfl).elim
      | insert o' n' k => exact (refines_deleteUp.pull _).trans (ih chosen)
    | insert o n l =>
      cases e with
      | keep o' n' k => exact absurd rfl (keeps o' n' k)
      | delete o' n' k => exact (refines_insertUp.pull _).trans (ih chosen)
      | insert o' n' k => exact (insertions _ _ _ _ _ _ rfl rfl).elim

/-- Moving a chosen run down takes an open script on. -/
lemma carries_moveDown (chosen : focus.chosen inserts = true) (above below : List Edit) :
    Carries old new inserts above (focus :: below) (moveDown old new above focus below).above
      ((moveDown old new above focus below).focus :: (moveDown old new above focus below).below) := by
  fun_induction moveDown old new above focus below with
  | case1 => exact .refl _ _
  | case2 above io i k o n below p none ih =>
    exact ((refines_emptyKeep.cons _).carries _).trans (ih chosen)
  | case3 => exact .refl _ _
  -- all kept lines agree with the front of the insertion, and nothing is left of them below it
  | case4 above io i k o n l below p some above' all ih =>
    have down := refines_down n io below (rfl : p = _)
    rw [Nat.sub_eq_zero_of_le (Nat.le_of_eq all)] at down
    have down' := down.trans ((refines_emptyKeep.cons _).cons _)
    exact ((down'.carries _).trans carries_keepBehind).trans (ih chosen)
  | case5 above io i k o n l below p some above' part ih =>
    have down := refines_down n io below (rfl : p = _)
    exact ((down.carries _).trans carries_keepBehind).trans (ih chosen)
  | case6 above focus o n below other ih =>
    exact ((refines_emptyKeep.cons _).carries _).trans (ih chosen)
  | case7 => exact .refl _ _
  | case8 above o n l o' n' k below ih => exact (refines_joinDelete.carries _).trans (ih chosen)
  | case9 above o n l o' n' k below ih => exact (refines_joinInsert.carries _).trans (ih chosen)
  | case10 above focus e below kept keeps deletes insertions ih =>
    cases focus with
    | keep o n l => cases chosen
    | delete o n l =>
      cases e with
      | keep o' n' k => exact absurd rfl (keeps o' n' k)
      | delete o' n' k => exact (deletes _ _ _ _ _ _ rfl rfl).elim
      -- insertions come to stand above only while deletions are moved
      | insert o' n' k =>
        have other : inserts = true → (Edit.insert o' n' k).isInsert = false := by
          rintro rfl
          cases chosen
        exact ((refines_insertUp.carries _).trans (carries_down other _ _)).trans (ih chosen)
    | insert o n l =>
      cases e with
      | keep o' n' k => exact absurd rfl (keeps o' n' k)
      | delete o' n' k =>
        exact ((refines_deleteUp.carries _).trans (carries_down (fun _ => rfl) _ _)).trans (ih chosen)
      | insert o' n' k => exact (insertions _ _ _ _ _ _ rfl rfl).elim

/-- A run that is moved up stays of its kind. -/
lemma chosen_moveUp (above below : List Edit) :
    (moveUp old new above focus below).focus.chosen inserts = focus.chosen inserts := by
  fun_induction moveUp old new above focus below <;> simp_all [Edit.chosen]

/-- An insertion that has been moved down cannot be moved any further. -/
lemma slack_moveDown (above below : List Edit) (runs : Runs old new i j
      ((moveDown old new above focus below).focus :: (moveDown old new above focus below).below))
    (insert : (moveDown old new above focus below).focus = .insert o n l) :
    slack old new n (moveDown old new above focus below).below = 0 := by
  fun_induction moveDown old new above focus below with
  | case1 => rfl
  | case2 above io i k o n below p none ih => exact ih runs insert
  -- it has stopped at kept lines, and their first one differs from its own
  | case3 above io a k o n l below p none full =>
    obtain ⟨-, pos, -⟩ := runs.of_insert
    have le : p ≤ min l k := agreeAhead_le ..
    have zero : p = 0 := by omega
    have differ := not_same_of_agreeAhead (by omega) zero (Nat.pos_of_ne_zero full)
    cases insert
    rw [slack, if_neg differ]
  | case4 above io i k o n l below p some above' all ih => exact ih runs insert
  | case5 above io i k o n l below p some above' part ih => exact ih runs insert
  | case6 above focus o n below other ih => exact ih runs insert
  | case7 above focus o n l below other full => exact absurd insert (other _ _ _)
  | case8 above o n l o' n' k below ih => exact ih runs insert
  | case9 above o n l o' n' k below ih => exact ih runs insert
  | case10 above focus e below kept keeps deletes insertions ih => exact ih runs insert

/-- A run that has been moved up and then down joins the runs above. -/
lemma carries_move (chosen : focus.chosen inserts = true) (above below : List Edit) :
    let up := moveUp old new above focus below
    let down := moveDown old new up.above up.focus up.below
    Carries old new inserts above (focus :: below) (down.focus :: down.above) down.below := by
  intro up down i j runs
  have chosen' : up.focus.chosen inserts = true := (chosen_moveUp above below).trans chosen
  obtain ⟨runs, settled⟩ := (carries_moveUp chosen above below).trans
    (carries_moveDown chosen' up.above up.below) i j runs
  obtain ⟨_, _, part⟩ := runs.of_append
  refine ⟨?_, fun on before => ⟨fun o n l insert => slack_moveDown _ _ part insert, settled on before⟩⟩
  rw [List.reverse_cons, List.append_assoc]
  exact runs

/-! ## Whole scripts -/

/-- A script still fits after all chosen runs were moved. -/
lemma runs_moveAll (steps : Nat) (runs : Runs old new i j (above.reverse ++ below)) :
    Runs old new i j (moveAll old new (Edit.chosen inserts) steps above below) := by
  fun_induction moveAll old new (Edit.chosen inserts) steps above below with
  | case1 above below => exact runs
  | case2 steps above _ =>
    rw [List.append_nil] at runs
    exact runs
  | case3 steps above focus below chosen up down ih => exact ih (carries_move chosen _ _ _ _ runs).1
  | case4 steps above focus below _ ih =>
    rw [List.reverse_cons, List.append_assoc] at ih
    exact ih runs

/-- An insertion at the front of runs that are settled cannot be moved. -/
lemma Settled.front (settled : Settled old new above es) (some : above ≠ [])
    (front : above.reverse ++ es = .insert o n l :: tail) : slack old new n tail = 0 := by
  induction above generalizing es with
  | nil => exact absurd rfl some
  | cons e above ih =>
    rw [List.reverse_cons, List.append_assoc, List.singleton_append] at front
    cases above with
    | nil =>
      cases front
      exact settled.1 _ _ _ rfl
    | cons e' above => exact ih settled.2 (List.cons_ne_nil _ _) front

/-- If all insertions were moved, one at the front of the result cannot be moved down any further. -/
lemma slack_moveAll (steps : Nat) (runs : Runs old new i j (above.reverse ++ below))
    (settled : Settled old new above below) (some : above ≠ [] ∨ 0 < steps)
    (front : moveAll old new (Edit.chosen true) steps above below = .insert o n l :: tail) :
    slack old new n tail = 0 := by
  fun_induction moveAll old new (Edit.chosen true) steps above below with
  | case1 above below => exact settled.front (some.resolve_right (Nat.lt_irrefl 0)) front
  | case2 steps above _ =>
    refine settled.front ?_ ((List.append_nil _).trans front)
    rintro rfl
    cases front
  | case3 steps above focus below chosen up down ih =>
    obtain ⟨runs, settled'⟩ := carries_move chosen _ _ _ _ runs
    exact ih runs (settled' rfl settled) (.inl (List.cons_ne_nil _ _)) front
  | case4 steps above focus below other ih =>
    have insert : true = true → focus.isInsert = false := by
      cases focus <;> simp_all [Edit.chosen, Edit.isInsert]
    obtain ⟨runs, settled'⟩ := carries_down insert above below _ _ runs
    exact ih runs (settled' rfl settled) (.inl (List.cons_ne_nil _ _)) front

/-- Compaction moves the deletions and then the insertions, with as many steps as it takes. -/
lemma compact_eq (old new : Array Text) (es : List Edit) : ∃ steps steps', 0 < steps' ∧
    compact old new es = moveAll old new (Edit.chosen true) steps' []
      (moveAll old new (Edit.chosen false) steps [] es) := by
  have deletes : Edit.isDelete = Edit.chosen false := by
    funext e
    cases e <;> rfl
  have insertions : Edit.isInsert = Edit.chosen true := by
    funext e
    cases e <;> rfl
  rw [compact, deletes, insertions]
  exact ⟨_, _, Nat.mul_pos (Nat.succ_pos _) (Nat.succ_pos _), rfl⟩

/-- A compacted script turns the same old lines into the same new lines. -/
lemma runs_compact (runs : Runs old new i j es) : Runs old new i j (compact old new es) := by
  obtain ⟨steps, steps', -, eq⟩ := compact_eq old new es
  rw [eq]
  exact runs_moveAll steps' (runs_moveAll steps runs)

/-- An insertion at the front of a compacted script stands no further down than the script. -/
lemma front_compact (runs : Runs old new i j es) (front : compact old new es = .insert o n l :: tail) :
    o ≤ i := by
  have fits := runs_compact runs
  obtain ⟨steps, steps', pos, eq⟩ := compact_eq old new es
  rw [front] at fits
  rw [eq] at front
  have settled : Settled old new [] (moveAll old new (Edit.chosen false) steps [] es) := trivial
  have none := slack_moveAll steps' (runs_moveAll steps runs) settled (.inr pos) front
  obtain ⟨rfl, -, bound, -⟩ := fits.of_insert
  rw [none] at bound
  exact bound

end Mender.Diff
