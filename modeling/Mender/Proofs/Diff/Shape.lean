import Mathlib
import Mender.Proofs.Diff.Hunks

/-!
# The shape of hunks

No run of a script is empty (`solid_edits`), and compaction leaves none (`solid_compact`). So in the
changes that a script comes to, kept lines alternate with changed ones, and each of them has lines
(`neat_changes`). The same holds of every hunk (`neat_of_mem_hunks`), and two hunks have kept lines at the
ends where they face each other (`facing_hunks`).
-/

namespace Mender.Diff

variable {old new : Array Text} {o n l k : Nat} {e focus : Edit} {es above below : List Edit} {p : Pending}
  {c : Change} {cs cs' : List Change} {group h : Hunk}

/-! ## Runs that are not empty -/

/-- No run of a script is empty. -/
def Solid (es : List Edit) : Prop := ∀ e ∈ es, 0 < e.len

/-- The empty script has no empty run. -/
lemma solid_nil : Solid [] := nofun

/-- A script is solid when its first run has lines and the rest is solid. -/
lemma solid_cons : Solid (e :: es) ↔ 0 < e.len ∧ Solid es := List.forall_mem_cons

/-- Scripts put together are solid when both are. -/
lemma solid_append {es es' : List Edit} : Solid (es ++ es') ↔ Solid es ∧ Solid es' :=
  List.forall_mem_append

/-- Kept lines are left out if there are none. -/
lemma solid_keepIf (o n l : Nat) : Solid (keepIf o n l) := by
  unfold keepIf
  split
  · exact solid_nil
  · next pos => exact solid_cons.2 ⟨Nat.pos_of_ne_zero pos, solid_nil⟩

/-- The edits in a window are solid if those in smaller windows are. -/
lemma solid_innerEdits {w : Window} (parts : ∀ v : Window, v.oldSize + v.newSize < w.oldSize + w.newSize →
    Solid (editsIn old new v)) : Solid (innerEdits old new w) := by
  have delete : w.oldStart < w.oldStop → 0 < (Edit.delete w.oldStart w.newStart w.oldSize).len :=
    Nat.sub_pos_of_lt
  have insert : ∀ o, w.newStart < w.newStop → 0 < (Edit.insert o w.newStart w.newSize).len :=
    fun _ => Nat.sub_pos_of_lt
  unfold innerEdits
  split
  · exact solid_nil
  split
  · next some none =>
    exact solid_cons.2 ⟨delete (Nat.lt_of_not_le fun le => some ⟨le, none⟩), solid_nil⟩
  split
  · next full none => exact solid_cons.2 ⟨insert _ (Nat.lt_of_not_le full), solid_nil⟩
  · next full full' =>
    have whole : Solid (replaceAll w) := solid_cons.2 ⟨delete (Nat.lt_of_not_le full'),
      solid_cons.2 ⟨insert _ (Nat.lt_of_not_le full), solid_nil⟩⟩
    split
    · exact whole
    · next x y _ =>
      split
      · next inside =>
        refine solid_append.2 ⟨parts ⟨w.oldStart, x, w.newStart, y⟩ ?_,
          parts ⟨x, w.oldStop, y, w.newStop⟩ ?_⟩
        all_goals
          dsimp only [Window.oldSize, Window.newSize]
          omega
      · exact whole

/-- The edits in a window are solid. -/
lemma solid_editsIn (w : Window) : Solid (editsIn old new w) := by
  -- induction on how many lines the window has, since it is split anywhere between its ends
  induction size : w.oldSize + w.newSize using Nat.strongRecOn generalizing w with
  | ind size ih =>
    subst size
    obtain ⟨front, _, back, -, front_le, -, -, eq⟩ := editsIn_eq old new w
    dsimp only [Window.oldSize, Window.newSize] at front_le
    rw [eq]
    refine solid_append.2 ⟨solid_append.2 ⟨solid_keepIf _ _ _, ?_⟩, solid_keepIf _ _ _⟩
    refine solid_innerEdits fun v smaller => ih _ ?_ v rfl
    dsimp only [Window.oldSize, Window.newSize] at smaller ⊢
    omega

/-- The script from one text to another is solid. -/
lemma solid_edits (old new : Array Text) : Solid (edits old new) := solid_editsIn _

/-- No run of an open script is empty. -/
structure Opened.Solid (s : Opened) : Prop where
  above : Diff.Solid s.above
  focus : 0 < s.focus.len
  below : Diff.Solid s.below

/-- Kept lines on top leave the runs below solid. -/
lemma solid_keepOnTop (solid : Solid below) (pos : 0 < l) : Solid (keepOnTop o n l below) := by
  unfold keepOnTop
  split
  · exact solid_cons.2 ⟨Nat.add_pos_right _ pos, (solid_cons.1 solid).2⟩
  · exact solid_cons.2 ⟨pos, solid⟩

/-- Kept lines behind leave the runs above solid. -/
lemma solid_keepBehind (solid : Solid above) (pos : 0 < l) : Solid (keepBehind o n l above) := by
  unfold keepBehind
  split
  · exact solid_cons.2 ⟨Nat.add_pos_right _ pos, (solid_cons.1 solid).2⟩
  · exact solid_cons.2 ⟨pos, solid⟩

/-- Moving a run up leaves an open script solid. -/
lemma solid_moveUp (solid : Solid above) (pos : 0 < focus.len) (solid' : Solid below) :
    (moveUp old new above focus below).Solid := by
  fun_induction moveUp old new above focus below with
  | case1 => exact ⟨solid, pos, solid'⟩
  | case2 o n above io i k below s none ih => exact ih (solid_cons.1 solid).2 pos solid'
  | case3 => exact ⟨solid, pos, solid'⟩
  | case4 o n l above io i k below s some below' all ih =>
    exact ih (solid_cons.1 solid).2 pos (solid_keepOnTop solid' (by omega))
  | case5 o n l above io i k below s some below' part ih =>
    have left : 0 < (Edit.keep o n (l - s)).len := by
      change 0 < l - s
      omega
    exact ih (solid_cons.2 ⟨left, (solid_cons.1 solid).2⟩) pos (solid_keepOnTop solid' (by omega))
  | case6 o n above focus below other ih => exact ih (solid_cons.1 solid).2 pos solid'
  | case7 => exact ⟨solid, pos, solid'⟩
  | case8 o n l above o' n' k below ih =>
    exact ih (solid_cons.1 solid).2 (Nat.add_pos_right l pos) solid'
  | case9 o n l above o' n' k below ih =>
    exact ih (solid_cons.1 solid).2 (Nat.add_pos_right l pos) solid'
  | case10 e above focus below kept keeps deletes insertions ih =>
    exact ih (solid_cons.1 solid).2 pos (solid_cons.2 ⟨(solid_cons.1 solid).1, solid'⟩)

/-- Moving a run down leaves an open script solid. -/
lemma solid_moveDown (solid : Solid above) (pos : 0 < focus.len) (solid' : Solid below) :
    (moveDown old new above focus below).Solid := by
  fun_induction moveDown old new above focus below with
  | case1 => exact ⟨solid, pos, solid'⟩
  | case2 above io i k o n below p none ih => exact ih solid pos (solid_cons.1 solid').2
  | case3 => exact ⟨solid, pos, solid'⟩
  | case4 above io i k o n l below p some above' all ih =>
    exact ih (solid_keepBehind solid (by omega)) pos (solid_cons.1 solid').2
  | case5 above io i k o n l below p some above' part ih =>
    have left : 0 < (Edit.keep (o + p) (n + p) (l - p)).len := by
      change 0 < l - p
      omega
    exact ih (solid_keepBehind solid (by omega)) pos (solid_cons.2 ⟨left, (solid_cons.1 solid').2⟩)
  | case6 above focus o n below other ih => exact ih solid pos (solid_cons.1 solid').2
  | case7 => exact ⟨solid, pos, solid'⟩
  | case8 above o n l o' n' k below ih =>
    exact ih solid (Nat.add_pos_left pos k) (solid_cons.1 solid').2
  | case9 above o n l o' n' k below ih =>
    exact ih solid (Nat.add_pos_left pos k) (solid_cons.1 solid').2
  | case10 above focus e below kept keeps deletes insertions ih =>
    exact ih (solid_cons.2 ⟨(solid_cons.1 solid').1, solid⟩) pos (solid_cons.1 solid').2

/-- Moving runs leaves a script solid. -/
lemma solid_moveAll (chosen : Edit → Bool) (steps : Nat) (solid : Solid above) (solid' : Solid below) :
    Solid (moveAll old new chosen steps above below) := by
  have reversed : ∀ {above : List Edit}, Solid above → Solid above.reverse :=
    fun solid e mem => solid e (List.mem_reverse.1 mem)
  fun_induction moveAll old new chosen steps above below with
  | case1 above below => exact solid_append.2 ⟨reversed solid, solid'⟩
  | case2 steps above _ => exact reversed solid
  | case3 steps above focus below chosen up down ih =>
    obtain ⟨pos, solid'⟩ := solid_cons.1 solid'
    have moved : up.Solid := solid_moveUp solid pos solid'
    have settled : down.Solid := solid_moveDown moved.above moved.focus moved.below
    exact ih (solid_cons.2 ⟨settled.focus, settled.above⟩) settled.below
  | case4 steps above focus below _ ih =>
    obtain ⟨pos, solid'⟩ := solid_cons.1 solid'
    exact ih (solid_cons.2 ⟨pos, solid⟩) solid'

/-- Compaction leaves no empty run. -/
lemma solid_compact (solid : Solid es) : Solid (compact old new es) :=
  solid_moveAll _ _ solid_nil (solid_moveAll _ _ solid_nil solid)

/-! ## Changes that alternate -/

namespace Change

/-- Whether a change keeps lines. -/
def isKeep : Change → Bool
  | .keep _ _ _ => true
  | _ => false

/-- A change has lines on each side that it is about. -/
def Solid : Change → Prop
  | .keep _ _ l => 0 < l
  | .delete _ _ l => 0 < l
  | .insert _ _ l => 0 < l
  | .replace _ l _ k => 0 < l ∧ 0 < k

end Change

/-- Every change has lines, and changes that keep lines alternate with those that do not. -/
structure Neat (cs : List Change) : Prop where
  solid : ∀ c ∈ cs, c.Solid
  alternate : (cs.map Change.isKeep).IsChain (· ≠ ·)

namespace Neat

/-- No changes are neat. -/
lemma nil : Neat [] := ⟨nofun, .nil⟩

/-- Neat changes stay neat behind a change with lines that is of the other kind than the first of them. -/
lemma cons (neat : Neat cs) (solid : c.Solid) (apart : ∀ c' ∈ cs.head?, c.isKeep ≠ c'.isKeep) :
    Neat (c :: cs) := by
  refine ⟨List.forall_mem_cons.2 ⟨solid, neat.solid⟩, List.isChain_cons.2 ⟨fun b first => ?_, neat.alternate⟩⟩
  rw [List.head?_map] at first
  obtain ⟨c', head, rfl⟩ := Option.map_eq_some_iff.1 first
  exact apart c' head

/-- The front of neat changes is neat. -/
lemma left (neat : Neat (cs ++ cs')) : Neat cs := by
  obtain ⟨solid, alternate⟩ := neat
  rw [List.map_append] at alternate
  exact ⟨fun c mem => solid c (List.mem_append_left _ mem), alternate.left_of_append⟩

/-- What is behind the front of neat changes is neat. -/
lemma right (neat : Neat (cs ++ cs')) : Neat cs' := by
  obtain ⟨solid, alternate⟩ := neat
  rw [List.map_append] at alternate
  exact ⟨fun c mem => solid c (List.mem_append_right _ mem), alternate.right_of_append⟩

/-- How many lines are kept at a place, and where, makes no difference if there are any. -/
lemma resize {o' n' : Nat} (neat : Neat (cs ++ .keep o n l :: cs')) (pos : 0 < k) :
    Neat (cs ++ .keep o' n' k :: cs') := by
  refine ⟨List.forall_mem_append.2 ⟨neat.left.solid, List.forall_mem_cons.2 ⟨pos, ?_⟩⟩, ?_⟩
  · exact fun c mem => neat.right.solid c (List.mem_cons_of_mem _ mem)
  · have alternate := neat.alternate
    rw [List.map_append] at alternate ⊢
    exact alternate

/-- Of two neighbours one keeps lines. -/
lemma resize_head {o' n' : Nat} (neat : Neat (.keep o n l :: cs)) (pos : 0 < k) :
    Neat (.keep o' n' k :: cs) := by
  have whole : Neat ([] ++ .keep o n l :: cs) := neat
  exact whole.resize pos

/-- Neighbours among neat changes are of different kinds. -/
lemma of_cons_cons {c' : Change} (neat : Neat (c :: c' :: cs)) : c.isKeep ≠ c'.isKeep :=
  (List.isChain_cons_cons.1 neat.alternate).1

end Neat

/-- A change that is no kept run keeps nothing. -/
lemma isKeep_of_ne (other : ∀ o n l, c ≠ .keep o n l) : c.isKeep = false := by
  cases c with
  | keep o n l => exact absurd rfl (other o n l)
  | _ => rfl

/-- Kept lines in front leave changes neat. -/
lemma neat_consKeep (neat : Neat cs) (pos : 0 < l) : Neat (consKeep o n l cs) := by
  unfold consKeep
  split
  · next o' n' k cs => exact neat.resize_head (Nat.add_pos_left pos k)
  · next other =>
    refine neat.cons pos fun c first => ?_
    obtain ⟨cs, rfl⟩ := List.head?_eq_some_iff.1 first
    rw [isKeep_of_ne fun o n l eq => other o n l cs (congrArg (· :: cs) eq)]
    nofun

/-- Pending runs are not empty. -/
structure Pending.Solid (p : Pending) : Prop where
  deletion : ∀ run ∈ p.deletion, 0 < run.2.2
  insertion : ∀ run ∈ p.insertion, 0 < run.2.2

/-- A run that was extended by lines has lines. -/
lemma Pending.pos_extend {run : Option (Nat × Nat × Nat)} (pos : 0 < l) :
    ∀ run' ∈ extend o n l run, 0 < run'.2.2 := by
  rintro run' mem
  cases run with
  | none =>
    cases mem
    exact pos
  | some run =>
    cases mem
    exact Nat.add_pos_right _ pos

/-- Pending runs come to at most one change, and no line is kept in it. -/
lemma Pending.Solid.change_append (solid : p.Solid) (neat : Neat cs)
    (kept : ∀ c ∈ cs.head?, c.isKeep = true) : Neat (p.change ++ cs) := by
  have one : ∀ {c : Change}, c.Solid → c.isKeep = false → Neat (c :: cs) := by
    intro c some none
    refine neat.cons some fun c' first => ?_
    rw [none, kept c' first]
    nofun
  obtain ⟨_ | ⟨o, n, l⟩, _ | ⟨o', n', k⟩⟩ := p
  · exact neat
  · exact one (solid.insertion _ rfl) rfl
  · exact one (solid.deletion _ rfl) rfl
  · exact one ⟨solid.deletion _ rfl, solid.insertion _ rfl⟩ rfl

/-- Behind kept lines in front of them, changes begin with a kept run. -/
lemma kept_consKeep : ∀ c ∈ (consKeep o n l cs).head?, c.isKeep = true := by
  intro c first
  unfold consKeep at first
  split at first
  all_goals
    cases first
    rfl

/-- The changes that a solid script comes to are neat. -/
lemma neat_changesFrom (solid : Solid es) (pending : p.Solid) : Neat (changesFrom p es) := by
  induction es generalizing p with
  | nil =>
    have neat := pending.change_append .nil nofun
    rw [List.append_nil] at neat
    exact neat
  | cons e es ih =>
    obtain ⟨pos, rest⟩ := solid_cons.1 solid
    cases e with
    | keep o n l => exact pending.change_append (neat_consKeep (ih rest ⟨nofun, nofun⟩) pos) kept_consKeep
    | delete o n l => exact ih rest ⟨Pending.pos_extend pos, pending.insertion⟩
    | insert o n l => exact ih rest ⟨pending.deletion, Pending.pos_extend pos⟩

/-- Between two lists of lines, kept lines alternate with changed ones. -/
lemma neat_changes (old new : Array Text) : Neat (changes old new) :=
  neat_changesFrom (solid_compact (solid_edits old new)) ⟨nofun, nofun⟩

/-! ## Hunks -/

/-- Neat changes stay neat when the context in front is cut. -/
lemma neat_trimFront (neat : Neat cs) : Neat (trimFront cs) := by
  unfold trimFront
  split
  · next o n l cs =>
    have pos : 0 < l := neat.solid _ List.mem_cons_self
    exact neat.resize_head (Nat.lt_min.2 ⟨pos, by decide⟩)
  · exact neat

/-- Neat changes stay neat when the context behind is cut. -/
lemma neat_trimBack (neat : Neat cs) : Neat (trimBack cs) := by
  unfold trimBack
  split
  · next o n l last =>
    have pos : 0 < l := neat.solid _ (List.mem_of_getLast? last)
    rw [← List.dropLast_append_getLast? _ last] at neat
    exact neat.resize (Nat.lt_min.2 ⟨pos, by decide⟩)
  · exact neat

/-- Changes behind a hunk that was begun are grouped into hunks of the same shape. -/
lemma neat_hunksFrom (neat : Neat (group ++ cs)) : ∀ h ∈ hunksFrom group cs, h ≠ [] ∧ Neat h := by
  fun_induction hunksFrom group cs with
  | case1 => exact List.forall_mem_nil _
  | case2 o n l => exact List.forall_mem_nil _
  | case3 group some other =>
    intro h mem
    obtain rfl := List.mem_singleton.1 mem
    rw [List.append_nil] at neat
    exact ⟨some, neat⟩
  | case4 group o n l cs long ih =>
    have front : Neat (group ++ [.keep o n context]) := by
      have whole : Neat (group ++ .keep o n context :: cs) := neat.resize (by decide)
      rw [List.append_cons] at whole
      exact whole.left
    have rest : Neat ([.keep (o + (l - context)) (n + (l - context)) context] ++ cs) :=
      neat.right.resize_head (by decide)
    exact List.forall_mem_cons.2
      ⟨⟨List.append_ne_nil_of_right_ne_nil _ (List.cons_ne_nil _ _), front⟩, ih rest⟩
  | case5 group o n l cs short ih =>
    rw [← List.append_cons] at ih
    exact ih neat
  | case6 group c cs other ih =>
    rw [← List.append_cons] at ih
    exact ih neat

/-- In every hunk kept lines alternate with changed ones. -/
lemma neat_of_mem_hunks (neat : Neat cs) : ∀ h ∈ hunks cs, h ≠ [] ∧ Neat h := by
  have trimmed : Neat ([] ++ trimBack (trimFront cs)) := neat_trimBack (neat_trimFront neat)
  exact neat_hunksFrom trimmed

/-- The first of the hunks begins as the hunk that was begun. -/
lemma head?_hunksFrom (some : group ≠ []) : ∀ h ∈ (hunksFrom group cs).head?, h.head? = group.head? := by
  fun_induction hunksFrom group cs with
  | case1 => exact absurd rfl some
  | case2 o n l =>
    intro h first
    cases first
  | case3 group _ _ =>
    intro h first
    cases first
    rfl
  | case4 group o n l cs long ih =>
    intro h first
    cases first
    exact List.head?_append_of_ne_nil _ some
  | case5 group o n l cs short ih =>
    rw [List.head?_append_of_ne_nil _ some] at ih
    exact ih (List.append_ne_nil_of_left_ne_nil some _)
  | case6 group c cs other ih =>
    rw [List.head?_append_of_ne_nil _ some] at ih
    exact ih (List.append_ne_nil_of_left_ne_nil some _)

/-- Two hunks face each other with kept lines. -/
def Facing (g h : Hunk) : Prop :=
  (∃ o n l, g.getLast? = some (.keep o n l)) ∧ ∃ o n l, h.head? = some (.keep o n l)

/-- Hunks that are cut off one after another face each other with kept lines. -/
lemma facing_hunksFrom (group : Hunk) (cs : List Change) : (hunksFrom group cs).IsChain Facing := by
  fun_induction hunksFrom group cs with
  | case1 => exact .nil
  | case2 o n l => exact .nil
  | case3 group _ _ => exact List.isChain_singleton _
  | case4 group o n l cs long ih =>
    refine List.isChain_cons.2 ⟨fun h first => ⟨⟨o, n, context, List.getLast?_concat⟩, ?_⟩, ih⟩
    exact ⟨_, _, _, head?_hunksFrom (List.cons_ne_nil _ _) h first⟩
  | case5 group o n l cs short ih => exact ih
  | case6 group c cs other ih => exact ih

/-- Hunks face each other with kept lines. -/
lemma facing_hunks (cs : List Change) : (hunks cs).IsChain Facing := facing_hunksFrom _ _

end Mender.Diff
