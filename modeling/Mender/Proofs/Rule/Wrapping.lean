import Mender.Proofs.Rule.Compilation

/-!
# Wrapped statements

A statement is exposed when no conditional above it is in its debug branch (`Exposed`). Guarding cuts a text
into pieces of one line each and wraps the exposed ones (`pieces`). A wrapped piece leaves the open
conditionals as its line alone does (`openBelow_written`), so both passes over a text see the same
conditionals at the same line, and nothing is exposed in what a pass leaves (`wraps_exposed`).
-/

namespace Mender.Rule.DebugGuard

open Text

variable {s : Statement} {line : Text} {ls : List Text} {stack : Branches}

/-! ## Exposed statements -/

/-- The open conditionals below lines that stand below the given ones. -/
def openBelow (stack : Branches) (ls : List Text) : Branches := ls.foldl Branches.after stack

/-- The line at an index is a statement that is outside of every debug branch. -/
def Exposed (stack : Branches) (ls : List Text) (i : Nat) : Prop :=
  ∃ line ∈ ls[i]?, IsStatement line ∧ (openBelow stack (ls.take i)).anyDebug = false

instance (stack : Branches) (ls : List Text) : DecidablePred (Exposed stack ls) := fun i =>
  inferInstanceAs (Decidable (∃ line ∈ ls[i]?, IsStatement line ∧
    (openBelow stack (ls.take i)).anyDebug = false))

/-- How many statements are exposed. -/
def exposures (stack : Branches) (ls : List Text) : Nat :=
  (List.range ls.length).countP (Exposed stack ls ·)

/-- The first line is exposed when it is a statement outside of debug branches. -/
lemma exposed_zero :
    Exposed stack (line :: ls) 0 ↔ IsStatement line ∧ stack.anyDebug = false := by
  simp [Exposed, openBelow]

/-- A later line is exposed when it is so below the first one. -/
lemma exposed_succ (i : Nat) :
    Exposed stack (line :: ls) (i + 1) ↔ Exposed (stack.after line) ls i := Iff.rfl

/-- The exposed lines are the first one, if it is exposed, and those below it. -/
lemma exposures_cons : exposures stack (line :: ls) =
    (if IsStatement line ∧ stack.anyDebug = false then 1 else 0) +
      exposures (stack.after line) ls := by
  rw [exposures, List.length_cons, List.range_succ_eq_map, List.countP_cons, List.countP_map,
    Nat.add_comm]
  simp only [decide_eq_true_eq, exposed_zero]
  rfl

/-! ## Pieces -/

/-- A line of a text and the statement on it, if the line is to be wrapped. -/
structure Piece where
  line : Text
  wrapped : Option Statement

namespace Piece

/-- The lines that become of a piece: its own, or its own between two directive lines. -/
def written (p : Piece) : List Text :=
  match p.wrapped with
  | none => [p.line]
  | some s => [s.opening, p.line, s.closing]

/-- The indentation and the carriage return that are kept for a wrapped line are its own. -/
def Fits (p : Piece) : Prop := ∀ s ∈ p.wrapped, s.Tidy ∧
  ∃ args, p.line = s.indent ++ ("Console.WriteLine(".toList ++ (args ++ (");".toList ++ s.carriage)))

end Piece

/-- The pieces of the lines that stand below the given open conditionals. -/
def pieces : Branches → List Text → List Piece
  | _, [] => []
  | stack, line :: below =>
    ⟨line, if stack.anyDebug then none else statement? line⟩ :: pieces (stack.after line) below

/-- The pieces of a text have its lines. -/
lemma map_line_pieces (stack : Branches) (ls : List Text) : (pieces stack ls).map (·.line) = ls := by
  induction ls generalizing stack with
  | nil => rfl
  | cons line ls ih => exact congrArg (line :: ·) (ih _)

/-- Every piece fits the statement in it. -/
lemma fits_pieces (stack : Branches) (ls : List Text) : ∀ p ∈ pieces stack ls, p.Fits := by
  induction ls generalizing stack with
  | nil => exact List.forall_mem_nil _
  | cons line ls ih =>
    refine List.forall_mem_cons.2 ⟨fun s mem => ?_, ih _⟩
    obtain ⟨-, st⟩ := Option.ite_none_left_eq_some.1 mem
    exact statement?_eq_some st

/-- A piece is wrapped just when its line is an exposed statement. -/
lemma isSome_pieces_iff {i : Nat} {p : Piece} (at_i : (pieces stack ls)[i]? = some p) :
    p.wrapped.isSome = true ↔ Exposed stack ls i := by
  induction ls generalizing stack i with
  | nil => cases at_i
  | cons line ls ih =>
    cases i with
    | zero =>
      obtain rfl := Option.some.inj at_i
      rw [exposed_zero, isStatement_iff, ← Option.isSome_iff_exists]
      cases stack.anyDebug with
      | true => simp
      | false => exact (and_iff_left rfl).symm
    | succ i =>
      rw [exposed_succ]
      exact ih at_i

/-- A statement outside of debug branches counts as wrapped. -/
lemma wrapped_wrap (st : statement? line = some s) (debug : stack.anyDebug = false) (ls : List Text) :
    (guardLines stack (line :: ls)).wrapped = (guardLines stack ls).wrapped + 1 := by
  simp [guardLines, st, debug]

/-- Guarding writes the pieces of the lines, and counts the exposed statements. -/
lemma guardLines_eq (stack : Branches) (ls : List Text) :
    (guardLines stack ls).lines = (pieces stack ls).flatMap Piece.written ∧
      (guardLines stack ls).wrapped = exposures stack ls := by
  induction ls generalizing stack with
  | nil => exact ⟨rfl, rfl⟩
  | cons line ls ih =>
    obtain ⟨lines, wrapped⟩ := ih (stack.after line)
    rw [pieces, List.flatMap_cons, exposures_cons, ← lines, ← wrapped]
    cases st : statement? line with
    | none =>
      rw [(guardLines_none st ls).1, (guardLines_none st ls).2, ite_self]
      exact ⟨rfl, by simp [isStatement_iff, st]⟩
    | some s =>
      rw [after_statement st]
      cases debug : stack.anyDebug with
      | true =>
        rw [(guardLines_debug st debug ls).1, (guardLines_debug st debug ls).2]
        exact ⟨rfl, by simp⟩
      | false =>
        rw [guardLines_wrap st debug ls, wrapped_wrap st debug ls]
        exact ⟨rfl, by simp [isStatement_iff, st, Nat.add_comm]⟩

/-! ## Open conditionals -/

/-- What is open below two parts is open below the second one, under the first one. -/
lemma openBelow_append (stack : Branches) (ls ls' : List Text) :
    openBelow stack (ls ++ ls') = openBelow (openBelow stack ls) ls' :=
  List.foldl_append

/-- A piece leaves the open conditionals as its line alone does, wrapped or not. -/
lemma openBelow_written (stack : Branches) (line : Text) :
    openBelow stack (Piece.mk line (if stack.anyDebug then none else statement? line)).written =
      stack.after line := by
  split
  · rfl
  · cases st : statement? line with
    | none => rfl
    | some s =>
      have tidy := (statement?_eq_some st).1
      change ((stack.after s.opening).after line).after s.closing = stack.after line
      rw [after_opening tidy, after_statement st, after_closing tidy, after_statement st]
      rfl

/-- Guarding lines leaves the same conditionals open below them. -/
lemma openBelow_guardLines (stack : Branches) (ls : List Text) :
    openBelow stack (guardLines stack ls).lines = openBelow stack ls := by
  rw [(guardLines_eq stack ls).1]
  induction ls generalizing stack with
  | nil => rfl
  | cons line ls ih =>
    rw [pieces, List.flatMap_cons, openBelow_append, openBelow_written]
    exact ih _

/-- No statement is exposed in guarded lines. -/
lemma not_exposed_guardLines (stack : Branches) (ls : List Text) (i : Nat) :
    ¬ Exposed stack (guardLines stack ls).lines i := by
  intro exposed
  have idle := wrapped_guardLines stack ls
  rw [(guardLines_eq stack _).2, exposures, List.countP_eq_zero] at idle
  have bound : i < (guardLines stack ls).lines.length := by
    obtain ⟨line, at_i, -⟩ := exposed
    exact (List.getElem?_eq_some_iff.1 at_i).1
  exact idle i (List.mem_range.2 bound) (decide_eq_true exposed)

/-- Guarding adds two lines for every statement that it wraps. -/
lemma length_guardLines (stack : Branches) (ls : List Text) :
    (guardLines stack ls).lines.length = ls.length + 2 * (guardLines stack ls).wrapped := by
  induction ls generalizing stack with
  | nil => rfl
  | cons line ls ih =>
    cases st : statement? line with
    | none =>
      rw [(guardLines_none st ls).1, (guardLines_none st ls).2, List.length_cons, ih, List.length_cons]
      omega
    | some s =>
      cases debug : stack.anyDebug with
      | true =>
        rw [(guardLines_debug st debug ls).1, (guardLines_debug st debug ls).2, List.length_cons, ih,
          List.length_cons]
        omega
      | false =>
        rw [guardLines_wrap st debug ls, wrapped_wrap st debug ls, List.length_cons, List.length_cons,
          List.length_cons, ih, List.length_cons]
        omega

/-! ## The rule -/

/-- The lines of a guarded text are the guarded lines. -/
lemma lines_textAfter (t : Text) : lines ((apply t).textAfter t) = (guardLines [] (lines t)).lines := by
  rw [textAfter_apply]
  exact lines_unlines_guardLines (lines_ne_nil t) fun _ => newline_notMem_lines

/-- The guard rule hits as often as it wraps. -/
lemma hits_apply (t : Text) : (apply t).hits = (guardLines [] (lines t)).wrapped := by
  unfold apply
  split
  · dsimp only
    split
    · next idle => exact idle.symm
    · rfl
  · next quiet => exact (wrapped_of_not_occurs quiet).symm

/-- The rule wraps every exposed statement once and nothing else. It hits as often as the text has exposed
statements, and adds two lines for each of them. The lines of the result are those of the text, in order,
each exposed statement between two directive lines that have its own indentation and carriage return; so
without these lines it is the text again. The same conditionals are open below both. No statement of the
result is exposed, and the rule leaves the result as it is. -/
theorem wraps_exposed (t : Text) :
    (apply t).hits = exposures [] (lines t) ∧
    (lines ((apply t).textAfter t)).length = (lines t).length + 2 * (apply t).hits ∧
    (∃ ps : List Piece, lines ((apply t).textAfter t) = ps.flatMap Piece.written ∧
      unlines (ps.map (·.line)) = t ∧ ps.map (·.line) = lines t ∧
      ∀ i, ∀ p ∈ ps[i]?, p.Fits ∧ (p.wrapped.isSome = true ↔ Exposed [] (lines t) i)) ∧
    openBelow [] (lines ((apply t).textAfter t)) = openBelow [] (lines t) ∧
    (∀ i, ¬ Exposed [] (lines ((apply t).textAfter t)) i) ∧
    (apply ((apply t).textAfter t)).hits = 0 ∧
    (apply ((apply t).textAfter t)).textAfter ((apply t).textAfter t) = (apply t).textAfter t := by
  obtain ⟨reason, again⟩ := abstains_apply t
  rw [again, lines_textAfter, hits_apply, length_guardLines]
  obtain ⟨written, wrapped⟩ := guardLines_eq [] (lines t)
  refine ⟨wrapped, rfl, ⟨pieces [] (lines t), written, ?_, map_line_pieces _ _, fun i p at_i => ?_⟩,
    openBelow_guardLines _ _, not_exposed_guardLines _ _, rfl, rfl⟩
  · rw [map_line_pieces, unlines_lines]
  · exact ⟨fits_pieces _ _ p (List.mem_of_getElem? at_i), isSome_pieces_iff at_i⟩

end Mender.Rule.DebugGuard
