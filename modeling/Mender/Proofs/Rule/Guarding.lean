import Mender.Proofs.Rule.Padding

/-!
# Guarded texts

Guarding pads a text with directive lines (`pads_apply`). The directive lines above and below a
statement put it into a debug branch and out of it again, so guarding what is guarded wraps nothing
(`wrapped_guardLines`), and the rule abstains on what it has left (`abstains_apply`).
-/

namespace Mender.Rule.DebugGuard

open Text

variable {s : Statement} {line : Text} {ls : List Text} {stack : Branches}

/-! ## Lines -/

/-- All lines but the first one, each with the newline before it. -/
def below (ls : List Text) : Text := ls.flatMap ('\n' :: ·)

/-- Joined lines are the first one and the others below it. -/
lemma unlines_cons (l : Text) (ls : List Text) : unlines (l :: ls) = l ++ below ls := by
  induction ls generalizing l with
  | nil => simp [unlines, List.intercalate, below]
  | cons k ls ih =>
    have eq := ih k
    simp only [unlines, List.intercalate, below, List.intersperse, List.flatten_cons,
      List.flatMap_cons] at eq ⊢
    rw [eq]
    rfl

/-- The lines below another one begin with a newline. -/
lemma below_of_ne_nil (ne : ls ≠ []) : below ls = '\n' :: unlines ls := by
  obtain ⟨l, ls, rfl⟩ := List.exists_cons_of_ne_nil ne
  rw [unlines_cons]
  rfl

/-- No line of a text holds a newline. -/
lemma newline_notMem_lines {t : Text} (mem : line ∈ lines t) : '\n' ∉ line := by
  induction t generalizing line with
  | nil =>
    rw [List.mem_singleton.1 mem]
    exact List.not_mem_nil
  | cons c t ih =>
    rw [lines] at mem
    split at mem
    · rcases List.mem_cons.1 mem with rfl | mem
      · exact List.not_mem_nil
      · exact ih mem
    · next nl =>
      cases eq : lines t with
      | nil => exact absurd eq (lines_ne_nil t)
      | cons l ls =>
        rw [eq] at mem ih
        rcases List.mem_cons.1 mem with rfl | mem
        · rw [List.mem_cons, not_or]
          exact ⟨Ne.symm nl, ih List.mem_cons_self⟩
        · exact ih (List.mem_cons_of_mem _ mem)

/-- What stands before the first newline of a text is its first line. -/
lemma lines_append {l t : Text} (nl : '\n' ∉ l) :
    lines (l ++ '\n' :: t) = l :: lines t := by
  induction l with
  | nil => rfl
  | cons c l ih =>
    obtain ⟨ne, nl⟩ := not_or.1 (mt List.mem_cons.2 nl)
    rw [List.cons_append, lines, if_neg (Ne.symm ne), ih nl]

/-- A text without newline is its only line. -/
lemma lines_of_notMem {l : Text} (nl : '\n' ∉ l) : lines l = [l] := by
  induction l with
  | nil => rfl
  | cons c l ih =>
    obtain ⟨ne, nl⟩ := not_or.1 (mt List.mem_cons.2 nl)
    rw [lines, if_neg (Ne.symm ne), ih nl]

/-- Joined lines are the lines of the text, if none of them holds a newline. -/
lemma lines_unlines (ne : ls ≠ []) (nl : ∀ l ∈ ls, '\n' ∉ l) : lines (unlines ls) = ls := by
  induction ls with
  | nil => exact absurd rfl ne
  | cons l ls ih =>
    have nl_l := nl l List.mem_cons_self
    cases ls with
    | nil =>
      rw [unlines_cons, below, List.flatMap_nil, List.append_nil]
      exact lines_of_notMem nl_l
    | cons k ls =>
      have eq : unlines (l :: k :: ls) = l ++ '\n' :: unlines (k :: ls) := by
        rw [unlines_cons, unlines_cons]
        rfl
      rw [eq, lines_append nl_l, ih (by simp) fun l mem => nl l (List.mem_cons_of_mem _ mem)]

/-! ## Directive lines -/

/-- What a tidy statement has at its end is blank. -/
lemma Statement.Tidy.isBlank_carriage (tidy : s.Tidy) : ∀ c ∈ s.carriage, isBlank c = true := by
  intro c mem
  rcases tidy.carriage with cr | cr
  · rw [cr] at mem
    cases mem
  · rw [cr, List.mem_singleton] at mem
    subst mem
    decide

/-- A text between the ends of a statement is what is left when these are trimmed. -/
lemma trim_directive {c d : Char} {x : Text} (tidy : s.Tidy) (first : x.head? = some c)
    (last : x.getLast? = some d) (solid : isBlank c = false) (solid' : isBlank d = false) :
    trim (s.indent ++ x ++ s.carriage) = x := by
  have front : trimStart (s.indent ++ x ++ s.carriage) = x ++ s.carriage := by
    rw [List.append_assoc, Pads.trimStart_append_of_blank tidy.indent]
    obtain ⟨y, rfl⟩ : ∃ y, x = c :: y := List.head?_eq_some_iff.1 first
    exact List.dropWhile_cons_of_neg (by simp [solid])
  have back : trimEnd (x ++ s.carriage) = x := by
    rw [trimEnd, List.reverse_append, List.dropWhile_append_of_pos
      fun c mem => tidy.isBlank_carriage c (List.mem_reverse.1 mem)]
    obtain ⟨y, rfl⟩ : ∃ y, x = y ++ [d] := List.getLast?_eq_some_iff.1 last
    rw [List.reverse_concat, List.dropWhile_cons_of_neg (by simp [solid']), ← List.reverse_concat,
      List.reverse_reverse]
  rw [trim, front, back]

/-- A directive between the ends of a statement is no statement itself. -/
lemma statement?_directive {x : Text} (tidy : s.Tidy) (first : x.head? = some '#') :
    statement? (s.indent ++ x ++ s.carriage) = none := by
  obtain ⟨y, rfl⟩ : ∃ y, x = '#' :: y := List.head?_eq_some_iff.1 first
  have front : trimStart (s.indent ++ '#' :: y ++ s.carriage) = '#' :: (y ++ s.carriage) := by
    rw [List.append_assoc, Pads.trimStart_append_of_blank tidy.indent]
    rfl
  unfold trimStart at front
  rw [statement?, front]
  rfl

/-- The line above a guarded statement is no statement. -/
lemma statement?_opening (tidy : s.Tidy) : statement? s.opening = none :=
  statement?_directive tidy rfl

/-- The line below a guarded statement is no statement. -/
lemma statement?_closing (tidy : s.Tidy) : statement? s.closing = none :=
  statement?_directive tidy rfl

/-- The line above a guarded statement opens a debug branch. -/
lemma after_opening (tidy : s.Tidy) : stack.after s.opening = true :: stack := by
  have eq : trim s.opening = "#if DEBUG".toList := trim_directive tidy rfl rfl rfl rfl
  have opens : directive? s.opening = some (.opens true) := by
    rw [directive?, eq]
    decide
  rw [Branches.after, opens]
  rfl

/-- The line below a guarded statement closes the innermost branch. -/
lemma after_closing (tidy : s.Tidy) : stack.after s.closing = stack.tail := by
  have eq : trim s.closing = "#endif".toList := trim_directive tidy rfl rfl rfl rfl
  have closes : directive? s.closing = some .closes := by
    rw [directive?, eq]
    decide
  rw [Branches.after, closes]
  rfl

/-! ## Guarding -/

/-- A line that is no statement stays, and may open or close branches. -/
lemma guardLines_none (st : statement? line = none) (ls : List Text) :
    (guardLines stack (line :: ls)).lines = line :: (guardLines (stack.after line) ls).lines ∧
      (guardLines stack (line :: ls)).wrapped = (guardLines (stack.after line) ls).wrapped := by
  simp [guardLines, st]

/-- A statement in a debug branch stays. -/
lemma guardLines_debug (st : statement? line = some s) (debug : stack.anyDebug = true)
    (ls : List Text) :
    (guardLines stack (line :: ls)).lines = line :: (guardLines stack ls).lines ∧
      (guardLines stack (line :: ls)).wrapped = (guardLines stack ls).wrapped := by
  simp [guardLines, st, debug]

/-- A statement outside of debug branches gets its two directive lines. -/
lemma guardLines_wrap (st : statement? line = some s) (debug : stack.anyDebug = false)
    (ls : List Text) : (guardLines stack (line :: ls)).lines =
      s.opening :: line :: s.closing :: (guardLines stack ls).lines := by
  simp [guardLines, st, debug]

/-- Guarding what is guarded wraps nothing. -/
lemma wrapped_guardLines (stack : Branches) (ls : List Text) :
    (guardLines stack (guardLines stack ls).lines).wrapped = 0 := by
  induction ls generalizing stack with
  | nil => rfl
  | cons line ls ih =>
    cases st : statement? line with
    | none =>
      rw [(guardLines_none st ls).1, (guardLines_none st _).2]
      exact ih _
    | some s =>
      have tidy := (statement?_eq_some st).1
      cases debug : stack.anyDebug with
      | true =>
        rw [(guardLines_debug st debug ls).1, (guardLines_debug st debug _).2]
        exact ih _
      | false =>
        -- the directive lines bring the statement into a debug branch and the stack back
        rw [guardLines_wrap st debug ls, (guardLines_none (statement?_opening tidy) _).2,
          after_opening tidy, (guardLines_debug st rfl _).2,
          (guardLines_none (statement?_closing tidy) _).2, after_closing tidy]
        exact ih _

/-- Guarding does not lose all lines. -/
lemma guardLines_ne_nil (ne : ls ≠ []) : (guardLines stack ls).lines ≠ [] := by
  cases ls with
  | nil => exact absurd rfl ne
  | cons line ls =>
    rw [guardLines]
    split
    · exact List.cons_ne_nil _ _
    · dsimp only
      split <;> exact List.cons_ne_nil _ _

/-- Guarding writes no characters but those of the lines and of the two directives. -/
lemma notMem_guardLines {d : Char} (opens : d ∉ "#if DEBUG".toList) (closes : d ∉ "#endif".toList)
    (not : ∀ l ∈ ls, d ∉ l) : ∀ l ∈ (guardLines stack ls).lines, d ∉ l := by
  induction ls generalizing stack with
  | nil => exact nofun
  | cons line ls ih =>
    obtain ⟨not_line, not⟩ := List.forall_mem_cons.1 not
    cases st : statement? line with
    | none =>
      rw [(guardLines_none st ls).1, List.forall_mem_cons]
      exact ⟨not_line, ih not⟩
    | some s =>
      cases debug : stack.anyDebug with
      | true =>
        rw [(guardLines_debug st debug ls).1, List.forall_mem_cons]
        exact ⟨not_line, ih not⟩
      | false =>
        -- the ends of a directive line are those of the statement
        obtain ⟨-, x, eq⟩ := statement?_eq_some st
        have ends : d ∉ s.indent ∧ d ∉ s.carriage := by
          rw [eq] at not_line
          simp only [List.mem_append, List.mem_cons, not_or] at not_line
          exact ⟨not_line.1, not_line.2.2.2.2.2⟩
        have directive : ∀ y : Text, d ∉ y → d ∉ s.indent ++ y ++ s.carriage := by
          intro y not_y
          rw [List.mem_append, List.mem_append, not_or, not_or]
          exact ⟨⟨ends.1, not_y⟩, ends.2⟩
        rw [guardLines_wrap st debug ls, List.forall_mem_cons, List.forall_mem_cons,
          List.forall_mem_cons]
        exact ⟨directive _ opens, not_line, directive _ closes, ih not⟩

/-- A guarded text has the guarded lines, if the lines hold no newline. -/
lemma lines_unlines_guardLines (ne : ls ≠ []) (nl : ∀ l ∈ ls, '\n' ∉ l) :
    lines (unlines (guardLines stack ls).lines) = (guardLines stack ls).lines :=
  lines_unlines (guardLines_ne_nil ne) (notMem_guardLines (by decide) (by decide) nl)

/-! ## Guarding pads -/

namespace Pads

/-- The same text may stand in front of a padded one. -/
lemma append {t t' : Text} (x : Text) (pads : ∀ fresh, Pads (.outer fresh) t t') (fresh : Bool) :
    Pads (.outer fresh) (x ++ t) (x ++ t') := by
  induction x generalizing fresh with
  | nil => exact pads fresh
  | cons c x ih => exact .keep (ih _)

/-- A text is padded by nothing. -/
lemma refl (t : Text) : Pads (.outer true) t t := by
  have pads := append t (fun _ => nil) true
  rw [List.append_nil] at pads
  exact pads

/-- The rest of a statement line stays as it is when it is padded. -/
lemma solid_append {t t' x : Text} (nl : '\n' ∉ x) (pads : Pads (.inner s true) t t') :
    Pads (.inner s true) (x ++ t) (x ++ t') := by
  induction x with
  | nil => exact pads
  | cons c x ih =>
    obtain ⟨ne, nl⟩ := not_or.1 (mt List.mem_cons.2 nl)
    exact .solid (Ne.symm ne) (ih nl)

/-- A statement line can be put between its directive lines. -/
lemma wrap {t t' : Text} (st : statement? line = some s) (nl : '\n' ∉ line)
    (head : ∀ c ∈ t.head?, c = '\n') (pads : Pads (.outer false) t t') :
    Pads (.outer true) (line ++ t) (s.opening ++ '\n' :: (line ++ '\n' :: (s.closing ++ t'))) := by
  obtain ⟨tidy, x, eq⟩ := statement?_eq_some st
  obtain ⟨y, shape⟩ : ∃ y, line = y ++ ';' :: s.carriage :=
    ⟨s.indent ++ (DebugGuard.head ++ (x ++ [')'])), by simp [eq]⟩
  have nl_front : '\n' ∉ y := by
    intro mem
    rw [shape] at nl
    exact nl (List.mem_append_left _ mem)
  have close : Pads (.inner s false) (s.carriage ++ t)
      (s.carriage ++ '\n' :: (s.closing ++ t')) := by
    rcases tidy.carriage with cr | cr
    · rw [cr]
      exact .closing tidy head pads
    · rw [cr]
      exact .carriage (.closing tidy head pads)
  refine .opening tidy ?_ ?_
  · rw [eq, ← List.append_assoc s.indent, List.append_assoc]
    exact List.prefix_append _ _
  · have inner := solid_append nl_front (.semicolon close)
    rw [← List.cons_append, ← List.cons_append, ← List.append_assoc, ← List.append_assoc,
      ← shape] at inner
    exact inner

end Pads

/-- Lines below another one begin with a newline, if there are any. -/
lemma head?_below (ls : List Text) : ∀ c ∈ (below ls).head?, c = '\n' := by
  intro c mem
  cases ls with
  | nil => cases mem
  | cons l ls => exact (Option.some.inj mem).symm

/-- Guarding pads the first line, if it pads the lines below it. -/
lemma pads_cons (nl : '\n' ∉ line)
    (rest : ∀ stack fresh, Pads (.outer fresh) (below ls) (below (guardLines stack ls).lines)) :
    Pads (.outer true) (unlines (line :: ls)) (unlines (guardLines stack (line :: ls)).lines) := by
  rw [unlines_cons]
  cases st : statement? line with
  | none =>
    rw [(guardLines_none st ls).1, unlines_cons]
    exact .append line (rest _) true
  | some s =>
    cases debug : stack.anyDebug with
    | true =>
      rw [(guardLines_debug st debug ls).1, unlines_cons]
      exact .append line (rest _) true
    | false =>
      rw [guardLines_wrap st debug ls, unlines_cons]
      exact .wrap st nl (head?_below ls) (rest _ false)

/-- Guarding pads the lines below another one. -/
lemma pads_below (nl : ∀ l ∈ ls, '\n' ∉ l) (stack : Branches) (fresh : Bool) :
    Pads (.outer fresh) (below ls) (below (guardLines stack ls).lines) := by
  induction ls generalizing stack fresh with
  | nil => exact .nil
  | cons line ls ih =>
    rw [below_of_ne_nil (List.cons_ne_nil _ _),
      below_of_ne_nil (guardLines_ne_nil (List.cons_ne_nil _ _))]
    refine .keep (pads_cons (nl line List.mem_cons_self) ?_)
    exact ih fun l mem => nl l (List.mem_cons_of_mem _ mem)

/-- Guarding pads the lines of a text. -/
lemma pads_guardLines (stack : Branches) (ne : ls ≠ []) (nl : ∀ l ∈ ls, '\n' ∉ l) :
    Pads (.outer true) (unlines ls) (unlines (guardLines stack ls).lines) := by
  obtain ⟨line, ls, rfl⟩ := List.exists_cons_of_ne_nil ne
  refine pads_cons (nl line List.mem_cons_self) (pads_below ?_)
  exact fun l mem => nl l (List.mem_cons_of_mem _ mem)

/-! ## The rule -/

/-- The text that the rule leaves is the text that it was given, padded. -/
lemma pads_apply (t : Text) : Pads (.outer true) t ((apply t).textAfter t) := by
  unfold apply
  split
  · dsimp only
    split
    · exact .refl t
    · have pads := pads_guardLines [] (lines_ne_nil t) fun _ => newline_notMem_lines
      rw [unlines_lines] at pads
      exact pads
  · exact .refl t

/-- The rule abstains on the text that it leaves. -/
lemma abstains_apply (t : Text) : ∃ reason, apply ((apply t).textAfter t) = .abstained reason := by
  cases eq : apply t with
  | abstained reason => exact ⟨reason, eq⟩
  | edited u n =>
    have lines_u : lines u = (guardLines [] (lines t)).lines := by
      unfold apply at eq
      split at eq
      · dsimp only at eq
        split at eq
        · cases eq
        · obtain ⟨rfl, _⟩ := Outcome.edited.inj eq
          exact lines_unlines_guardLines (lines_ne_nil t) fun _ => newline_notMem_lines
      · cases eq
    have wrapped := wrapped_guardLines [] (lines t)
    rw [← lines_u] at wrapped
    rw [Outcome.textAfter, apply]
    split
    · dsimp only
      rw [if_pos wrapped]
      exact ⟨_, rfl⟩
    · exact ⟨_, rfl⟩

end Mender.Rule.DebugGuard
