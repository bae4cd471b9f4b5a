import Mender.Diff.Unified
import Mender.Proofs.Diff.Compaction

/-!
# Hunks that fit

Changes lead from one place to another (`Spans`) when each of them stands where the one before it ends.
The changes between two lists of lines lead from their front to their end (`spans_changes`), and so their
hunks fit (`fits_hunks`): between two hunks the lines agree, and a hunk begins where its heading says.
An insertion can be wrong about where it stands in the old lines, but the only one that a hunk can begin
with is at the front.
-/

namespace Mender.Diff

/-! ## Changes that follow one another -/

/-- A change turns the old lines between two places into the new lines between them. -/
inductive Covers (old new : Array Text) : (i j : Nat) → Change → (i' j' : Nat) → Prop where
  | keep {i j l} :
    Same old new i j l →
    Covers old new i j (.keep i j l) (i + l) (j + l)
  | delete {i j n l} :
    Covers old new i j (.delete i n l) (i + l) j
  | insert {i j o l} :
    Covers old new i j (.insert o j l) i (j + l)
  | replace {i j l k} :
    Covers old new i j (.replace i l j k) (i + l) (j + k)

/-- Changes turn the old lines between two places into the new lines between them. -/
inductive Spans (old new : Array Text) : (i j : Nat) → List Change → (i' j' : Nat) → Prop where
  | nil {i j} :
    Spans old new i j [] i j
  | cons {i j m n i' j' c cs} :
    Covers old new i j c m n →
    Spans old new m n cs i' j' →
    Spans old new i j (c :: cs) i' j'

/-- Hunks turn the old lines from `i` on into the new lines from `j` on, if the lines between them are
kept. -/
inductive Fits (old new : Array Text) : (i j : Nat) → List Hunk → Prop where
  | nil {i j l} :
    Same old new i j l →
    i + l = old.size →
    j + l = new.size →
    Fits old new i j []
  | cons {i j i' j' l h hs} :
    Same old new i j l →
    (Hunk.ranges h).1.1 = i + l →
    Spans old new (i + l) (j + l) h i' j' →
    Fits old new i' j' hs →
    Fits old new i j (h :: hs)

variable {old new : Array Text} {i j i' j' m n o l : Nat} {c : Change} {cs cs' : List Change}
  {es : List Edit} {p : Pending}

/-- A change ends no earlier than it begins. -/
lemma Covers.le (covers : Covers old new i j c i' j') : i ≤ i' ∧ j ≤ j' := by
  cases covers with
  | keep _ => exact ⟨Nat.le_add_right _ _, Nat.le_add_right _ _⟩
  | delete => exact ⟨Nat.le_add_right _ _, Nat.le_refl _⟩
  | insert => exact ⟨Nat.le_refl _, Nat.le_add_right _ _⟩
  | replace => exact ⟨Nat.le_add_right _ _, Nat.le_add_right _ _⟩

/-- Of all changes, only an insertion can be wrong about where it stands. -/
lemma Covers.start (covers : Covers old new i j c i' j') :
    c.oldRange.1 = i ∨ ∃ o l, c = .insert o j l := by
  cases covers with
  | keep _ => exact .inl rfl
  | delete => exact .inl rfl
  | insert => exact .inr ⟨_, _, rfl⟩
  | replace => exact .inl rfl

/-- Lines that a change keeps are the same on both sides. -/
lemma Covers.of_keep (covers : Covers old new i j (.keep o n l) i' j') :
    o = i ∧ n = j ∧ i' = i + l ∧ j' = j + l ∧ Same old new i j l := by
  cases covers with
  | keep same => exact ⟨rfl, rfl, rfl, rfl, same⟩

namespace Spans

/-- Changes end no earlier than they begin. -/
lemma le (spans : Spans old new i j cs i' j') : i ≤ i' ∧ j ≤ j' := by
  induction spans with
  | nil => exact ⟨Nat.le_refl _, Nat.le_refl _⟩
  | cons covers _ ih => exact ⟨Nat.le_trans covers.le.1 ih.1, Nat.le_trans covers.le.2 ih.2⟩

/-- Without changes one stays where one is. -/
lemma of_nil (spans : Spans old new i j [] i' j') : i' = i ∧ j' = j := by
  cases spans with
  | nil => exact ⟨rfl, rfl⟩

/-- Changes up to a place and changes from there on span both. -/
lemma append (spans : Spans old new i j cs m n) (spans' : Spans old new m n cs' i' j') :
    Spans old new i j (cs ++ cs') i' j' := by
  induction spans with
  | nil => exact spans'
  | cons covers _ ih => exact .cons covers (ih spans')

/-- One more change at the end takes the span further. -/
lemma snoc (spans : Spans old new i j cs m n) (covers : Covers old new m n c i' j') :
    Spans old new i j (cs ++ [c]) i' j' :=
  spans.append (.cons covers .nil)

/-- A span leads over the end of its first change. -/
lemma of_cons (spans : Spans old new i j (c :: cs) i' j') :
    ∃ m n, Covers old new i j c m n ∧ Spans old new m n cs i' j' := by
  cases spans with
  | cons covers spans => exact ⟨_, _, covers, spans⟩

/-- A span leads over the end of its front. -/
lemma of_append (spans : Spans old new i j (cs ++ cs') i' j') :
    ∃ m n, Spans old new i j cs m n ∧ Spans old new m n cs' i' j' := by
  induction cs generalizing i j with
  | nil => exact ⟨_, _, .nil, spans⟩
  | cons c cs ih =>
    obtain ⟨m, n, covers, rest⟩ := of_cons spans
    obtain ⟨m, n, first, last⟩ := ih rest
    exact ⟨m, n, .cons covers first, last⟩

end Spans

/-! ## Joining edits into changes -/

/-- Pending edits turn the old lines between two places into the new lines between them. -/
structure Pending.Leads (p : Pending) (i j i' j' : Nat) : Prop where
  deletion : match p.deletion with
    | none => i' = i
    | some (o, _, l) => o = i ∧ i' = i + l
  insertion : match p.insertion with
    | none => j' = j
    | some (_, n, l) => n = j ∧ j' = j + l

namespace Pending

/-- Nothing pending leads nowhere. -/
lemma leads_empty (i j : Nat) : Leads {} i j i j := ⟨rfl, rfl⟩

/-- A pending deletion that is extended leads past these old lines, too. -/
lemma Leads.delete (leads : Leads p i j m n) (o l : Nat) :
    Leads { p with deletion := extend m o l p.deletion } i j (m + l) n := by
  obtain ⟨deletion, insertion⟩ := leads
  refine ⟨?_, insertion⟩
  cases found : p.deletion with
  | none =>
    simp only [found] at deletion
    exact ⟨deletion, deletion ▸ rfl⟩
  | some run =>
    simp only [found] at deletion
    exact ⟨deletion.1, by rw [deletion.2, Nat.add_assoc]⟩

/-- A pending insertion that is extended leads past these new lines, too. -/
lemma Leads.insert (leads : Leads p i j m n) (o l : Nat) :
    Leads { p with insertion := extend o n l p.insertion } i j m (n + l) := by
  obtain ⟨deletion, insertion⟩ := leads
  refine ⟨deletion, ?_⟩
  cases found : p.insertion with
  | none =>
    simp only [found] at insertion
    exact ⟨insertion, insertion ▸ rfl⟩
  | some run =>
    simp only [found] at insertion
    exact ⟨insertion.1, by rw [insertion.2, Nat.add_assoc]⟩

/-- Pending edits become a change between the same places, or none if nothing is pending. -/
lemma Leads.spans (leads : Leads p i j i' j') : Spans old new i j p.change i' j' := by
  obtain ⟨deletion, insertion⟩ := p
  obtain ⟨first, second⟩ := leads
  cases deletion with
  | none =>
    cases insertion with
    | none =>
      cases first
      cases second
      exact .nil
    | some run =>
      cases first
      obtain ⟨rfl, rfl⟩ := second
      exact .cons .insert .nil
  | some run =>
    obtain ⟨rfl, rfl⟩ := first
    cases insertion with
    | none =>
      cases second
      exact .cons .delete .nil
    | some run =>
      obtain ⟨rfl, rfl⟩ := second
      exact .cons .replace .nil

end Pending

/-- Kept lines in front of changes are spanned with them. -/
lemma spans_consKeep (same : Same old new i j l) (spans : Spans old new (i + l) (j + l) cs i' j') :
    Spans old new i j (consKeep i j l cs) i' j' := by
  unfold consKeep
  split
  · obtain ⟨_, _, covers, rest⟩ := spans.of_cons
    obtain ⟨-, -, rfl, rfl, same'⟩ := covers.of_keep
    rw [Nat.add_assoc, Nat.add_assoc] at rest
    exact .cons (.keep (same_add.2 ⟨same, same'⟩)) rest
  · exact .cons (.keep same) spans

/-- The changes that a script comes to span what is pending and what the script edits. -/
lemma spans_changesFrom (leads : p.Leads i j m n) (runs : Runs old new m n es) :
    Spans old new i j (changesFrom p es) old.size new.size := by
  induction es generalizing p i j m n with
  | nil =>
    cases runs with
    | nil => exact leads.spans
  | cons e es ih =>
    cases e with
    | keep o n l =>
      obtain ⟨rfl, rfl, same, rest⟩ := runs.of_keep
      exact leads.spans.append (spans_consKeep same (ih (Pending.leads_empty _ _) rest))
    | delete o n l =>
      obtain ⟨rfl, rest⟩ := runs.of_delete
      exact ih (leads.delete n l) rest
    | insert o n l =>
      obtain ⟨rfl, -, -, rest⟩ := runs.of_insert
      exact ih (leads.insert o l) rest

/-- The changes between two lists of lines turn the old ones into the new ones. -/
lemma spans_changes (old new : Array Text) :
    Spans old new 0 0 (changes old new) old.size new.size :=
  spans_changesFrom (Pending.leads_empty 0 0) (runs_compact (runs_edits old new))

/-- A run that was extended is there. -/
lemma Pending.extend_ne_none (o n l : Nat) (run : Option (Nat × Nat × Nat)) :
    extend o n l run ≠ none := by
  cases run <;> nofun

/-- Changes begin with an insertion only where one is pending, or where the edits begin with one. -/
lemma insert_of_changesFrom (front : (changesFrom p es).head? = some (.insert o n l)) :
    p.deletion = none ∧ ((∃ n l, p.insertion = some (o, n, l)) ∨
      p.insertion = none ∧ ∃ n l tail, es = .insert o n l :: tail) := by
  induction es generalizing p with
  | nil =>
    obtain ⟨_ | _, _ | _⟩ := p
    all_goals cases front
    exact ⟨rfl, .inl ⟨_, _, rfl⟩⟩
  | cons e es ih =>
    cases e with
    | keep o' n' k =>
      obtain ⟨_ | _, _ | _⟩ := p
      · simp only [changesFrom, Pending.change, List.nil_append, consKeep] at front
        split at front
        · cases front
        · cases front
      all_goals cases front
      exact ⟨rfl, .inl ⟨_, _, rfl⟩⟩
    | delete o' n' k => exact absurd (ih front).1 (Pending.extend_ne_none _ _ _ _)
    | insert o' n' k =>
      -- the insertion is now pending, so the changes begin with it or with the one that it extends
      obtain ⟨none, ⟨_, _, found⟩ | ⟨gone, -⟩⟩ := ih front
      · refine ⟨none, ?_⟩
        cases pending : p.insertion with
        | none =>
          rw [pending] at found
          cases found
          exact .inr ⟨rfl, _, _, _, rfl⟩
        | some run =>
          rw [pending] at found
          cases found
          exact .inl ⟨_, _, rfl⟩
      · exact absurd gone (Pending.extend_ne_none _ _ _ _)

/-- Changes say where they begin. -/
lemma start_changes (old new : Array Text) : ∀ c ∈ (changes old new).head?, c.oldRange.1 = 0 := by
  intro c first
  cases all : changes old new with
  | nil =>
    rw [all] at first
    cases first
  | cons c' cs =>
    have spans := spans_changes old new
    rw [all] at first spans
    cases first
    obtain ⟨_, _, covers, -⟩ := spans.of_cons
    obtain start | ⟨o, l, rfl⟩ := covers.start
    · exact start
    -- an insertion at the front was moved down as far as it goes and stayed at the front
    · have front : (changesFrom {} (compact old new (edits old new))).head? = some (.insert o 0 l) := by
        rw [← changes, all]
        rfl
      obtain ⟨-, ⟨_, _, pending⟩ | ⟨-, _, _, _, begins⟩⟩ := insert_of_changesFrom front
      · cases pending
      · exact Nat.le_zero.1 (front_compact (runs_edits old new) begins)

/-! ## Grouping changes into hunks -/

/-- Hunks fit inside of both texts. -/
lemma Fits.le_size {hs : List Hunk} (fits : Fits old new i j hs) : i ≤ old.size ∧ j ≤ new.size := by
  induction fits with
  | nil _ stop stop' => exact ⟨stop ▸ Nat.le_add_right _ _, stop' ▸ Nat.le_add_right _ _⟩
  | cons _ _ spans _ ih =>
    have le := spans.le
    constructor <;> omega

/-- A hunk is said to begin in the old lines where its first change does. -/
lemma start_ranges {h : Hunk} (some : h ≠ []) (start : ∀ c ∈ h.head?, c.oldRange.1 = i) :
    (Hunk.ranges h).1.1 = i := by
  cases h with
  | nil => exact absurd rfl some
  | cons c cs =>
    rw [Hunk.ranges, List.head?_cons, List.getLast?_cons]
    exact start c rfl

/-- Where changes begin depends neither on how many lines are kept nor on what follows. -/
lemma start_append (k : Nat) (cs'' : List Change)
    (start : ∀ c ∈ (cs ++ .keep o n l :: cs').head?, c.oldRange.1 = i) :
    ∀ c ∈ (cs ++ .keep o n k :: cs'').head?, c.oldRange.1 = i := by
  cases cs with
  | nil =>
    intro c first
    cases first
    exact start (.keep o n l) rfl
  | cons c cs => exact start

/-- Changes behind a hunk that was begun are grouped into hunks that fit. -/
lemma fits_hunksFrom {group : Hunk} {i₀ j₀ d k : Nat} (skip : Same old new i₀ j₀ d)
    (begun : Spans old new (i₀ + d) (j₀ + d) group m n) (rest : Spans old new m n cs i' j')
    (start : ∀ c ∈ (group ++ cs).head?, c.oldRange.1 = i₀ + d) (last : Same old new i' j' k)
    (stop : i' + k = old.size) (stop' : j' + k = new.size) :
    Fits old new i₀ j₀ (hunksFrom group cs) := by
  fun_induction hunksFrom group cs generalizing i₀ j₀ d m n with
  | case1 =>
    obtain ⟨rfl, rfl⟩ := begun.of_nil
    obtain ⟨rfl, rfl⟩ := rest.of_nil
    exact .nil (same_add.2 ⟨skip, last⟩) (by omega) (by omega)
  | case2 o n l =>
    obtain ⟨rfl, rfl⟩ := rest.of_nil
    obtain ⟨_, _, covers, nil⟩ := begun.of_cons
    obtain ⟨rfl, rfl⟩ := nil.of_nil
    obtain ⟨-, -, rfl, rfl, same⟩ := covers.of_keep
    exact .nil (same_add.2 ⟨skip, same_add.2 ⟨same, last⟩⟩) (by omega) (by omega)
  | case3 group some =>
    obtain ⟨rfl, rfl⟩ := rest.of_nil
    rw [List.append_nil] at start
    exact .cons skip (start_ranges some start) begun (.nil last stop stop')
  | case4 group o n l cs long ih =>
    obtain ⟨_, _, covers, rest⟩ := rest.of_cons
    obtain ⟨rfl, rfl, rfl, rfl, same⟩ := covers.of_keep
    have front := start_append context [] start
    -- the kept lines are the end of this hunk, the lines between the hunks and the front of the next
    have parts : context + (l - 2 * context + context) = l := by omega
    have next : o + (l - context) = o + context + (l - 2 * context) := by omega
    have next' : n + (l - context) = n + context + (l - 2 * context) := by omega
    have whole : o + l = o + context + (l - 2 * context) + context := by omega
    have whole' : n + l = n + context + (l - 2 * context) + context := by omega
    rw [← parts, same_add, same_add] at same
    rw [whole, whole'] at rest
    rw [next, next'] at ih ⊢
    refine .cons skip (start_ranges (List.append_ne_nil_of_right_ne_nil _ (List.cons_ne_nil _ _)) front)
      (begun.snoc (.keep same.1)) ?_
    refine ih same.2.1 (.cons (.keep same.2.2) .nil) rest fun c first => ?_
    cases first
    rfl
  | case5 group o n l cs short ih =>
    obtain ⟨_, _, covers, rest⟩ := rest.of_cons
    refine ih skip (begun.snoc covers) rest ?_
    rw [List.append_assoc]
    exact start
  | case6 group c cs other ih =>
    obtain ⟨_, _, covers, rest⟩ := rest.of_cons
    refine ih skip (begun.snoc covers) rest ?_
    rw [List.append_assoc]
    exact start

/-- Cutting the context in front of changes skips lines that are the same on both sides. -/
lemma spans_trimFront (spans : Spans old new i j cs i' j') (start : ∀ c ∈ cs.head?, c.oldRange.1 = i) :
    ∃ d, Same old new i j d ∧ Spans old new (i + d) (j + d) (trimFront cs) i' j' ∧
      ∀ c ∈ (trimFront cs).head?, c.oldRange.1 = i + d := by
  unfold trimFront
  split
  · next o n l cs =>
    obtain ⟨_, _, covers, rest⟩ := spans.of_cons
    obtain ⟨rfl, rfl, rfl, rfl, same⟩ := covers.of_keep
    have parts : l - context + min l context = l := by omega
    have whole : o + l = o + (l - context) + min l context := by omega
    have whole' : n + l = n + (l - context) + min l context := by omega
    rw [← parts, same_add] at same
    rw [whole, whole'] at rest
    refine ⟨l - context, same.1, .cons (.keep same.2) rest, fun c first => ?_⟩
    cases first
    rfl
  · exact ⟨0, same_zero, spans, start⟩

/-- Cutting the context behind changes leaves lines that are the same on both sides. -/
lemma spans_trimBack (spans : Spans old new i j cs i' j') (start : ∀ c ∈ cs.head?, c.oldRange.1 = i) :
    ∃ m n k, Spans old new i j (trimBack cs) m n ∧ (∀ c ∈ (trimBack cs).head?, c.oldRange.1 = i) ∧
      Same old new m n k ∧ m + k = i' ∧ n + k = j' := by
  unfold trimBack
  split
  · next o n l last =>
    have all : cs.dropLast ++ [.keep o n l] = cs := List.dropLast_append_getLast? _ last
    rw [← all] at spans start
    have start' := start_append (min l context) [] start
    obtain ⟨_, _, front, back⟩ := spans.of_append
    obtain ⟨_, _, covers, nil⟩ := back.of_cons
    obtain ⟨rfl, rfl⟩ := nil.of_nil
    obtain ⟨rfl, rfl, rfl, rfl, same⟩ := covers.of_keep
    have parts : min l context + (l - context) = l := by omega
    rw [← parts, same_add] at same
    exact ⟨_, _, l - context, front.snoc (.keep same.1), start', same.2, by omega, by omega⟩
  · exact ⟨i', j', 0, spans, start, same_zero, rfl, rfl⟩

/-- The hunks between two lists of lines fit. -/
lemma fits_hunks (old new : Array Text) : Fits old new 0 0 (hunks (changes old new)) := by
  obtain ⟨d, skip, spans, start⟩ := spans_trimFront (spans_changes old new) (start_changes old new)
  obtain ⟨_, _, k, spans, start, last, stop, stop'⟩ := spans_trimBack spans start
  exact fits_hunksFrom skip .nil spans start last stop stop'

end Mender.Diff
