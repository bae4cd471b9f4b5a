import Mathlib.Data.List.Infix
import Mathlib.Tactic.Common
import Mender.Text.Basic

/-!
# Occurrences of words

A word occurs in a text when it is an infix of it (`occurs_iff`), and it is counted when it occurs
(`count_eq_zero_iff`). Two texts put together hold a word only if one of them does, or if the word runs
over the seam (`infix_append_of_head`, `infix_append_of_last`). Counting and replacing take a text piece by
piece, a word at the front or a single character (`word_induction`). Replacing a word leaves no occurrence
behind when neither the word nor its replacement can begin inside the other (`not_infix_replaceFrom`).
-/

namespace Mender.Text

variable {w r a b t : Text}

/-- A word occurs in a text when it stands in it. -/
lemma occurs_iff : occurs w t = true ↔ w <:+: t := by
  induction t with
  | nil => cases w <;> simp [occurs]
  | cons c t ih =>
    rw [occurs, Bool.or_eq_true, ih, List.isPrefixOf_iff_prefix, List.infix_cons_iff]

/-- A word counts zero times when it does not stand in the text. -/
lemma count_eq_zero_iff (ne : w ≠ []) : count w t = 0 ↔ ¬ w <:+: t := by
  unfold count
  induction t with
  | nil => simp [countFrom, ne]
  | cons c t ih =>
    rw [countFrom, List.infix_cons_iff, not_or, ← List.isPrefixOf_iff_prefix]
    split
    · next pre => simp [pre]
    · next pre => simp [pre, ih]

/-- A prefix of two texts put together ends in the first one, or runs into the second one. -/
lemma prefix_append_cases (pre : w <+: a ++ b) :
    w <+: a ∨ ∃ y, y ≠ [] ∧ w = a ++ y ∧ y <+: b := by
  rcases List.prefix_or_prefix_of_prefix pre (List.prefix_append a b) with short | ⟨y, rfl⟩
  · exact .inl short
  · cases y with
    | nil => exact .inl (by simp)
    | cons c y => exact .inr ⟨c :: y, by simp, rfl, (List.prefix_append_right_inj a).1 pre⟩

/-- A word that occurs in two texts put together occurs in one of them, if it cannot hold the first
character of the second one. -/
lemma infix_append_of_head {c : Char} (head : b.head? = some c) (not : c ∉ w)
    (inf : w <:+: a ++ b) : w <:+: a ∨ w <:+: b := by
  induction a with
  | nil => exact .inr inf
  | cons d a ih =>
    rcases List.infix_cons_iff.1 inf with pre | inf
    · obtain short | ⟨y, ne, rfl, front⟩ := prefix_append_cases (a := d :: a) pre
      · exact .inl short.isInfix
      · obtain ⟨e, y, rfl⟩ := List.exists_cons_of_ne_nil ne
        obtain ⟨z, rfl⟩ := front
        obtain rfl : e = c := Option.some.inj head
        exact absurd (List.mem_append_right _ List.mem_cons_self) not
    · exact (ih inf).imp List.infix_cons id

/-- The same for the last character of the first one. -/
lemma infix_append_of_last {c : Char} (last : a.getLast? = some c) (not : c ∉ w)
    (inf : w <:+: a ++ b) : w <:+: a ∨ w <:+: b := by
  induction a with
  | nil => cases last
  | cons d a ih =>
    rcases List.infix_cons_iff.1 inf with pre | inf
    · obtain short | ⟨y, _, rfl, _⟩ := prefix_append_cases (a := d :: a) pre
      · exact .inl short.isInfix
      · exact absurd (List.mem_append_left _ (List.mem_of_getLast? last)) not
    · cases a with
      | nil => exact .inr inf
      | cons e a => exact (ih (by simpa using last) inf).imp List.infix_cons id

/-- A word without newline occurs on one side of a newline. -/
lemma infix_append_newline (nl : '\n' ∉ w) :
    w <:+: a ++ '\n' :: b ↔ w <:+: a ∨ w <:+: b := by
  constructor
  · intro inf
    rcases infix_append_of_head rfl nl inf with inf | inf
    · exact .inl inf
    · rcases List.infix_cons_iff.1 inf with pre | inf
      · cases w with
        | nil => exact .inl List.nil_infix
        | cons c w =>
          obtain ⟨rfl, _⟩ := List.cons_prefix_cons.1 pre
          exact absurd List.mem_cons_self nl
      · exact .inr inf
  · rintro (inf | inf)
    · exact List.infix_append_of_infix_left inf
    · exact List.infix_append_of_infix_right (List.infix_cons inf)

/-! ## Words one after another -/

section pieces

variable {c : Char}

/-- What holds of the empty text, and of a longer text if it holds of what is left behind a word at the
front, or behind the first character if no word is there, holds of every text. -/
lemma word_induction {motive : Text → Prop} (ne : w ≠ []) (nil : motive [])
    (word : ∀ t, motive t → motive (w ++ t))
    (other : ∀ c t, ¬ w <+: c :: t → motive t → motive (c :: t)) (t : Text) : motive t := by
  induction size : t.length using Nat.strongRecOn generalizing t with
  | ind size ih =>
    subst size
    cases t with
    | nil => exact nil
    | cons c t =>
      by_cases front : w <+: c :: t
      · obtain ⟨rest, eq⟩ := front
        have pos := List.length_pos_iff.2 ne
        rw [← eq] at ih ⊢
        refine word rest (ih _ ?_ rest rfl)
        rw [List.length_append]
        omega
      · exact other c t front (ih _ (Nat.lt_succ_self _) t rfl)

/-- Counting passes over what is left of a word that was counted. -/
lemma countFrom_skip (w x t : Text) : countFrom w x.length (x ++ t) = countFrom w 0 t := by
  induction x with
  | nil => rfl
  | cons c x ih => exact ih

/-- Replacing passes over what is left of a word that was replaced. -/
lemma replaceFrom_skip (w r x t : Text) : replaceFrom w r x.length (x ++ t) = replaceFrom w r 0 t := by
  induction x with
  | nil => rfl
  | cons c x ih => exact ih

/-- A word at the front counts once more than what is behind it. -/
lemma count_word (ne : w ≠ []) (t : Text) : count w (w ++ t) = count w t + 1 := by
  obtain ⟨c, x, rfl⟩ := List.exists_cons_of_ne_nil ne
  have front : (c :: x).isPrefixOf (c :: (x ++ t)) = true :=
    List.isPrefixOf_iff_prefix.2 (List.prefix_append (c :: x) t)
  rw [count, List.cons_append, countFrom, if_pos front, List.length_cons, Nat.add_sub_cancel,
    countFrom_skip]
  rfl

/-- A word at the front gives way to its replacement. -/
lemma replace_word (ne : w ≠ []) (r t : Text) : replace w r (w ++ t) = r ++ replace w r t := by
  obtain ⟨c, x, rfl⟩ := List.exists_cons_of_ne_nil ne
  have front : (c :: x).isPrefixOf (c :: (x ++ t)) = true :=
    List.isPrefixOf_iff_prefix.2 (List.prefix_append (c :: x) t)
  rw [replace, List.cons_append, replaceFrom, if_pos front, List.length_cons, Nat.add_sub_cancel,
    replaceFrom_skip]
  rfl

/-- A character that no word begins with adds nothing to the count. -/
lemma count_other (other : ¬ w <+: c :: t) : count w (c :: t) = count w t := by
  rw [count, countFrom, if_neg (mt List.isPrefixOf_iff_prefix.1 other)]
  rfl

/-- A character that no word begins with stays. -/
lemma replace_other (other : ¬ w <+: c :: t) : replace w r (c :: t) = c :: replace w r t := by
  rw [replace, replaceFrom, if_neg (mt List.isPrefixOf_iff_prefix.1 other)]
  rfl

end pieces

/-! ## Replacing a word -/

section replacing

variable {c : Char}

/-- What stands at the front after replacing stood there before, if no replacement can begin in it. -/
lemma prefix_of_prefix_replaceFrom {x : Text} (not : c ∉ x)
    (pre : x <+: replaceFrom w (c :: r) 0 t) : x <+: t := by
  induction x generalizing t with
  | nil => exact List.nil_prefix
  | cons d x ih =>
    obtain ⟨ne, not⟩ := not_or.1 (mt List.mem_cons.2 not)
    cases t with
    | nil =>
      rw [replaceFrom] at pre
      exact absurd (List.prefix_nil.1 pre) (by simp)
    | cons e t =>
      rw [replaceFrom] at pre
      split at pre
      · exact absurd (List.cons_prefix_cons.1 pre).1.symm ne
      · obtain ⟨rfl, rest⟩ := List.cons_prefix_cons.1 pre
        exact List.cons_prefix_cons.2 ⟨rfl, ih not rest⟩

/-- A word does not begin in a front without its first character. -/
lemma infix_of_infix_append {x : Text} (not : c ∉ x) (inf : c :: w <:+: x ++ t) : c :: w <:+: t := by
  induction x with
  | nil => exact inf
  | cons d x ih =>
    obtain ⟨ne, not⟩ := not_or.1 (mt List.mem_cons.2 not)
    rcases List.infix_cons_iff.1 inf with pre | inf
    · exact absurd (List.cons_prefix_cons.1 pre).1 ne
    · exact ih not inf

/-- Replacing leaves no occurrence, when the word and its replacement begin with a character that comes
in neither of them again and none of the two begins the other. -/
lemma not_infix_replaceFrom (once : c ∉ w) (once' : c ∉ r)
    (clash : ∀ z, ¬ c :: w <+: c :: r ++ z) (skip : Nat) :
    ¬ c :: w <:+: replaceFrom (c :: w) (c :: r) skip t := by
  induction t generalizing skip with
  | nil => simp [replaceFrom]
  | cons d t ih =>
    cases skip with
    | succ skip =>
      rw [replaceFrom]
      exact ih skip
    | zero =>
      rw [replaceFrom]
      split
      · -- an occurrence would begin with the replacement, inside it, or behind it
        intro inf
        rcases List.infix_cons_iff.1 inf with pre | inf
        · exact clash _ pre
        · exact ih _ (infix_of_infix_append once' inf)
      · next miss =>
        intro inf
        rcases List.infix_cons_iff.1 inf with pre | inf
        · obtain ⟨rfl, rest⟩ := List.cons_prefix_cons.1 pre
          apply miss
          rw [List.isPrefixOf_iff_prefix]
          exact List.cons_prefix_cons.2 ⟨rfl, prefix_of_prefix_replaceFrom once rest⟩
        · exact ih 0 inf

end replacing

end Mender.Text
