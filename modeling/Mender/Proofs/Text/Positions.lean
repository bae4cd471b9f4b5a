import Mender.Proofs.Text.LineEnding

/-!
# Positions of words

How often a word stands in a text, overlaps included (`positions`). Two texts put together have the
positions of both, if no occurrence runs over their seam (`positions_append`). Putting a text in somewhere
adds its positions to those that were there, if it breaks no occurrence and goes together with neither
neighbour to make one (`positions_insertAt`), and it leaves the seams before it as they were
(`Unbroken.insertAt`).
-/

namespace Mender.Text

variable {w t x y : Text} {c d : Char} {i j : Nat}

/-- At how many positions of a text a word stands. -/
def positions (w t : Text) : Nat := t.tails.countP (w.isPrefixOf ·)

/-- A word stands at the front of a text or behind its first character. -/
lemma positions_cons (w : Text) (c : Char) (t : Text) :
    positions w (c :: t) = positions w t + if w.isPrefixOf (c :: t) then 1 else 0 := by
  rw [positions, List.tails_cons, List.countP_cons]
  rfl

/-- A word stands at no position when it is not in the text. -/
lemma positions_eq_zero_iff : positions w t = 0 ↔ ¬ w <:+: t := by
  rw [positions, List.countP_eq_zero, List.infix_iff_prefix_suffix]
  simp only [List.mem_tails, List.isPrefixOf_iff_prefix, not_exists, not_and]
  exact ⟨fun h u pre suffix => h u suffix pre, fun h u suffix pre => h u pre suffix⟩

/-- A word that stands at some position is in the text. -/
lemma infix_of_positions (ne : positions w t ≠ 0) : w <:+: t := not_not.1 (mt positions_eq_zero_iff.2 ne)

/-- A word does not stand in a text that lacks one of its characters. -/
lemma positions_eq_zero (mem : d ∈ w) (not : d ∉ t) : positions w t = 0 :=
  positions_eq_zero_iff.2 fun inf => not (inf.subset mem)

/-- No word stands in the empty text. -/
lemma positions_nil (ne : w ≠ []) : positions w [] = 0 :=
  positions_eq_zero_iff.2 fun inf => ne (List.infix_nil.1 inf)

/-! ## Seams -/

/-- No occurrence of a word runs over the seam of two texts. -/
def Seam (w x y : Text) : Prop := ∀ a b, a ++ b = w → a ≠ [] → b ≠ [] → a <:+ x → ¬ b <+: y

/-- A seam stays one if less is looked at on both sides. -/
lemma Seam.mono {x' y' : Text} (seam : Seam w x y) (suffix : x' <:+ x) (pre : y' <+: y) : Seam w x' y' :=
  fun a b eq ne_a ne_b behind front => seam a b eq ne_a ne_b (behind.trans suffix) (front.trans pre)

/-- What begins before a seam ends before it. -/
lemma Seam.prefix_iff (seam : Seam w (c :: x) y) : w <+: c :: x ++ y ↔ w <+: c :: x := by
  refine ⟨fun pre => ?_, fun pre => pre.trans (List.prefix_append _ _)⟩
  refine (prefix_append_cases pre).resolve_right ?_
  rintro ⟨b, ne_b, rfl, run⟩
  exact seam _ b rfl (List.cons_ne_nil _ _) ne_b (List.suffix_refl _) run

/-- The positions of texts put together add up, if no word runs over the seam. -/
lemma positions_append (seam : Seam w x y) (ne : w ≠ []) :
    positions w (x ++ y) = positions w x + positions w y := by
  induction x with
  | nil => rw [List.nil_append, positions_nil ne, Nat.zero_add]
  | cons c x ih =>
    have front : w.isPrefixOf (c :: x ++ y) = w.isPrefixOf (c :: x) := by
      rw [Bool.eq_iff_iff, List.isPrefixOf_iff_prefix, List.isPrefixOf_iff_prefix, seam.prefix_iff]
    have rest : Seam w x y := seam.mono (List.suffix_cons c x) (List.prefix_refl y)
    rw [List.cons_append, positions_cons, positions_cons, ih rest, ← List.cons_append, front]
    omega

/-- No occurrence of a word runs out of another one, if its first character comes but once in it. -/
lemma seam_self (once : c ∉ w) (y : Text) : Seam (c :: w) (c :: w) y := by
  intro a b eq ne_a ne_b suffix _
  obtain ⟨d, a, rfl⟩ := List.exists_cons_of_ne_nil ne_a
  obtain ⟨rfl, rfl⟩ := List.cons_eq_cons.1 eq
  rcases List.suffix_cons_iff.1 suffix with whole | inner
  · exact ne_b (List.self_eq_append_right.1 (List.cons_eq_cons.1 whole).2)
  · exact once (inner.subset List.mem_cons_self)

/-- A character that can only end a word stops every occurrence. -/
lemma seam_of_last (last : x.getLast? = some d) (not : d ∉ w.dropLast) : Seam w x y := by
  rintro a b rfl ne_a ne_b ⟨z, rfl⟩ _
  apply not
  rw [List.dropLast_append_of_ne_nil ne_b]
  rw [List.getLast?_append_of_ne_nil _ ne_a] at last
  exact List.mem_append_left _ (List.mem_of_getLast? last)

/-- A character that can only begin a word starts nothing but an occurrence. -/
lemma seam_of_head (head : y.head? = some d) (not : d ∉ w.tail) : Seam w x y := by
  rintro a b rfl ne_a ne_b _ ⟨z, rfl⟩
  apply not
  rw [List.tail_append_of_ne_nil ne_a]
  rw [List.head?_append_of_ne_nil _ ne_b] at head
  exact List.mem_append_right _ (List.mem_of_head? head)

/-- A stretch that a word is not in stops every occurrence, if the word cannot begin behind it. -/
lemma seam_of_stop {z : Text} (not : c ∉ w) (head : ∀ d ∈ w.head?, d ∉ z) : Seam w (x ++ c :: z) y := by
  rintro a b rfl ne_a _ suffix _
  have outside : c ∉ a := fun mem => not (List.mem_append_left _ mem)
  rcases List.suffix_or_suffix_of_suffix suffix (List.suffix_append x (c :: z)) with short | long
  · rcases List.suffix_cons_iff.1 short with rfl | inner
    · exact outside List.mem_cons_self
    · obtain ⟨d, a, rfl⟩ := List.exists_cons_of_ne_nil ne_a
      exact head d rfl (inner.subset List.mem_cons_self)
  · exact outside (long.subset List.mem_cons_self)

/-- A word that does not end with a character of a kind cannot end among characters of that kind. -/
lemma seam_of_run {p : Char → Bool} {z : Text} (all : ∀ e ∈ y, p e = true) (not : d ∉ w)
    (last : ∀ e ∈ w.getLast?, p e = false) : Seam w x (y ++ d :: z) := by
  rintro a b rfl _ ne_b _ pre
  rcases prefix_append_cases pre with short | ⟨v, ne_v, rfl, long⟩
  · have end_b := List.getLast?_eq_some_getLast ne_b
    have solid := last (b.getLast ne_b) (List.mem_getLast?_append_of_mem_getLast? end_b)
    have run := all _ (short.subset (List.getLast_mem ne_b))
    exact absurd (solid.symm.trans run) (by decide)
  · obtain ⟨e, v, rfl⟩ := List.exists_cons_of_ne_nil ne_v
    obtain ⟨rfl, _⟩ := List.cons_prefix_cons.1 long
    exact not (by simp)

/-- A character that is not in a word parts its positions. -/
lemma positions_append_cons (ne : w ≠ []) (not : c ∉ w) (x y : Text) :
    positions w (x ++ c :: y) = positions w x + positions w y := by
  have seam : Seam w x (c :: y) := seam_of_head rfl fun mem => not (List.mem_of_mem_tail mem)
  have front : w.isPrefixOf (c :: y) = false := by
    obtain ⟨d, w, rfl⟩ := List.exists_cons_of_ne_nil ne
    rw [Bool.eq_false_iff, ne_eq, List.isPrefixOf_iff_prefix]
    intro pre
    obtain ⟨rfl, _⟩ := List.cons_prefix_cons.1 pre
    exact not List.mem_cons_self
  rw [positions_append seam ne, positions_cons, front]
  rfl

/-! ## Insertions -/

/-- No occurrence of a word runs over an offset of a text. -/
def Unbroken (w t : Text) (i : Nat) : Prop := Seam w (t.take i) (t.drop i)

/-- A text that goes together with no neighbour to make a word. -/
structure Sealed (w x : Text) : Prop where
  first : ∃ c ∈ x.head?, c ∉ w.tail
  last : ∀ y, Seam w x y

/-- Putting in a sealed text at an unbroken place adds the positions in it. -/
lemma positions_insertAt (seals : Sealed w x) (unbroken : Unbroken w t i) (ne : w ≠ []) :
    positions w (insertAt i x t) = positions w t + positions w x := by
  obtain ⟨c, head, not⟩ := seals.first
  have front : Seam w (t.take i) (x ++ t.drop i) :=
    seam_of_head (List.mem_head?_append_of_mem_head? head) not
  have parts := positions_append unbroken ne
  rw [List.take_append_drop] at parts
  rw [insertAt, List.append_assoc, positions_append front ne, positions_append (seals.last _) ne, parts]
  omega

/-- What is put in behind an offset leaves the seam there as it was. -/
lemma Unbroken.insertAt (unbroken : Unbroken w t j) (seals : Sealed w x) (le : j ≤ i)
    (inside : i ≤ t.length) : Unbroken w (insertAt i x t) j := by
  obtain ⟨c, head, not⟩ := seals.first
  have drop : (Text.insertAt i x t).drop j = (t.drop j).take (i - j) ++ (x ++ t.drop i) := by
    have length : j ≤ (t.take i).length := by rwa [List.length_take, Nat.min_eq_left inside]
    rw [Text.insertAt, List.append_assoc, List.drop_append_of_le_length length, List.drop_take]
  unfold Unbroken
  rw [take_insertAt le inside, drop]
  rintro a b rfl ne_a ne_b suffix pre
  rcases prefix_append_cases pre with short | ⟨v, ne_v, rfl, long⟩
  · exact unbroken a b rfl ne_a ne_b suffix (short.trans (List.take_prefix _ _))
  · -- the occurrence would hold the first character of what is put in
    obtain ⟨e, v, rfl⟩ := List.exists_cons_of_ne_nil ne_v
    obtain ⟨x, rfl⟩ := List.head?_eq_some_iff.1 head
    obtain ⟨rfl, _⟩ := List.cons_prefix_cons.1 long
    apply not
    rw [List.tail_append_of_ne_nil ne_a]
    simp

end Mender.Text
