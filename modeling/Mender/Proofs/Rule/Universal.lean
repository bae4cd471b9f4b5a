import Mender.Proofs.Rule.Clock
import Mender.Proofs.Rule.SingleLogger

/-!
# Texts in universal time

The clock rule is a change of words, and reading a text commutes with it: what the readers of the other rules
find at the front of a text in universal time (`utc`) is what they find at the front of the text itself, and
what they leave is in universal time (`after?_utc`, `splitAt?_utc`). No reader stops inside of a reading of the
clock, so the pieces between are changed one by one (`utc_append`).
-/

namespace Mender

namespace Text

variable {w r x y t : Text} {c : Char}

/-- Words are replaced on both sides of a seam on their own. -/
lemma replace_append (seam : Seam w x y) (ne : w ≠ []) :
    replace w r (x ++ y) = replace w r x ++ replace w r y := by
  induction x using word_induction ne with
  | nil => rfl
  | word x ih =>
    rw [List.append_assoc, replace_word ne, replace_word ne, List.append_assoc,
      ih (seam.mono (List.suffix_append w x) (List.prefix_refl y))]
  | other c x other ih =>
    have other' : ¬ w <+: c :: (x ++ y) := mt seam.prefix_iff.1 other
    rw [List.cons_append, replace_other other, replace_other other', List.cons_append,
      ih (seam.mono (List.suffix_cons c x) (List.prefix_refl y))]

/-- A word that cannot overlap itself is counted at all its positions. -/
lemma count_eq_positions (once : c ∉ w) (t : Text) : count (c :: w) t = positions (c :: w) t := by
  have ne := List.cons_ne_nil c w
  induction t using word_induction ne with
  | nil => exact (positions_nil ne).symm
  | word t ih =>
    have front : (c :: w).isPrefixOf (c :: w) = true := List.isPrefixOf_iff_prefix.2 (List.prefix_refl _)
    have behind : positions (c :: w) w = 0 := positions_eq_zero List.mem_cons_self once
    have one : positions (c :: w) (c :: w) = 1 := by rw [positions_cons, front, behind]; rfl
    rw [count_word ne, positions_append (seam_self once t) ne, ih, one, Nat.add_comm]
  | other d t other ih =>
    have front : (c :: w).isPrefixOf (d :: t) = false := by
      rwa [Bool.eq_false_iff, ne_eq, List.isPrefixOf_iff_prefix]
    rw [count_other other, positions_cons, front, ih, if_neg Bool.false_ne_true, Nat.add_zero]

end Text

namespace Rule.Timestamp

open Text Logger
open DebugGuard.Pads (prefix_iff_after? splitAt?_append splitAt?_cons eq_of_splitAt?)

variable {t v w x y : Text} {c d : Char} {p : Char → Bool}

/-- A text with every reading of the local clock replaced. -/
def utc (t : Text) : Text := replace localClock universalClock t

/-- The reading of the local clock is not empty. -/
lemma localClock_ne_nil : localClock ≠ [] := by decide

/-- The reading of the universal clock has all characters of the local one. -/
lemma localClock_subset : localClock ⊆ universalClock := by decide

/-- The clock rule leaves a text in universal time. -/
lemma textAfter_eq_utc (t : Text) : (apply t).textAfter t = utc t := textAfter_eq_replace t

/-- The clock rule hits as often as the local clock is read. -/
lemma hits_eq_positions (t : Text) : (apply t).hits = positions localClock t := by
  rw [hits_apply]
  exact count_eq_positions once_localClock t

/-- A reading of the local clock becomes one of the universal clock. -/
lemma utc_word (t : Text) : utc (localClock ++ t) = universalClock ++ utc t := replace_word localClock_ne_nil _ t

/-- A character that begins no reading stays. -/
lemma utc_other (other : ¬ localClock <+: c :: t) : utc (c :: t) = c :: utc t := replace_other other

/-- Texts with no reading over their seam change one by one. -/
lemma utc_append (seam : Seam localClock x y) : utc (x ++ y) = utc x ++ utc y :=
  replace_append seam localClock_ne_nil

/-- A character that is not in the names of the clocks stays where it is. -/
lemma utc_cons (stop : c ≠ 'D') (t : Text) : utc (c :: t) = c :: utc t := by
  refine utc_other fun pre => ?_
  obtain ⟨rfl, _⟩ := List.cons_prefix_cons.1 pre
  exact stop rfl

/-- A text in universal time is one without a dot only if it was that text before. -/
lemma utc_eq_iff (dot : '.' ∉ v) : utc t = v ↔ t = v := by
  induction t using word_induction localClock_ne_nil generalizing v with
  | nil => exact Iff.rfl
  | word t ih =>
    rw [utc_word]
    refine iff_of_false ?_ ?_
    · rintro rfl
      exact dot (List.mem_append_left _ (by decide))
    · rintro rfl
      exact dot (List.mem_append_left _ (by decide))
  | other c t other ih =>
    rw [utc_other other]
    cases v with
    | nil => exact iff_of_false nofun nofun
    | cons d v => rw [List.cons_eq_cons, List.cons_eq_cons, ih (not_or.1 (mt List.mem_cons.2 dot)).2]

/-- A text without dot stays as it is. -/
lemma utc_of_notMem (dot : '.' ∉ t) : utc t = t := (utc_eq_iff dot).2 rfl

/-- A text without readings stays as it is. -/
lemma utc_of_not_infix (not : ¬ localClock <:+: t) : utc t = t := by
  induction t using word_induction localClock_ne_nil with
  | nil => rfl
  | word t _ => exact absurd (List.prefix_append _ _).isInfix not
  | other c t other ih => rw [utc_other other, ih fun inf => not (List.infix_cons inf)]

/-- Only the empty text becomes empty. -/
@[simp] lemma utc_eq_nil_iff : utc t = [] ↔ t = [] := utc_eq_iff List.not_mem_nil

/-- A text begins as before. -/
lemma head?_utc (t : Text) : (utc t).head? = t.head? := by
  induction t using word_induction localClock_ne_nil with
  | nil => rfl
  | word t _ =>
    rw [utc_word]
    rfl
  | other c t other _ =>
    rw [utc_other other]
    rfl

/-- A text ends as before. -/
lemma getLast?_utc (t : Text) : (utc t).getLast? = t.getLast? := by
  induction t using word_induction localClock_ne_nil with
  | nil => rfl
  | word t ih =>
    rw [utc_word, List.getLast?_append, List.getLast?_append, ih]
    rfl
  | other c t other ih => rw [utc_other other, List.getLast?_cons, List.getLast?_cons, ih]

/-! ## Words -/

/-- A word that cannot hold the front of a clock's name is read as before. -/
lemma after?_utc (lacks : 'D' ∉ w) (t : Text) : after? w (utc t) = (after? w t).map utc := by
  induction t using word_induction localClock_ne_nil generalizing w with
  | nil => cases w <;> rfl
  | word t _ =>
    cases w with
    | nil => rfl
    | cons a w =>
      have ne : a ≠ 'D' := fun same => lacks (same ▸ List.mem_cons_self)
      have idle : ∀ x, after? (a :: w) ('D' :: x) = none := fun x => if_neg ne
      rw [utc_word]
      exact (idle _).trans (congrArg (Option.map utc) (idle _)).symm
  | other c t other ih =>
    cases w with
    | nil => rfl
    | cons a w =>
      rw [utc_other other, after?, after?]
      split
      · exact ih (not_or.1 (mt List.mem_cons.2 lacks)).2
      · rfl

/-- A word without the letter that readings begin with stands in front as before. -/
lemma prefix_utc_iff (lacks : 'D' ∉ w) : w <+: utc t ↔ w <+: t := by
  rw [prefix_iff_after?, prefix_iff_after?, after?_utc lacks, Option.isSome_map]

/-- A word that can neither hold the front of a clock's name nor begin inside of one stands in both texts or in
none. -/
lemma infix_utc_iff (lacks : 'D' ∉ c :: w) (start : c ∉ universalClock) : c :: w <:+: utc t ↔ c :: w <:+: t := by
  induction t using word_induction localClock_ne_nil with
  | nil => exact Iff.rfl
  | word t ih =>
    have start' : c ∉ localClock := fun mem => start (localClock_subset mem)
    rw [utc_word]
    constructor
    · exact fun inf => (ih.1 (infix_of_infix_append start inf)).trans (List.suffix_append _ _).isInfix
    · exact fun inf => (ih.2 (infix_of_infix_append start' inf)).trans (List.suffix_append _ _).isInfix
  | other d t other ih =>
    have front : c :: w <+: d :: utc t ↔ c :: w <+: d :: t := by
      rw [← utc_other other]
      exact prefix_utc_iff lacks
    rw [utc_other other, List.infix_cons_iff, List.infix_cons_iff, ih, front]

/-- A word that does not begin inside of a reading and holds none of its first letter occurs as before. -/
lemma occurs_utc (lacks : 'D' ∉ c :: w) (start : c ∉ universalClock) :
    occurs (c :: w) (utc t) = occurs (c :: w) t := by
  rw [Bool.eq_iff_iff, occurs_iff, occurs_iff]
  exact infix_utc_iff lacks start

/-! ## Runs of characters -/

/-- A run that stops before a clock's name is the same in both texts. -/
lemma run_utc (stop : p 'D' = false) (t : Text) :
    (utc t).takeWhile p = t.takeWhile p ∧ (utc t).dropWhile p = utc (t.dropWhile p) := by
  have idle : ∀ x, ('D' :: x).takeWhile p = [] ∧ ('D' :: x).dropWhile p = 'D' :: x := by simp [stop]
  induction t using word_induction localClock_ne_nil with
  | nil => exact ⟨rfl, rfl⟩
  | word t _ =>
    have word : (localClock ++ t).dropWhile p = localClock ++ t := (idle _).2
    rw [word, utc_word]
    exact ⟨(idle _).1.trans (idle _).1.symm, (idle _).2⟩
  | other c t other ih =>
    rw [utc_other other]
    cases run : p c with
    | true =>
      simp only [List.takeWhile_cons_of_pos run, List.dropWhile_cons_of_pos run, ih, and_self]
    | false =>
      have run : ¬ p c = true := by simp [run]
      rw [List.takeWhile_cons_of_neg run, List.takeWhile_cons_of_neg run, List.dropWhile_cons_of_neg run,
        List.dropWhile_cons_of_neg run, utc_other other]
      exact ⟨rfl, rfl⟩

/-- A run that goes through the names of both clocks. -/
lemma run_utc_of_all (through : universalClock.all p = true) (t : Text) :
    (utc t).takeWhile p = utc (t.takeWhile p) ∧ (utc t).dropWhile p = utc (t.dropWhile p) := by
  have all : ∀ c ∈ universalClock, p c = true := List.all_eq_true.1 through
  have all' : ∀ c ∈ localClock, p c = true := fun c mem => all c (localClock_subset mem)
  induction t using word_induction localClock_ne_nil with
  | nil => exact ⟨rfl, rfl⟩
  | word t ih =>
    rw [utc_word, List.takeWhile_append_of_pos all, List.takeWhile_append_of_pos all',
      List.dropWhile_append_of_pos all, List.dropWhile_append_of_pos all', utc_word, ih.1, ih.2]
    exact ⟨rfl, rfl⟩
  | other c t other ih =>
    rw [utc_other other]
    cases run : p c with
    | true =>
      have other' : ¬ localClock <+: c :: t.takeWhile p := fun pre =>
        other (pre.trans ((List.prefix_cons_inj c).2 (List.takeWhile_prefix p)))
      rw [List.takeWhile_cons_of_pos run, List.takeWhile_cons_of_pos run, List.dropWhile_cons_of_pos run,
        List.dropWhile_cons_of_pos run, utc_other other', ih.1, ih.2]
      exact ⟨rfl, rfl⟩
    | false =>
      have run : ¬ p c = true := by simp [run]
      rw [List.takeWhile_cons_of_neg run, List.takeWhile_cons_of_neg run, List.dropWhile_cons_of_neg run,
        List.dropWhile_cons_of_neg run, utc_other other]
      exact ⟨rfl, rfl⟩

/-- The letter that readings begin with is not blank. -/
lemma isBlank_D : isBlank 'D' = false := by decide

/-- Trimming the front commutes with the change of clocks. -/
lemma trimStart_utc (t : Text) : trimStart (utc t) = utc (trimStart t) := (run_utc isBlank_D t).2

/-- Reading blanks commutes with the change of clocks. -/
lemma afterBlanks?_utc (t : Text) : afterBlanks? (utc t) = (afterBlanks? t).map utc := by
  unfold afterBlanks?
  rw [head?_utc, trimStart_utc]
  split <;> rfl

/-- Blank characters at the end are cut off, and no other. -/
lemma trimEnd_blank {gap : Text} (blank : Blank gap) (solid : ∀ c ∈ x.getLast?, isBlank c = false) :
    trimEnd (x ++ gap) = x := by
  have blank' : ∀ c ∈ gap.reverse, isBlank c = true := fun c mem => blank c (List.mem_reverse.1 mem)
  unfold trimEnd
  rw [List.reverse_append, List.dropWhile_append_of_pos blank']
  rcases List.eq_nil_or_concat' x with rfl | ⟨y, d, rfl⟩
  · rfl
  · rw [List.getLast?_concat] at solid
    rw [List.reverse_concat, List.dropWhile_cons_of_neg (by simp [solid d rfl]), List.reverse_cons,
      List.reverse_reverse]

/-- Trimming the end commutes with the change of clocks. -/
lemma trimEnd_utc (t : Text) : trimEnd (utc t) = utc (trimEnd t) := by
  obtain ⟨gap, blank, cut⟩ := trimEnd_append t
  have solid : ∀ c ∈ (utc (trimEnd t)).getLast?, isBlank c = false := by
    rw [getLast?_utc]
    intro c mem
    obtain ⟨y, eq⟩ := List.getLast?_eq_some_iff.1 mem
    exact solid_of_trimEnd eq
  have apart : ∀ c ∈ gap, c ∉ localClock := by
    intro c mem clock
    have clear : localClock.all (!isBlank ·) = true := by decide +kernel
    have solid := List.all_eq_true.1 clear c clock
    rw [blank c mem] at solid
    cases solid
  have seam : Seam localClock (trimEnd t) gap := by
    rintro a b eq _ ne_b _ pre
    obtain ⟨c, b, rfl⟩ := List.exists_cons_of_ne_nil ne_b
    refine apart c (pre.subset List.mem_cons_self) ?_
    rw [← eq]
    exact List.mem_append_right _ List.mem_cons_self
  have same : utc gap = gap := utc_of_notMem fun mem => apart _ mem (by decide)
  conv_lhs => rw [cut, utc_append seam, same]
  exact trimEnd_blank blank solid

/-- Trimming commutes with the change of clocks. -/
lemma trim_utc (t : Text) : trim (utc t) = utc (trim t) := by
  rw [trim, trim, trimStart_utc, trimEnd_utc]

/-- A text is split at the same place, if the place is not inside of a clock's name. -/
lemma splitAt?_utc (stop : d ∉ universalClock) (t : Text) :
    splitAt? d (utc t) = (splitAt? d t).map (Prod.map utc utc) := by
  induction t using word_induction localClock_ne_nil with
  | nil => rfl
  | word t ih =>
    have stop' : d ∉ localClock := fun mem => stop (localClock_subset mem)
    rw [utc_word, splitAt?_append stop, splitAt?_append stop', ih, Option.map_map, Option.map_map]
    refine Option.map_congr fun p _ => ?_
    exact congrArg (Prod.mk · (utc p.2)) (utc_word p.1).symm
  | other c t other ih =>
    rw [utc_other other, splitAt?_cons, splitAt?_cons]
    split
    · rfl
    · rw [ih, Option.map_map, Option.map_map]
      refine Option.map_congr fun p mem => ?_
      have other' : ¬ localClock <+: c :: p.1 := fun pre => other (pre.trans ?_)
      · exact congrArg (Prod.mk · (utc p.2)) (utc_other other').symm
      · rw [eq_of_splitAt? mem]
        exact (List.prefix_cons_inj c).2 (List.prefix_append _ _)

/-! ## Lines -/

/-- No reading runs over a character that it does not have. -/
lemma seam_of_stop_char (stop : c ∉ localClock) (x y : Text) : Seam localClock x (c :: y) :=
  seam_of_head rfl fun mem => stop (List.mem_of_mem_tail mem)

/-- The two sides of a character that readings do not have change one by one. -/
lemma utc_append_cons (stop : c ∉ localClock) (x y : Text) : utc (x ++ c :: y) = utc x ++ c :: utc y := by
  have ne : c ≠ 'D' := by
    rintro rfl
    exact stop (by decide)
  rw [utc_append (seam_of_stop_char stop x y), utc_cons ne]

open DebugGuard (unlines_cons_cons lines_unlines newline_notMem_lines)

/-- Joined lines change one by one. -/
lemma utc_unlines (ls : List Text) : utc (unlines ls) = unlines (ls.map utc) := by
  induction ls with
  | nil => rfl
  | cons l ls ih =>
    cases ls with
    | nil => simp [unlines, List.intercalate]
    | cons k ls =>
      rw [unlines_cons_cons, utc_append_cons (by decide), ih]
      exact (unlines_cons_cons _ _ _).symm

/-- The readings of joined lines add up. -/
lemma positions_unlines (ls : List Text) :
    positions localClock (unlines ls) = (ls.map (positions localClock)).sum := by
  induction ls with
  | nil => exact positions_nil localClock_ne_nil
  | cons l ls ih =>
    cases ls with
    | nil => simp [unlines, List.intercalate]
    | cons k ls =>
      rw [unlines_cons_cons, positions_append_cons localClock_ne_nil (by decide), ih]
      rfl

/-- A character that readings do not have stays in a text or stays out of it. -/
lemma mem_utc_iff (other : c ∉ universalClock) : c ∈ utc t ↔ c ∈ t :=
  mem_replace_iff localClock_ne_nil (fun mem => other (localClock_subset mem)) other t

/-- The lines of a text change one by one. -/
lemma lines_utc (t : Text) : lines (utc t) = (lines t).map utc := by
  have whole := utc_unlines (lines t)
  rw [unlines_lines] at whole
  rw [whole]
  refine lines_unlines (by simpa using lines_ne_nil t) ?_
  rw [List.forall_mem_map]
  exact fun l mem => mt (mem_utc_iff (by decide)).1 (newline_notMem_lines mem)

/-- A text is taken to use the same newline as before. -/
lemma newline_utc (t : Text) : newline (utc t) = newline t := by
  have pair : occurs "\r\n" (utc t) = occurs "\r\n" t := occurs_utc (by decide) (by decide)
  rw [newline, newline, pair]

end Rule.Timestamp

end Mender
