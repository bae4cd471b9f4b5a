import Mender.Proofs.Rule.Idempotence
import Mender.Proofs.Text.Bytes

/-!
# Readings of the local clock

A word that begins with a character which does not come in it again cannot overlap with itself. So the
scan from the left counts it at every offset where it stands (`count_eq_length_offsets`) and replaces it
exactly there (`replace_eq_replaceAt`). For the reading of the local clock this says which text the clock
rule gives (`normalizes_clock`).
-/

namespace Mender

namespace Text

variable {w r t x : Text} {c : Char} {i len : Nat} {places : List Nat}

/-- The offsets at which a word stands in a text. -/
def offsets (w t : Text) : List Nat := (List.range t.length).filter fun i => w.isPrefixOf (t.drop i)

/-- A text with `r` in place of the `len` characters behind each of the given offsets. The last of them
comes first, so that the others stay where they are. -/
def replaceAt (len : Nat) (r : Text) (places : List Nat) (t : Text) : Text :=
  places.foldr (fun i t => t.take i ++ r ++ t.drop (i + len)) t

/-! ## Lengths -/

/-- Replacing a word changes the length of a text by the same amount each time. -/
lemma byteLength_replace (ne : w ≠ []) (longer : byteLength r = byteLength w + len) (t : Text) :
    byteLength (replace w r t) = byteLength t + len * count w t := by
  induction t using word_induction ne with
  | nil => rfl
  | word t ih =>
    rw [replace_word ne, count_word ne, byteLength_append, byteLength_append, ih, longer, Nat.mul_succ]
    omega
  | other c t other ih =>
    rw [replace_other other, count_other other, byteLength, byteLength, ih, Nat.add_assoc]

/-! ## The offsets of a word -/

/-- A word stands at the front of a text, or where it stands behind the first character. -/
lemma offsets_cons (w : Text) (c : Char) (t : Text) : offsets w (c :: t) =
    (if w.isPrefixOf (c :: t) then [0] else []) ++ (offsets w t).map (· + 1) := by
  rw [offsets, List.length_cons, List.range_succ_eq_map, List.filter_cons, List.filter_map, List.drop_zero]
  by_cases front : w.isPrefixOf (c :: t) = true
  · rw [if_pos front, if_pos front]
    rfl
  · rw [if_neg front, if_neg front]
    rfl

/-- Behind a character that begins no word all offsets are one further on. -/
lemma offsets_other (other : ¬ w <+: c :: t) : offsets w (c :: t) = (offsets w t).map (· + 1) := by
  rw [offsets_cons, if_neg (mt List.isPrefixOf_iff_prefix.1 other), List.nil_append]

/-- A word stands nowhere in a text without its first character. -/
lemma offsets_skip (once : c ∉ x) (t : Text) :
    offsets (c :: w) (x ++ t) = (offsets (c :: w) t).map (· + x.length) := by
  induction x with
  | nil => exact (List.map_id _).symm
  | cons d x ih =>
    obtain ⟨ne, once⟩ := not_or.1 (mt List.mem_cons.2 once)
    have other : ¬ c :: w <+: d :: (x ++ t) := fun front => ne (List.cons_prefix_cons.1 front).1
    rw [List.cons_append, offsets_other other, ih once, List.map_map]
    rfl

/-- A word stands where it begins, and next behind its end. -/
lemma offsets_word (once : c ∉ w) (t : Text) :
    offsets (c :: w) (c :: w ++ t) = 0 :: (offsets (c :: w) t).map (· + (c :: w).length) := by
  have front : (c :: w).isPrefixOf (c :: (w ++ t)) = true :=
    List.isPrefixOf_iff_prefix.2 (List.prefix_append (c :: w) t)
  rw [List.cons_append, offsets_cons, if_pos front, offsets_skip once, List.map_map]
  rfl

/-- The first of the places is replaced last. -/
lemma replaceAt_cons (len i : Nat) (r : Text) (places : List Nat) (t : Text) :
    replaceAt len r (i :: places) t = (replaceAt len r places t).take i ++ r ++
      (replaceAt len r places t).drop (i + len) := rfl

/-- Replacing behind a text leaves the text alone. -/
lemma replaceAt_skip (len : Nat) (r : Text) (places : List Nat) (x t : Text) :
    replaceAt len r (places.map (· + x.length)) (x ++ t) = x ++ replaceAt len r places t := by
  induction places with
  | nil => rfl
  | cons i places ih =>
    have stop : i + x.length + len = x.length + (i + len) := by omega
    rw [List.map_cons, replaceAt_cons, replaceAt_cons, ih, stop, Nat.add_comm i x.length,
      List.take_length_add_append, List.drop_length_add_append]
    simp only [List.append_assoc]

/-- The scan counts a word at every offset where it stands. -/
lemma count_eq_length_offsets (once : c ∉ w) (t : Text) :
    count (c :: w) t = (offsets (c :: w) t).length := by
  induction t using word_induction (List.cons_ne_nil c w) with
  | nil => rfl
  | word t ih =>
    rw [count_word (List.cons_ne_nil c w), offsets_word once, List.length_cons, List.length_map, ih]
  | other d t other ih => rw [count_other other, offsets_other other, List.length_map, ih]

/-- The scan replaces a word at every offset where it stands, and nothing else. -/
lemma replace_eq_replaceAt (once : c ∉ w) (r t : Text) :
    replace (c :: w) r t = replaceAt (c :: w).length r (offsets (c :: w) t) t := by
  induction t using word_induction (List.cons_ne_nil c w) with
  | nil => rfl
  | word t ih =>
    have behind := replaceAt_skip (c :: w).length r (offsets (c :: w) t) (c :: w) t
    rw [replace_word (List.cons_ne_nil c w), offsets_word once, ih, replaceAt_cons, behind, Nat.zero_add,
      List.take_zero, List.nil_append, List.drop_left]
  | other d t other ih =>
    rw [replace_other other, offsets_other other, ih]
    exact (replaceAt_skip (c :: w).length r (offsets (c :: w) t) [d] t).symm

end Text

namespace Rule.Timestamp

/-- The clock rule hits as often as readings are counted. -/
lemma hits_apply (t : Text) : (apply t).hits = Text.count localClock t := by
  unfold apply
  split
  · next none => exact none.symm
  · next n some => exact some.symm

/-- The first letter of a reading does not come in it again. -/
lemma once_localClock : 'D' ∉ "ateTime.Now".toList := by decide

/-- The clock rule replaces the readings that it counts, also if there are none. -/
lemma textAfter_eq_replace (t : Text) :
    (apply t).textAfter t = Text.replace localClock universalClock t := by
  have counted := Text.count_eq_length_offsets once_localClock t
  unfold apply
  split
  · next none =>
    have nowhere : Text.offsets localClock t = [] := List.length_eq_zero_iff.1 (counted.symm.trans none)
    have same := Text.replace_eq_replaceAt once_localClock universalClock t
    exact (same.trans (congrArg (Text.replaceAt _ universalClock · t) nowhere)).symm
  · rfl

/-- The clock rule hits as often as the local clock is read, and reads the universal clock at exactly
these places: each of them makes the text three bytes longer. No reading of the local clock is left, so
that the rule leaves its own result alone. -/
theorem normalizes_clock (t : Text) :
    (apply t).hits = (Text.offsets localClock t).length ∧
    (apply t).textAfter t =
      Text.replaceAt localClock.length universalClock (Text.offsets localClock t) t ∧
    ¬ localClock <:+: (apply t).textAfter t ∧
    Text.byteLength ((apply t).textAfter t) = Text.byteLength t + 3 * (apply t).hits ∧
    apply ((apply t).textAfter t) = .abstained .nothingToDo := by
  have gone : ¬ localClock <:+: (apply t).textAfter t := not_localClock_timestamp t
  refine ⟨?_, ?_, gone, ?_, ?_⟩
  · rw [hits_apply]
    exact Text.count_eq_length_offsets once_localClock t
  · rw [textAfter_eq_replace]
    exact Text.replace_eq_replaceAt once_localClock universalClock t
  · rw [hits_apply, textAfter_eq_replace]
    exact Text.byteLength_replace (by decide) (by decide) t
  · rw [apply, (Text.count_eq_zero_iff (by decide)).2 gone]

/-- A reading inside a longer word counts, and readings may follow one another. -/
example : apply "DateTime.NowDateTime.NowOffset" =
    .edited "DateTime.UtcNowDateTime.UtcNowOffset" 2 := by decide

end Rule.Timestamp

end Mender
