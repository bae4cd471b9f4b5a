import Mathlib.Data.List.Infix
import Mathlib.Tactic.Common
import Mender.Proofs.Text.Occurrence

/-!
# Line endings

A text is paired when every newline in it follows a carriage return. What matters of the text before a
place is one bit, whether it ends with a carriage return (`carry`), so pairing goes through a text from
left to right (`PairedAfter`) and is put together at a seam (`pairedAfter_append`). Texts go on behind a
seam as they did, if what is put in front ends with no carriage return (`Clear`, `paired_insertAt`).
-/

namespace Mender.Text

variable {w r s t x y : Text} {cr : Bool} {i j : Nat}

/-- Every newline of a text follows a carriage return. -/
def Paired (t : Text) : Prop := ∀ x y, t = x ++ '\n' :: y → x.getLast? = some '\r'

/-- Every newline of a text follows a carriage return, at a place that follows one itself or not. -/
def PairedAfter : (cr : Bool) → Text → Prop
  | _, [] => True
  | cr, c :: t => (c = '\n' → cr = true) ∧ PairedAfter (c == '\r') t

/-- Whether a carriage return comes last, at the end of a text that stands at a place that follows one
or not. -/
def carry (cr : Bool) (t : Text) : Bool := t.foldl (fun _ c => c == '\r') cr

/-- What comes last in two texts put together is read from the one and then from the other. -/
@[simp] lemma carry_append (cr : Bool) (x y : Text) : carry cr (x ++ y) = carry (carry cr x) y :=
  List.foldl_append

/-- A text that has a last character carries that one. -/
lemma carry_of_getLast? {c : Char} (last : x.getLast? = some c) : carry cr x = (c == '\r') := by
  obtain ⟨x, rfl⟩ := List.getLast?_eq_some_iff.1 last
  rw [carry_append]
  rfl

/-- From a fresh place a text carries a carriage return when it ends with one. -/
lemma carry_false_iff : carry false x = true ↔ x.getLast? = some '\r' := by
  cases last : x.getLast? with
  | none =>
    rw [List.getLast?_eq_none_iff.1 last]
    exact ⟨nofun, nofun⟩
  | some c => rw [carry_of_getLast? last, beq_iff_eq, Option.some.injEq]

/-- Texts put together are paired when the first one is, and the second one behind what it carries. -/
lemma pairedAfter_append : PairedAfter cr (x ++ y) ↔ PairedAfter cr x ∧ PairedAfter (carry cr x) y := by
  induction x generalizing cr with
  | nil => exact (and_iff_right trivial).symm
  | cons c x ih =>
    rw [List.cons_append, PairedAfter, PairedAfter, ih, and_assoc]
    rfl

/-- What is paired at any place is paired behind a carriage return. -/
lemma PairedAfter.of_false (paired : PairedAfter false t) : PairedAfter cr t := by
  cases t with
  | nil => trivial
  | cons c t => exact ⟨fun nl => absurd (paired.1 nl) (by decide), paired.2⟩

/-- A text without newline is paired everywhere. -/
lemma pairedAfter_of_notMem (nl : '\n' ∉ x) : PairedAfter cr x := by
  induction x generalizing cr with
  | nil => trivial
  | cons c x ih =>
    obtain ⟨ne, nl⟩ := not_or.1 (mt List.mem_cons.2 nl)
    exact ⟨fun eq => absurd eq.symm ne, ih nl⟩

/-- A text is paired when it is so from its start. -/
lemma paired_iff : Paired t ↔ PairedAfter false t := by
  constructor
  · intro paired
    -- of what is read, only its last character counts
    have run : ∀ z y, t = z ++ y → PairedAfter (carry false z) y := by
      intro z y
      induction y generalizing z with
      | nil => exact fun _ => trivial
      | cons c y ih =>
        intro eq
        refine ⟨?_, ?_⟩
        · rintro rfl
          exact carry_false_iff.2 (paired z y eq)
        · have rest := ih (z ++ [c]) (by rw [eq, List.append_assoc]; rfl)
          rw [carry_append] at rest
          exact rest
    exact run [] t rfl
  · rintro paired x y rfl
    exact carry_false_iff.1 ((pairedAfter_append.1 paired).2.1 rfl)

instance decidablePairedAfter : (cr : Bool) → DecidablePred (PairedAfter cr)
  | _, [] => isTrue trivial
  | cr, c :: t =>
    @instDecidableAnd (c = '\n' → cr = true) _ inferInstance (decidablePairedAfter (c == '\r') t)

instance : DecidablePred Paired := fun _ => decidable_of_iff _ paired_iff.symm

/-- A paired text that has a newline has the pair. -/
lemma Paired.has_pair (paired : Paired t) (nl : '\n' ∈ t) : "\r\n".toList <:+: t := by
  obtain ⟨x, y, rfl⟩ := List.append_of_mem nl
  obtain ⟨x, rfl⟩ := List.getLast?_eq_some_iff.1 (paired x y rfl)
  exact ⟨x, y, by simp⟩

/-! ## Insertions -/

/-- No carriage return stands right before an offset of a text. -/
def Clear (t : Text) (i : Nat) : Prop := i ≤ t.length ∧ carry false (t.take i) = false

/-- The start of a text is clear. -/
lemma clear_zero (t : Text) : Clear t 0 := ⟨Nat.zero_le _, rfl⟩

/-- A paired text put in at a clear place leaves a text paired. -/
lemma paired_insertAt (clear : Clear t i) (paired : Paired t) (inner : PairedAfter false s) :
    Paired (insertAt i s t) := by
  rw [paired_iff] at paired ⊢
  rw [← List.take_append_drop i t, pairedAfter_append, clear.2] at paired
  rw [insertAt, pairedAfter_append, pairedAfter_append, clear.2]
  exact ⟨⟨paired.1, inner⟩, paired.2.of_false⟩

/-- An insertion leaves alone what stands before it. -/
lemma take_insertAt (le : j ≤ i) (inside : i ≤ t.length) : (insertAt i s t).take j = t.take j := by
  rw [insertAt, List.append_assoc, List.take_append_of_le_length, List.take_take, Nat.min_eq_left le]
  rwa [List.length_take, Nat.min_eq_left inside]

/-- A place before an insertion stays clear. -/
lemma clear_insertAt (clear : Clear t j) (le : j ≤ i) (inside : i ≤ t.length) :
    Clear (insertAt i s t) j := by
  refine ⟨?_, by rw [take_insertAt le inside, clear.2]⟩
  rw [insertAt, List.length_append, List.length_append, List.length_take, List.length_drop]
  omega

/-- A character stands right before an offset of a text. -/
def Behind (t : Text) (d : Char) (i : Nat) : Prop := ∃ x y, t = x ++ d :: y ∧ i = x.length + 1

/-- A place behind another character than a carriage return is clear. -/
lemma Behind.clear {d : Char} (behind : Behind t d i) (ne : d ≠ '\r') : Clear t i := by
  obtain ⟨x, y, rfl, rfl⟩ := behind
  refine ⟨by simp, ?_⟩
  rw [List.append_cons, List.take_append_of_le_length (by simp), List.take_of_length_le (by simp),
    carry_of_getLast? List.getLast?_concat]
  exact beq_false_of_ne ne

/-- What stands before an offset of a part stands before the same offset of the whole. -/
lemma Behind.of_drop {d : Char} (behind : Behind x d i) (part : t.drop j = x ++ y) :
    Behind t d (j + i) := by
  obtain ⟨u, v, rfl, rfl⟩ := behind
  have inside : j ≤ t.length := by
    by_contra out
    rw [List.drop_of_length_le (Nat.le_of_not_le out)] at part
    simp at part
  refine ⟨t.take j ++ u, v ++ y, ?_, ?_⟩
  · calc t = t.take j ++ t.drop j := (List.take_append_drop j t).symm
      _ = (t.take j ++ u) ++ d :: (v ++ y) := by rw [part]; simp
  · rw [List.length_append, List.length_take, Nat.min_eq_left inside, Nat.add_assoc]

/-! ## Replacements -/

/-- A text on one line. -/
def OneLine (x : Text) : Prop := '\n' ∉ x ∧ '\r' ∉ x

instance : DecidablePred OneLine := fun x => inferInstanceAs (Decidable ('\n' ∉ x ∧ '\r' ∉ x))

/-- Texts on one line put together are on one line. -/
lemma OneLine.append (line : OneLine x) (line' : OneLine y) : OneLine (x ++ y) := by
  refine ⟨?_, ?_⟩
  · rw [List.mem_append, not_or]
    exact ⟨line.1, line'.1⟩
  · rw [List.mem_append, not_or]
    exact ⟨line.2, line'.2⟩

/-- A text on one line carries no carriage return. -/
lemma OneLine.carry (line : OneLine x) (ne : x ≠ []) : carry cr x = false := by
  rw [carry_of_getLast? (List.getLast?_eq_some_getLast ne)]
  apply beq_false_of_ne
  intro eq
  exact line.2 (eq ▸ List.getLast_mem ne)

/-- Replacing a word by another one, both on one line, keeps a text paired. -/
lemma pairedAfter_replace (ne : w ≠ []) (line : OneLine w) (ne' : r ≠ []) (line' : OneLine r)
    (paired : PairedAfter cr t) : PairedAfter cr (replace w r t) := by
  induction t using word_induction ne generalizing cr with
  | nil => trivial
  | word t ih =>
    rw [pairedAfter_append, line.carry ne] at paired
    rw [replace_word ne, pairedAfter_append, line'.carry ne']
    exact ⟨pairedAfter_of_notMem line'.1, ih paired.2⟩
  | other c t other ih =>
    rw [replace_other other]
    exact ⟨paired.1, ih paired.2⟩

/-- A character that is in neither word stays in a text or stays out of it. -/
lemma mem_replace_iff {c : Char} (ne : w ≠ []) (not : c ∉ w) (not' : c ∉ r) (t : Text) :
    c ∈ replace w r t ↔ c ∈ t := by
  induction t using word_induction ne with
  | nil => rfl
  | word t ih => rw [replace_word ne, List.mem_append, List.mem_append, ih, or_iff_right not, or_iff_right not']
  | other d t other ih => rw [replace_other other, List.mem_cons, List.mem_cons, ih]

end Mender.Text
