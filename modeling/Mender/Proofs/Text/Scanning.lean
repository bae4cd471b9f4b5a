import Mathlib.Data.List.Infix
import Mathlib.Tactic.Common
import Mender.Text.Scan

/-!
# Scanning step by step

At each place scanning either reads nothing and goes one character on (`scanFrom_miss`), or it reads an
occurrence and goes on behind it (`scanFrom_hit`). Every occurrence was read at its start and stops where
the rest begins (`readFrom_of_mem_scan`), so it ends inside the text (`of_mem_scan`).
-/

namespace Mender.Text

variable {α : Type} {anchorage : Anchorage} {r : Recognizer α} {pos skip : Nat} {fresh : Bool}
  {c d : Char} {t x rest : Text} {v : α}

/-- What a recogniser reads ends with a character that is no newline. -/
def Consumes (r : Recognizer α) : Prop :=
  ∀ ⦃t v rest⦄, r t = some (v, rest) → ∃ d, d ≠ '\n' ∧ d :: rest <:+ t

/-- What a recogniser reads ends with one character. -/
def EndsWith (r : Recognizer α) (d : Char) : Prop :=
  ∀ ⦃t v rest⦄, r t = some (v, rest) → d :: rest <:+ t

/-- A recogniser that ends with a character other than a newline consumes something. -/
lemma EndsWith.consumes (ends : EndsWith r d) (nl : d ≠ '\n') : Consumes r :=
  fun _ _ _ eq => ⟨d, nl, ends eq⟩

/-- What scanning reads at a place. -/
def readAt (anchorage : Anchorage) (r : Recognizer α) (fresh : Bool) (t : Text) : Option (α × Text) :=
  if anchorage.admits fresh then r t else none

/-- What is read at a place is what the recogniser reads there. -/
lemma eq_of_readAt (hit : readAt anchorage r fresh t = some (v, rest)) : r t = some (v, rest) := by
  unfold readAt at hit
  split at hit
  · exact hit
  · cases hit

/-- Where nothing is read a scan goes on behind the next character. -/
lemma scanFrom_miss (miss : readAt anchorage r fresh (c :: t) = none) :
    scanFrom anchorage r pos 0 fresh (c :: t) = scanFrom anchorage r (pos + 1) 0 (c == '\n') t := by
  unfold readAt at miss
  rw [scanFrom, miss]

/-- Skipping goes to the place behind what is skipped. -/
lemma scanFrom_skip : scanFrom anchorage r pos (x ++ [d]).length fresh (x ++ d :: t) =
    scanFrom anchorage r (pos + (x ++ [d]).length) 0 (d == '\n') t := by
  induction x generalizing pos fresh with
  | nil => rfl
  | cons c x ih =>
    rw [List.cons_append, List.cons_append, List.length_cons, scanFrom, ih]
    congr 1
    omega

/-- Where something is read a scan goes on behind it. -/
lemma scanFrom_hit (hit : readAt anchorage r fresh t = some (v, rest)) (nl : d ≠ '\n')
    (shape : t = x ++ d :: rest) : scanFrom anchorage r pos 0 fresh t =
      ⟨pos, pos + (x ++ [d]).length, v⟩ ::
        scanFrom anchorage r (pos + (x ++ [d]).length) 0 false rest := by
  have length : t.length - rest.length = (x ++ [d]).length := by
    rw [shape, List.append_cons, List.length_append, Nat.add_sub_cancel]
  unfold readAt at hit
  cases t with
  | nil => simp at shape
  | cons c t =>
    rw [scanFrom, hit]
    dsimp only
    rw [length]
    congr 1
    cases x with
    | nil =>
      obtain ⟨rfl, rfl⟩ := List.cons_eq_cons.1 shape
      rw [beq_false_of_ne nl]
      rfl
    | cons e x =>
      rw [List.cons_append] at shape
      obtain ⟨rfl, rfl⟩ := List.cons_eq_cons.1 shape
      rw [List.cons_append, List.length_cons, Nat.add_sub_cancel, scanFrom_skip, beq_false_of_ne nl]
      congr 1
      omega

/-! ## What readers leave -/

/-- What is left behind a word is an end of the text. -/
lemma suffix_of_after? {w : Text} (eq : after? w t = some rest) : rest <:+ t :=
  ⟨w, (after?_eq_some_iff.1 eq).symm⟩

/-- What is left behind blanks is an end of the text. -/
lemma suffix_of_afterBlanks? (eq : afterBlanks? t = some rest) : rest <:+ t := by
  unfold afterBlanks? at eq
  split at eq
  · obtain rfl := Option.some.inj eq
    exact List.dropWhile_suffix _
  · cases eq

/-- What is left behind a word and blanks is an end of the text. -/
lemma suffix_of_wordAndBlanks {w : Text} (eq : (after? w t).bind afterBlanks? = some rest) :
    rest <:+ t := by
  obtain ⟨u, word, blanks⟩ := Option.bind_eq_some_iff.1 eq
  exact (suffix_of_afterBlanks? blanks).trans (suffix_of_after? word)

/-! ## Occurrences -/

/-- An occurrence was read at its start, and stops where the rest begins. -/
structure ReadFrom (r : Recognizer α) (t : Text) (o : Occurrence α) : Prop where
  inside : o.start ≤ t.length
  read : ∃ rest, r (t.drop o.start) = some (o.value, rest) ∧
    o.stop = o.start + ((t.drop o.start).length - rest.length)

/-- What a scan from an offset finds was read where it says. -/
lemma readFrom_of_mem_scanFrom {whole : Text} {o : Occurrence α} (place : whole.drop pos = t)
    (inside : pos ≤ whole.length) (mem : o ∈ scanFrom anchorage r pos skip fresh t) :
    ReadFrom r whole o := by
  induction t generalizing pos skip fresh with
  | nil =>
    rw [scanFrom] at mem
    cases mem
  | cons c t ih =>
    have next : whole.drop (pos + 1) = t := by
      rw [← List.drop_drop, place, List.drop_succ_cons, List.drop_zero]
    have below : pos + 1 ≤ whole.length := by
      have length := congrArg List.length place
      rw [List.length_drop, List.length_cons] at length
      omega
    cases skip with
    | succ skip =>
      rw [scanFrom] at mem
      exact ih next below mem
    | zero =>
      rw [scanFrom] at mem
      split at mem
      · exact ih next below mem
      · next value rest hit =>
        rcases List.mem_cons.1 mem with rfl | mem
        · refine ⟨inside, rest, ?_, ?_⟩
          · rw [place]
            exact eq_of_readAt hit
          · rw [place]
        · exact ih next below mem

/-- What a scan finds was read where it says. -/
lemma readFrom_of_mem_scan {o : Occurrence α} (mem : o ∈ scan anchorage r t) : ReadFrom r t o :=
  readFrom_of_mem_scanFrom rfl (Nat.zero_le _) mem

/-- Every occurrence ends inside the text, and its value was read somewhere. -/
lemma of_mem_scan {o : Occurrence α} (mem : o ∈ scan anchorage r t) :
    o.stop ≤ t.length ∧ ∃ u rest, r u = some (o.value, rest) := by
  obtain ⟨inside, rest, read, stop⟩ := readFrom_of_mem_scan mem
  refine ⟨?_, _, rest, read⟩
  rw [stop, List.length_drop]
  omega

/-- Scanning by lines finds nothing when there is nothing to be read at the front, nor right behind a
newline. -/
lemma scanFrom_lineStart_eq_nil_iff (idle : r [] = none) :
    scanFrom .lineStart r pos 0 fresh t = [] ↔
      (fresh = true → r t = none) ∧ ∀ x y, t = x ++ '\n' :: y → r y = none := by
  induction t generalizing pos fresh with
  | nil => exact iff_of_true rfl ⟨fun _ => idle, fun x y eq => absurd eq.symm (by simp)⟩
  | cons c t ih =>
    cases hit : readAt .lineStart r fresh (c :: t) with
    | some found =>
      have read : fresh = true ∧ r (c :: t) = some found := by
        unfold readAt at hit
        rwa [Option.ite_none_right_eq_some] at hit
      unfold readAt at hit
      rw [scanFrom, hit]
      refine iff_of_false nofun fun none => ?_
      rw [none.1 read.1] at read
      cases read.2
    | none =>
      have miss : fresh = true → r (c :: t) = none := by
        rintro rfl
        exact hit
      rw [scanFrom_miss hit, ih, and_iff_right miss, beq_iff_eq]
      constructor
      · rintro ⟨next, later⟩ x y eq
        -- the newline of the split is the character just passed, or lies in what is still to be scanned
        cases x with
        | nil =>
          obtain ⟨rfl, rfl⟩ := List.cons_eq_cons.1 eq
          exact next rfl
        | cons d x => exact later x y (List.cons_eq_cons.1 eq).2
      · intro none
        refine ⟨?_, fun x y eq => none (c :: x) y (congrArg _ eq)⟩
        rintro rfl
        exact none [] t rfl

end Mender.Text
