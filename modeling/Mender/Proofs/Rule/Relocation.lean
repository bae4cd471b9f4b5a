import Mender.Proofs.Rule.Universal

/-!
# Places in universal time

An offset of a text comes to be at another one in universal time (`moved`). A recogniser that reads the same in
both texts and never begins inside of a clock's name (`Steady`) is found at the places that its occurrences
have moved to (`scan_utc`). What is put in where no reading of the clock is broken can be put in before or after
the clocks are changed (`utc_applyAll`).
-/

namespace Mender

namespace Text

variable {α : Type} {anchorage : Anchorage} {r : Recognizer α} {w x t : Text} {c : Char} {pos skip k : Nat}
  {fresh : Bool}

/-- An occurrence so many characters further on. -/
def Occurrence.later (k : Nat) (o : Occurrence α) : Occurrence α := ⟨k + o.start, k + o.stop, o.value⟩

/-- A scan that starts further on finds the same further on. -/
lemma scanFrom_add (k : Nat) : scanFrom anchorage r (k + pos) skip fresh t =
    (scanFrom anchorage r pos skip fresh t).map (.later k) := by
  induction t generalizing pos skip fresh with
  | nil =>
    rw [scanFrom, scanFrom]
    rfl
  | cons c t ih =>
    cases skip with
    | succ skip => rw [scanFrom, scanFrom, Nat.add_assoc, ih]
    | zero =>
      rw [scanFrom, scanFrom]
      split
      · rw [Nat.add_assoc, ih]
      · dsimp only
        rw [Nat.add_assoc k pos 1, ih, Nat.add_assoc k pos]
        rfl

/-- A scan that starts at some offset finds what a scan from the top does, so much further on. -/
lemma scanFrom_later (k : Nat) :
    scanFrom anchorage r k skip fresh t = (scanFrom anchorage r 0 skip fresh t).map (.later k) := by
  rw [← scanFrom_add, Nat.add_zero]

/-- Nothing is found where nothing can begin. -/
lemma scanFrom_quiet (quiet : ∀ c ∈ x, ∀ t, r (c :: t) = none) (nl : '\n' ∉ x) (ne : x ≠ []) (t : Text) :
    scanFrom anchorage r pos 0 fresh (x ++ t) = scanFrom anchorage r (pos + x.length) 0 false t := by
  induction x generalizing pos fresh with
  | nil => exact absurd rfl ne
  | cons c x ih =>
    have miss : readAt anchorage r fresh (c :: (x ++ t)) = none := by
      unfold readAt
      rw [quiet c List.mem_cons_self, ite_self]
    have ne_nl : (c == '\n') = false := beq_false_of_ne fun same => nl (same ▸ List.mem_cons_self)
    rw [List.cons_append, scanFrom_miss miss, ne_nl]
    rcases eq_or_ne x [] with rfl | ne
    · rfl
    · have rest : ∀ c ∈ x, ∀ t, r (c :: t) = none := fun c mem => quiet c (List.mem_cons_of_mem _ mem)
      rw [ih rest (fun mem => nl (List.mem_cons_of_mem _ mem)) ne, List.length_cons]
      congr 1
      omega

/-- No word runs over the seam behind a character that begins none. -/
lemma seam_of_other (not : ¬ w <+: c :: t) : Seam w [c] t := by
  rintro a b rfl ne_a _ suffix pre
  obtain rfl | whole := List.suffix_cons_iff.1 suffix
  · exact not ((List.prefix_cons_inj c).2 pre)
  · exact ne_a (List.suffix_nil.1 whole)

end Text

namespace Rule.Timestamp

open Text Logger

variable {t x y : Text} {i j : Nat}

/-! ## Offsets -/

/-- Where an offset of a text comes to be in universal time. -/
def moved (t : Text) (i : Nat) : Nat := (utc (t.take i)).length

/-- The start of a text stays its start. -/
@[simp] lemma moved_zero (t : Text) : moved t 0 = 0 := rfl

/-- The end of a front comes to the end of the front in universal time. -/
lemma moved_append (x y : Text) : moved (x ++ y) x.length = (utc x).length := by rw [moved, List.take_left]

/-- Where an offset comes to be depends on what stands before it. -/
lemma moved_of_le (le : i ≤ x.length) (y : Text) : moved (x ++ y) i = moved x i := by
  rw [moved, moved, List.take_append_of_le_length le]

/-- Behind a place that breaks no reading of the clock, offsets move on by as much as what is before it grows. -/
lemma moved_add (unbroken : Unbroken localClock t i) (j : Nat) :
    moved t (i + j) = moved t i + moved (t.drop i) j := by
  have seam := unbroken.mono (List.suffix_refl _) (List.take_prefix j (t.drop i))
  rw [moved, List.take_add, utc_append seam, List.length_append, moved, moved]

/-- Behind a seam offsets move on by as much as the front has become longer. -/
lemma moved_append_add (seam : Seam localClock x y) (j : Nat) :
    moved (x ++ y) (x.length + j) = (utc x).length + moved y j := by
  have unbroken : Unbroken localClock (x ++ y) x.length := by rwa [Unbroken, List.take_left, List.drop_left]
  rw [moved_add unbroken, moved_append, List.drop_left]

/-- A text changes on both sides of an offset that is in no reading. -/
lemma utc_eq_append (unbroken : Unbroken localClock t i) : utc t = utc (t.take i) ++ utc (t.drop i) := by
  rw [← utc_append unbroken, List.take_append_drop]

/-- The front of a text in universal time is the front of the text, in universal time. -/
lemma take_moved (unbroken : Unbroken localClock t i) : (utc t).take (moved t i) = utc (t.take i) := by
  rw [utc_eq_append unbroken, moved, List.take_left]

/-- The rest of a text in universal time is the rest of the text, in universal time. -/
lemma drop_moved (unbroken : Unbroken localClock t i) : (utc t).drop (moved t i) = utc (t.drop i) := by
  rw [utc_eq_append unbroken, moved, List.drop_left]

/-- Offsets stay in their order. -/
lemma moved_lt (unbroken : Unbroken localClock t i) (lt : i < j) (inside : j ≤ t.length) :
    moved t i < moved t j := by
  obtain ⟨k, rfl⟩ := Nat.exists_eq_add_of_le lt
  have more : utc ((t.drop i).take (1 + k)) ≠ [] := by
    intro none
    have length := congrArg List.length (utc_eq_nil_iff.1 none)
    rw [List.length_take, List.length_drop, List.length_nil] at length
    omega
  rw [Nat.succ_eq_add_one, Nat.add_assoc, moved_add unbroken]
  exact Nat.lt_add_of_pos_right (List.length_pos_iff.2 more)

/-- Offsets that break no reading of the clock keep their order. -/
lemma moved_le_iff (unbroken : Unbroken localClock t i) (unbroken' : Unbroken localClock t j)
    (inside : i ≤ t.length) (inside' : j ≤ t.length) : moved t i ≤ moved t j ↔ i ≤ j := by
  rcases Nat.lt_trichotomy i j with lt | rfl | gt
  · exact iff_of_true (Nat.le_of_lt (moved_lt unbroken lt inside')) (Nat.le_of_lt lt)
  · exact iff_of_true (Nat.le_refl _) (Nat.le_refl _)
  · exact iff_of_false (Nat.not_le_of_lt (moved_lt unbroken' gt inside)) (Nat.not_le_of_lt gt)

/-! ## Scanning -/

variable {α : Type} {r : Recognizer α} {f : α → α} {d : Char} {anchorage : Anchorage}

/-- A recogniser that reads the same in universal time, up to a change of its value, that begins nowhere inside
of a clock's name and stops at a character that is not in one. -/
structure Steady (r : Recognizer α) (f : α → α) (d : Char) : Prop where
  read : ∀ t, r (utc t) = (r t).map (Prod.map f utc)
  quiet : ∀ c ∈ universalClock, ∀ t, r (c :: t) = none
  ends : EndsWith r d
  stop : d ∉ universalClock
  nl : d ≠ '\n'

/-- An occurrence in a text as it is found in universal time. -/
def relocate (f : α → α) (t : Text) (o : Occurrence α) : Occurrence α :=
  ⟨moved t o.start, moved t o.stop, f o.value⟩

/-- Occurrences behind a seam are found in universal time so much further on as the front has become longer.
-/
lemma map_relocate_later (seam : Seam localClock x y) (os : List (Occurrence α)) :
    (os.map (.later x.length)).map (relocate f (x ++ y)) =
      (os.map (relocate f y)).map (.later (utc x).length) := by
  rw [List.map_map, List.map_map]
  refine List.map_congr_left fun o _ => ?_
  simp only [Function.comp, relocate, Occurrence.later, moved_append_add seam]

/-- If scanning goes on alike behind a seam, what is found there has moved. -/
lemma scanFrom_moved {fresh : Bool} (seam : Seam localClock x y)
    (rest : scanFrom anchorage r 0 0 fresh (utc y) = (scanFrom anchorage r 0 0 fresh y).map (relocate f y)) :
    scanFrom anchorage r (utc x).length 0 fresh (utc y) =
      (scanFrom anchorage r x.length 0 fresh y).map (relocate f (x ++ y)) := by
  rw [scanFrom_later, rest, scanFrom_later x.length, map_relocate_later seam]

/-- A steady recogniser reads the same wherever it may begin. -/
lemma Steady.readAt_utc (steady : Steady r f d) (fresh : Bool) (t : Text) :
    readAt anchorage r fresh (utc t) = (readAt anchorage r fresh t).map (Prod.map f utc) := by
  unfold readAt
  split
  · exact steady.read t
  · rfl

/-- A steady scan finds the same in universal time, where it has come to be. -/
lemma Steady.scanFrom_utc (steady : Steady r f d) (fresh : Bool) (t : Text) :
    scanFrom anchorage r 0 0 fresh (utc t) = (scanFrom anchorage r 0 0 fresh t).map (relocate f t) := by
  -- behind an occurrence scanning goes on with the rest, so the induction is on the length
  induction size : t.length using Nat.strongRecOn generalizing t fresh with
  | ind size ih =>
    subst size
    by_cases front : localClock <+: t
    · obtain ⟨y, rfl⟩ := front
      have quiet := fun c mem => steady.quiet c (localClock_subset mem)
      have shorter : y.length < (localClock ++ y).length := by
        rw [List.length_append]
        exact Nat.lt_add_of_pos_left (by decide)
      have name : utc localClock = universalClock := by decide
      rw [utc_word, scanFrom_quiet quiet (by decide) (by decide),
        scanFrom_quiet steady.quiet (by decide) (by decide), Nat.zero_add, Nat.zero_add, ← name]
      exact scanFrom_moved (seam_self once_localClock y) (ih y.length shorter false y rfl)
    have hit' : readAt anchorage r fresh (utc t) = _ := steady.readAt_utc fresh t
    cases hit : readAt anchorage r fresh t with
    | none =>
      cases t with
      | nil => rfl
      | cons c y =>
        have one : utc [c] = [c] := utc_other fun pre => front (pre.trans (by simp))
        have rest := scanFrom_moved (seam_of_other front) (ih y.length (Nat.lt_succ_self _) (c == '\n') y rfl)
        rw [hit, utc_other front] at hit'
        rw [utc_other front, scanFrom_miss hit, scanFrom_miss hit']
        rwa [one] at rest
    | some found =>
      obtain ⟨v, z⟩ := found
      obtain ⟨x, rfl⟩ := steady.ends (eq_of_readAt hit)
      have stop : d ∉ localClock := fun mem => steady.stop (localClock_subset mem)
      have read : utc (x ++ [d]) = utc x ++ [d] := utc_append_cons stop x []
      have seam : Seam localClock (x ++ [d]) z := seam_of_last (List.getLast?_concat ..) fun mem =>
        stop (List.mem_of_mem_dropLast mem)
      have shorter : z.length < (x ++ d :: z).length := by
        rw [List.length_append, List.length_cons]
        omega
      have rest := scanFrom_moved seam (ih z.length shorter false z rfl)
      have at_stop := moved_append (x ++ [d]) z
      rw [hit, utc_append_cons stop] at hit'
      rw [read, List.append_assoc, List.singleton_append] at rest at_stop
      rw [utc_append_cons stop, scanFrom_hit hit steady.nl rfl, scanFrom_hit hit' steady.nl rfl, List.map_cons,
        relocate, Nat.zero_add, Nat.zero_add, rest, at_stop, moved_zero]

/-- The same for the scan of a whole text. -/
lemma Steady.scan_utc (steady : Steady r f d) (t : Text) :
    scan anchorage r (utc t) = (scan anchorage r t).map (relocate f t) := steady.scanFrom_utc true t

/-! ## Insertions -/

/-- What is put in at an offset of a text, as it is put in in universal time. -/
def resplice (t : Text) (s : Splice) : Splice := ⟨moved t s.offset, s.text⟩

variable {s : Splice} {places : List Splice}

/-- Putting in commutes with the change of clocks, at a harmless place and without readings in what is put in.
-/
lemma utc_insertAt (harmless : Harmless localClock t s) (plain : ¬ localClock <:+: s.text) :
    utc (insertAt s.offset s.text t) = insertAt (moved t s.offset) s.text (utc t) := by
  obtain ⟨_, unbroken, seals⟩ := harmless
  obtain ⟨c, head, not⟩ := seals.first
  have front : Seam localClock (t.take s.offset) (s.text ++ t.drop s.offset) :=
    seam_of_head (List.mem_head?_append_of_mem_head? head) not
  rw [insertAt, insertAt, take_moved unbroken, drop_moved unbroken, List.append_assoc, utc_append front,
    utc_append (seals.last _), utc_of_not_infix plain, List.append_assoc]

/-- So does putting in several texts, the last place first. -/
lemma utc_foldl_insertAt (sorted : places.Pairwise fun a b => b.offset ≤ a.offset)
    (harmless : ∀ s ∈ places, Harmless localClock t s) (plain : ∀ s ∈ places, ¬ localClock <:+: s.text) :
    utc (places.foldl (fun t s => insertAt s.offset s.text t) t) =
      (places.map (resplice t)).foldl (fun t s => insertAt s.offset s.text t) (utc t) := by
  induction places generalizing t with
  | nil => rfl
  | cons s places ih =>
    obtain ⟨later, sorted⟩ := List.pairwise_cons.1 sorted
    obtain ⟨harmless_s, harmless⟩ := List.forall_mem_cons.1 harmless
    obtain ⟨plain_s, plain⟩ := List.forall_mem_cons.1 plain
    have rest := ih sorted (fun s' mem => (harmless s' mem).insertAt harmless_s (later s' mem)) plain
    -- nothing before the offset changes, so the offsets before it move as they did
    have same : places.map (resplice (insertAt s.offset s.text t)) = places.map (resplice t) :=
      List.map_congr_left fun s' mem => by
        rw [resplice, resplice, moved, moved, take_insertAt (later s' mem) harmless_s.inside]
    rw [List.foldl_cons, rest, same, utc_insertAt harmless_s plain_s]
    rfl

/-- Texts are put in before or after the clocks are changed. -/
lemma utc_applyAll (harmless : ∀ s ∈ places, Harmless localClock t s)
    (plain : ∀ s ∈ places, ¬ localClock <:+: s.text) :
    utc (Splice.applyAll places t) = Splice.applyAll (places.map (resplice t)) (utc t) := by
  have order : (places.map (resplice t)).mergeSort (fun a b => decide (b.offset ≤ a.offset)) =
      (places.mergeSort fun a b => decide (b.offset ≤ a.offset)).map (resplice t) := by
    refine (List.map_mergeSort fun a mem_a b mem_b => ?_).symm
    obtain ⟨inside, unbroken, _⟩ := harmless a mem_a
    obtain ⟨inside', unbroken', _⟩ := harmless b mem_b
    exact (decide_eq_decide.2 (moved_le_iff unbroken' unbroken inside' inside)).symm
  unfold Splice.applyAll
  rw [order]
  exact utc_foldl_insertAt (sorted_places places) (fun s mem => harmless s (List.mem_mergeSort.1 mem))
    fun s mem => plain s (List.mem_mergeSort.1 mem)

end Rule.Timestamp

end Mender
