import Mender.Proofs.Diff.Hunks
import Mender.Proofs.Json.Reading

/-!
# Applying unified diffs

A unified diff is read line by line (`items?`) and applied to the old lines (`patch`): the lines up to
where a hunk begins are copied, and the lines that a hunk keeps or deletes have to be there. The diff from
one text to another is read as the lines of its hunks (`items?_unified`), and it turns the one text into
the other (`patched?_unified`).

How many lines a hunk has is taken from the hunk and not from its heading, since an insertion that a hunk
ends with can be wrong about where it stands. `counts` reads what the headings say about it.
-/

namespace Mender.Diff

/-! ## Reading and applying -/

/-- What becomes of a line. -/
inductive Mark where
  | kept
  | deleted
  | inserted
deriving DecidableEq

/-- The character in front of a line. -/
def Mark.char : Mark → Char
  | .kept => ' '
  | .deleted => '-'
  | .inserted => '+'

/-- A line of a diff below the names of the files. -/
inductive Item where
  /-- Where a hunk begins in the old and the new lines, and how many of them it is said to have. -/
  | heading (old new : Nat × Nat)
  | line (m : Mark) (text : Text)
deriving DecidableEq

/-- Reads a range of lines: the place where it begins, counted from zero, and its length. -/
def readRange (t : Text) : Option ((Nat × Nat) × Text) :=
  match Json.readNumber t with
  | none => none
  | some (n, ',' :: t) =>
    (Json.readNumber t).map fun (len, t) => ((if len = 0 then n else n - 1, len), t)
  | some (n, t) => some ((n - 1, 1), t)

/-- Reads the heading of a hunk. -/
def heading? (t : Text) : Option Item := do
  let (old, t) ← readRange (← Text.after? "@@ -" t)
  let (new, t) ← readRange (← Text.after? " +" t)
  if t = " @@\n".toList then some (.heading old new) else none

/-- Reads a line of a diff. -/
def item? : Text → Option Item
  | ' ' :: l => some (.line .kept l)
  | '-' :: l => some (.line .deleted l)
  | '+' :: l => some (.line .inserted l)
  | l => heading? l

/-- What stands below a line that has no terminator. -/
def note : Text := "\\ No newline at end of file\n"

/-- Reads the lines of a diff from the last one up, and whether a note waits for its line. -/
def readItems : List Text → Option (Bool × List Item)
  | [] => some (false, [])
  | l :: ls => do
    let (cut, items) ← readItems ls
    if l = note then some (true, items)
    else (item? (if cut then l.dropLast else l)).map fun item => (false, item :: items)

/-- The names of the files at the top of a diff. -/
def names (path : Text) : Text := "--- " ++ path ++ "\n+++ " ++ path ++ "\n"

/-- Reads a diff for a file. -/
def items? (path diff : Text) : Option (List Item) :=
  if diff = [] then some []
  else do
    match ← readItems (lines (← Text.after? (names path) diff)) with
    | (false, items) => some items
    | (true, _) => none

/-- Applies the lines of a diff to the old lines from `pos` on. -/
def patch : (pos : Nat) → (rest : List Text) → List Item → Option (List Text)
  | _, rest, [] => some rest
  | pos, rest, .heading (start, _) _ :: items =>
    if pos ≤ start ∧ start - pos ≤ rest.length then
      (patch start (rest.drop (start - pos)) items).map (rest.take (start - pos) ++ ·)
    else none
  | pos, rest, .line .inserted l :: items => (patch pos rest items).map (l :: ·)
  | _, [], .line _ _ :: _ => none
  | pos, l' :: rest, .line .kept l :: items =>
    if l' = l then (patch (pos + 1) rest items).map (l :: ·) else none
  | pos, l' :: rest, .line .deleted l :: items =>
    if l' = l then patch (pos + 1) rest items else none

/-- The text that a diff for a file turns its text into. -/
def patched? (path diff old : Text) : Option Text := do
  let items ← items? path diff
  (patch 0 (lines old) items).map List.flatten

/-- How many old and new lines stand above the first heading, unless a heading is wrong about how many
stand below it. -/
def counts : List Item → Option (Nat × Nat)
  | [] => some (0, 0)
  | .heading (_, o) (_, n) :: items => if counts items = some (o, n) then some (0, 0) else none
  | .line .kept _ :: items => (counts items).map fun (o, n) => (o + 1, n + 1)
  | .line .deleted _ :: items => (counts items).map fun (o, n) => (o + 1, n)
  | .line .inserted _ :: items => (counts items).map fun (o, n) => (o, n + 1)

/-- The text that a diff turns a text into, for a reader who goes by the numbers of lines in its
headings. -/
def patchedByCount? (path diff old : Text) : Option Text := do
  let items ← items? path diff
  let _ ← counts items
  patched? path diff old

/-- The lines of a range, each with a mark. -/
def markedItems (m : Mark) (ls : Array Text) (range : Nat × Nat) : List Item :=
  (ls.extract range.1 range.2).toList.map (.line m)

/-- A change as lines of a diff. -/
def Change.items (old new : Array Text) (c : Change) : List Item :=
  match c with
  | .keep _ _ _ => markedItems .kept old c.oldRange
  | _ => markedItems .deleted old c.oldRange ++ markedItems .inserted new c.newRange

/-- A hunk as lines of a diff. -/
def Hunk.items (old new : Array Text) (h : Hunk) : List Item :=
  let (o, n) := Hunk.ranges h
  .heading (o.1, o.2 - o.1) (n.1, n.2 - n.1) :: h.flatMap (Change.items old new)

variable {old new : Array Text} {i j i' j' l : Nat} {items : List Item} {t rest line : Text} {m : Mark}
  {c : Change} {cs : List Change} {h : Hunk} {hs : List Hunk}

/-! ## Lines -/

/-- A text without line feeds and carriage returns. -/
def Plain (t : Text) : Prop := ∀ c ∈ t, c ≠ '\n' ∧ c ≠ '\r'

instance : DecidablePred Plain := List.decidableBAll fun c => c ≠ '\n' ∧ c ≠ '\r'

/-- A text that is one line with its terminator. -/
def Closed (line : Text) : Prop :=
  ∃ body stop, Plain body ∧ stop ∈ ["\n".toList, "\r".toList, "\r\n".toList] ∧ line = body ++ stop

/-- A character that ends no line may stand in front of a plain text. -/
lemma Plain.cons {a : Char} (plain : Plain t) (feed : a ≠ '\n') (carriage : a ≠ '\r') : Plain (a :: t) :=
  List.forall_mem_cons.2 ⟨⟨feed, carriage⟩, plain⟩

/-- A character that ends no line may stand in front of a closed line. -/
lemma Closed.cons {a : Char} (closed : Closed line) (feed : a ≠ '\n') (carriage : a ≠ '\r') :
    Closed (a :: line) := by
  obtain ⟨body, stop, plain, mem, rfl⟩ := closed
  exact ⟨a :: body, stop, plain.cons feed carriage, mem, rfl⟩

/-- Plain texts put together are plain. -/
lemma Plain.append (plain : Plain t) (plain' : Plain rest) : Plain (t ++ rest) :=
  List.forall_mem_append.2 ⟨plain, plain'⟩

/-- A newline closes a plain text. -/
lemma Plain.closed (plain : Plain line) : Closed (line ++ ['\n']) :=
  ⟨line, ['\n'], plain, List.mem_cons_self, rfl⟩

/-- A closed line has a terminator. -/
lemma Closed.isTerminated (closed : Closed line) : isTerminated line = true := by
  obtain ⟨body, stop, -, mem, rfl⟩ := closed
  simp only [List.mem_cons, List.not_mem_nil, or_false] at mem
  rcases mem with rfl | rfl | rfl
  all_goals
    rw [Diff.isTerminated, List.getLast?_append]
    rfl

/-- A plain text has no terminator. -/
lemma Plain.not_isTerminated (plain : Plain line) : isTerminated line = false := by
  rw [Diff.isTerminated]
  cases last : line.getLast? with
  | none => rfl
  | some a =>
    obtain ⟨feed, carriage⟩ := plain a (List.mem_of_getLast? last)
    simp [feed, carriage]

/-- The lines of a text have a terminator each, or else nothing like it. -/
lemma closed_or_plain_of_mem_lines (mem : line ∈ lines t) : Closed line ∨ Plain line := by
  fun_induction lines t generalizing line with
  | case1 => cases mem
  | case2 t ih =>
    rcases List.mem_cons.1 mem with rfl | mem
    · exact .inl ⟨[], "\r\n".toList, List.forall_mem_nil _, by simp, rfl⟩
    · exact ih mem
  | case3 a t _ stop ih =>
    rcases List.mem_cons.1 mem with rfl | mem
    · refine .inl ⟨[], [a], List.forall_mem_nil _, ?_, rfl⟩
      rcases stop with rfl | rfl <;> simp
    · exact ih mem
  | case4 a t _ other none ih =>
    obtain ⟨feed, carriage⟩ := not_or.1 other
    obtain rfl := List.mem_singleton.1 mem
    exact .inr (Plain.cons (List.forall_mem_nil _) feed carriage)
  | case5 a t _ other line' ls eq ih =>
    obtain ⟨feed, carriage⟩ := not_or.1 other
    rw [eq] at ih
    rcases List.mem_cons.1 mem with rfl | mem
    · exact (ih List.mem_cons_self).imp (·.cons feed carriage) (·.cons feed carriage)
    · exact ih (List.mem_cons_of_mem _ mem)

/-- A terminated line is the first line of a text that goes on with something else than a line feed. -/
lemma lines_append (closed : Closed line) (apart : rest.head? ≠ some '\n') :
    lines (line ++ rest) = line :: lines rest := by
  obtain ⟨body, stop, plain, mem, rfl⟩ := closed
  induction body with
  | nil =>
    simp only [List.mem_cons, List.not_mem_nil, or_false] at mem
    rcases mem with rfl | rfl | rfl
    · rfl
    · cases rest with
      | nil => rfl
      | cons a rest =>
        have feed : a ≠ '\n' := fun eq => apart (congrArg some eq)
        change lines ('\r' :: a :: rest) = ['\r'] :: lines (a :: rest)
        rw [lines, if_pos (.inr rfl)]
        rintro _ _ eq
        cases eq
        exact feed rfl
    · rfl
  | cons a body ih =>
    obtain ⟨⟨feed, carriage⟩, plain⟩ := List.forall_mem_cons.1 plain
    rw [List.cons_append, List.cons_append, lines, if_neg (not_or.2 ⟨feed, carriage⟩), ih plain]
    rintro _ rfl
    exact absurd rfl carriage

/-! ## Reading a diff back -/

/-- A text is read as lines of a diff. -/
structure Reads (t : Text) (items : List Item) : Prop where
  apart : t.head? ≠ some '\n'
  read : readItems (lines t) = some (false, items)

/-- No text is read as no lines of a diff. -/
lemma reads_nil : Reads [] [] := ⟨nofun, rfl⟩

/-- A line behind a mark is read as that line with that mark. -/
lemma item?_mark (m : Mark) (line : Text) : item? (m.char :: line) = some (.line m line) := by
  cases m <;> rfl

/-- A line that is not the note is read together with the lines below it. -/
lemma readItems_cons {ls : List Text} {cut : Bool} {item : Item} (other : line.head? ≠ some '\\')
    (below : readItems ls = some (cut, items))
    (read : item? (if cut then line.dropLast else line) = some item) :
    readItems (line :: ls) = some (false, item :: items) := by
  have ne : line ≠ note := by
    rintro rfl
    exact other rfl
  rw [readItems, below]
  simp only [Option.bind_eq_bind, Option.bind_some, if_neg ne, read]
  rfl

/-- The character of a mark ends no line and does not begin a note. -/
lemma Mark.char_ne (m : Mark) : m.char ≠ '\n' ∧ m.char ≠ '\r' ∧ m.char ≠ '\\' := by
  cases m <;> decide

/-- A marked line is read as the line with its mark, with a note below it if it has no terminator. -/
lemma reads_markedLine (m : Mark) (whole : Closed line ∨ Plain line) (reads : Reads t items) :
    Reads (markedLine m.char line ++ t) (.line m line :: items) := by
  obtain ⟨feed, carriage, slash⟩ := m.char_ne
  have head : ∀ {s : Text}, (m.char :: s).head? ≠ some '\n' := fun eq => feed (Option.some.inj eq)
  have other : ∀ {s : Text}, (m.char :: s).head? ≠ some '\\' := fun eq => slash (Option.some.inj eq)
  rw [markedLine]
  rcases whole with closed | plain
  · rw [if_pos closed.isTerminated]
    refine ⟨head, ?_⟩
    rw [lines_append (closed.cons feed carriage) reads.apart]
    exact readItems_cons other reads.read (item?_mark m line)
  -- a line feed and the note stand behind the line, and reading the note takes the line feed away again
  · rw [if_neg (ne_true_of_eq_false plain.not_isTerminated)]
    refine ⟨head, ?_⟩
    have closed : Closed (m.char :: line ++ ['\n']) := (plain.cons feed carriage).closed
    have below : readItems (lines (note ++ t)) = some (true, items) := by
      have closed : Closed note :=
        ⟨"\\ No newline at end of file".toList, ['\n'], by decide, by decide, rfl⟩
      rw [lines_append closed reads.apart, readItems, reads.read]
      rfl
    have text : m.char :: line ++ "\n\\ No newline at end of file\n".toList ++ t =
        m.char :: line ++ ['\n'] ++ (note ++ t) := by
      rw [List.append_assoc, List.append_assoc]
      rfl
    have apart : (note ++ t).head? ≠ some '\n' := fun eq => absurd (Option.some.inj eq) (by decide)
    rw [text, lines_append closed apart]
    refine readItems_cons other below ?_
    rw [if_pos rfl, List.dropLast_concat]
    exact item?_mark m line

/-- Marked lines one after another are read one after another. -/
lemma reads_markedLines (m : Mark) (ls : List Text) (whole : ∀ line ∈ ls, Closed line ∨ Plain line)
    (reads : Reads t items) :
    Reads (ls.flatMap (markedLine m.char) ++ t) (ls.map (.line m) ++ items) := by
  induction ls with
  | nil => exact reads
  | cons line ls ih =>
    obtain ⟨first, whole⟩ := List.forall_mem_cons.1 whole
    rw [List.flatMap_cons, List.append_assoc]
    exact reads_markedLine m first (ih whole)

/-- A number is read back from its digits. -/
lemma readNumber_ofNat (n : Nat) (stops : Json.Stops rest) :
    Json.readNumber (Text.ofNat n ++ rest) = some (n, rest) :=
  Json.readNumber_of_numeral (Json.numeral_ofNat n) stops

/-- The place where a range of lines begins and its length are read off its text. -/
lemma readRange_rangeText (start stop : Nat) (blank : rest.head? = some ' ') :
    readRange (rangeText start stop ++ rest) = some ((start, stop - start), rest) := by
  have stops : Json.Stops rest := by
    intro c first
    obtain rfl := Option.some.inj (blank.symm.trans first)
    rfl
  have comma : ∀ s, Json.Stops (',' :: s) := by
    intro s c first
    cases first
    rfl
  -- a range is spelled as one number, or as two with a comma between them
  have pair : ∀ n len, readRange (Text.ofNat n ++ (',' :: (Text.ofNat len ++ rest))) =
      some ((if len = 0 then n else n - 1, len), rest) := by
    intro n len
    rw [readRange, readNumber_ofNat n (comma _)]
    simp only [readNumber_ofNat len stops, Option.map_some]
  have single : ∀ n, readRange (Text.ofNat n ++ rest) = some ((n - 1, 1), rest) := by
    intro n
    rw [readRange, readNumber_ofNat n stops]
    cases rest with
    | nil => rfl
    | cons c rest =>
      obtain rfl := Option.some.inj blank
      rfl
  rw [rangeText]
  split
  · next none =>
    rw [none, List.append_assoc]
    exact pair start 0
  · next one =>
    rw [one]
    exact single (start + 1)
  · next none one =>
    rw [List.append_assoc, List.append_assoc]
    exact (pair (start + 1) (stop - start)).trans (by rw [if_neg none]; rfl)

/-- The digits of a number are plain. -/
lemma plain_ofNat (n : Nat) : Plain (Text.ofNat n) := by
  intro c mem
  have digit := (Json.numeral_ofNat n).digits c mem
  constructor
  · rintro rfl
    cases digit
  · rintro rfl
    cases digit

/-- A range as it is written is plain. -/
lemma plain_rangeText (start stop : Nat) : Plain (rangeText start stop) := by
  rw [rangeText]
  split
  · exact (plain_ofNat _).append (by decide)
  · exact plain_ofNat _
  · exact ((plain_ofNat _).append (by decide)).append (plain_ofNat _)

/-- The heading of a hunk is read as where its ranges begin and how long they are. -/
lemma heading?_ranges (a b c d : Nat) :
    heading? ("@@ -" ++ rangeText a b ++ " +" ++ rangeText c d ++ " @@\n") =
      some (.heading (a, b - a) (c, d - c)) := by
  have first : Text.after? "@@ -" ("@@ -" ++ rangeText a b ++ " +" ++ rangeText c d ++ " @@\n") =
      some (rangeText a b ++ (" +" ++ (rangeText c d ++ " @@\n"))) :=
    Text.after?_eq_some_iff.2 (by simp only [List.append_assoc])
  have second : Text.after? " +" (" +" ++ (rangeText c d ++ " @@\n")) =
      some (rangeText c d ++ " @@\n") := Text.after?_eq_some_iff.2 rfl
  have old : readRange (rangeText a b ++ (" +" ++ (rangeText c d ++ " @@\n"))) = some ((a, b - a), _) :=
    readRange_rangeText a b rfl
  have new : readRange (rangeText c d ++ " @@\n") = some ((c, d - c), _) := readRange_rangeText c d rfl
  rw [heading?]
  simp only [Option.bind_eq_bind, first, Option.bind_some, old, second, new, if_true]

/-- A heading in front of lines of a diff is read in front of them. -/
lemma reads_heading (a b c d : Nat) (reads : Reads t items) :
    Reads ("@@ -" ++ rangeText a b ++ " +" ++ rangeText c d ++ " @@\n" ++ t)
      (.heading (a, b - a) (c, d - c) :: items) := by
  have plain : Plain ("@@ -" ++ rangeText a b ++ " +" ++ rangeText c d ++ " @@") := by
    have front : Plain ("@@ -" ++ rangeText a b) := Plain.append (by decide) (plain_rangeText a b)
    have middle : Plain ("@@ -" ++ rangeText a b ++ " +") := front.append (by decide)
    exact (middle.append (plain_rangeText c d)).append (by decide)
  have closed : Closed ("@@ -" ++ rangeText a b ++ " +" ++ rangeText c d ++ " @@\n") := by
    have closed := plain.closed
    rw [List.append_assoc _ _ ['\n']] at closed
    exact closed
  refine ⟨fun eq => absurd (Option.some.inj eq) (by decide), ?_⟩
  rw [lines_append closed reads.apart]
  refine readItems_cons (fun eq => absurd (Option.some.inj eq) (by decide)) reads.read ?_
  exact heading?_ranges a b c d

/-- Each line of an array is one line. -/
def Lined (ls : Array Text) : Prop := ∀ line ∈ ls, Closed line ∨ Plain line

/-- The lines of a text are lined. -/
lemma lined_lines (t : Text) : Lined (lines t).toArray := fun _ mem =>
  closed_or_plain_of_mem_lines (List.mem_toArray.1 mem)

/-- The marked lines of a range are read as its lines, each with that mark. -/
lemma reads_range {ls : Array Text} (m : Mark) (lined : Lined ls) (range : Nat × Nat)
    (reads : Reads t items) :
    Reads (markedLines m.char ls range ++ t) (markedItems m ls range ++ items) := by
  refine reads_markedLines m _ (fun line mem => lined line ?_) reads
  rw [Array.toList_extract] at mem
  exact Array.mem_toList_iff.1 (List.mem_of_mem_drop (List.mem_of_mem_take mem))

section reading

variable (before : Lined old) (after : Lined new)
include before after

/-- A rendered change is read as its lines. -/
lemma reads_change (c : Change) (reads : Reads t items) :
    Reads (c.render old new ++ t) (c.items old new ++ items) := by
  have replaced : Reads (markedLines '-' old c.oldRange ++ markedLines '+' new c.newRange ++ t)
      (markedItems .deleted old c.oldRange ++ markedItems .inserted new c.newRange ++ items) := by
    rw [List.append_assoc, List.append_assoc]
    exact reads_range .deleted before _ (reads_range .inserted after _ reads)
  cases c with
  | keep o n l => exact reads_range .kept before _ reads
  | delete o n l => exact replaced
  | insert o n l => exact replaced
  | replace o l n k => exact replaced

/-- A rendered hunk is read as its heading and its lines. -/
lemma reads_hunk (h : Hunk) (reads : Reads t items) :
    Reads (Hunk.render old new h ++ t) (Hunk.items old new h ++ items) := by
  have body : Reads (h.flatMap (Change.render old new) ++ t)
      (h.flatMap (Change.items old new) ++ items) := by
    induction h with
    | nil => exact reads
    | cons c cs ih =>
      rw [List.flatMap_cons, List.flatMap_cons, List.append_assoc, List.append_assoc]
      exact reads_change before after c ih
  have whole := reads_heading (Hunk.ranges h).1.1 (Hunk.ranges h).1.2 (Hunk.ranges h).2.1
    (Hunk.ranges h).2.2 body
  rw [← List.append_assoc] at whole
  exact whole

/-- Rendered hunks one after another are read one after another. -/
lemma reads_hunks (hs : List Hunk) :
    Reads (hs.flatMap (Hunk.render old new)) (hs.flatMap (Hunk.items old new)) := by
  induction hs with
  | nil => exact reads_nil
  | cons h hs ih => exact reads_hunk before after h ih

end reading

/-- The diff from one text to another is read as the lines of its hunks. -/
lemma items?_unified (path before after : Text) :
    items? path (unified path before after) = some ((hunks (changes (lines before).toArray
      (lines after).toArray)).flatMap (Hunk.items (lines before).toArray (lines after).toArray)) := by
  have reads := reads_hunks (lined_lines before) (lined_lines after)
    (hunks (changes (lines before).toArray (lines after).toArray))
  unfold unified
  cases all : hunks (changes (lines before).toArray (lines after).toArray) with
  | nil =>
    simp only [all]
    rfl
  | cons h hs =>
    rw [all] at reads
    simp only [all]
    generalize (h :: hs).flatMap (Hunk.render (lines before).toArray (lines after).toArray) = body
      at reads ⊢
    have behind : Text.after? (names path) (names path ++ body) = some body :=
      Text.after?_eq_some_iff.2 rfl
    change items? path (names path ++ body) = _
    rw [items?, if_neg nofun]
    simp only [Option.bind_eq_bind, behind, Option.bind_some, reads.read]

/-! ## Applying a diff to the old lines -/

section applying

variable {pos : Nat} {above below ls rest : List Text}

/-- Kept lines have to be there and stay. -/
lemma patch_kept (same : patch (pos + ls.length) rest items = some below) :
    patch pos (ls ++ rest) (ls.map (.line .kept) ++ items) = some (ls ++ below) := by
  induction ls generalizing pos with
  | nil => exact same
  | cons line ls ih =>
    rw [List.length_cons, Nat.add_comm ls.length, ← Nat.add_assoc] at same
    rw [List.cons_append, List.map_cons, List.cons_append, patch, if_pos rfl, ih same]
    rfl

/-- Deleted lines have to be there and go. -/
lemma patch_deleted (same : patch (pos + ls.length) rest items = some below) :
    patch pos (ls ++ rest) (ls.map (.line .deleted) ++ items) = some below := by
  induction ls generalizing pos with
  | nil => exact same
  | cons line ls ih =>
    rw [List.length_cons, Nat.add_comm ls.length, ← Nat.add_assoc] at same
    rw [List.cons_append, List.map_cons, List.cons_append, patch, if_pos rfl, ih same]

/-- Inserted lines come in where the patch stands. -/
lemma patch_inserted (same : patch pos rest items = some below) :
    patch pos rest (ls.map (.line .inserted) ++ items) = some (ls ++ below) := by
  induction ls with
  | nil => exact same
  | cons line ls ih =>
    rw [List.map_cons, List.cons_append, patch, ih]
    rfl

/-- The old lines up to where a hunk begins stay. -/
lemma patch_heading {start len : Nat} {n : Nat × Nat} (begins : start = pos + ls.length)
    (same : patch (pos + ls.length) rest items = some below) :
    patch pos (ls ++ rest) (.heading (start, len) n :: items) = some (ls ++ below) := by
  have skipped : start - pos = ls.length := by omega
  rw [patch, skipped, if_pos, begins, List.drop_left, List.take_left, same]
  · rfl
  · rw [List.length_append]
    omega

end applying

/-- Lines of a diff turn the old lines from `i` on into the new lines from `j` on. -/
def Patches (old new : Array Text) (i j : Nat) (items : List Item) : Prop :=
  patch i (old.toList.drop i) items = some (new.toList.drop j)

/-- The lines of a range. -/
lemma toList_extract (ls : Array Text) (i l : Nat) :
    (ls.extract i (i + l)).toList = (ls.toList.drop i).take l := by
  rw [Array.toList_extract, List.extract_eq_take_drop, Nat.add_sub_cancel_left]

/-- Lines from a place on are the next ones and those behind them. -/
lemma drop_eq (ls : Array Text) (i l : Nat) :
    ls.toList.drop i = (ls.extract i (i + l)).toList ++ ls.toList.drop (i + l) := by
  rw [toList_extract, ← List.drop_drop, List.take_append_drop]

/-- A range inside of the lines has as many lines as it is long. -/
lemma length_extract {ls : Array Text} (le : i + l ≤ ls.size) :
    (ls.extract i (i + l)).toList.length = l := by
  rw [Array.length_toList, Array.size_extract]
  omega

/-- Runs of old and new lines that are the same have the same lines. -/
lemma Same.extract (same : Same old new i j l) :
    (old.extract i (i + l)).toList = (new.extract j (j + l)).toList := by
  rw [toList_extract, toList_extract]
  refine List.ext_getElem? fun u => ?_
  rw [List.getElem?_take, List.getElem?_take]
  split
  · next lt =>
    rw [List.getElem?_drop, List.getElem?_drop, Array.getElem?_toList, Array.getElem?_toList]
    exact same u lt
  · rfl

/-- Without lines of a diff the rest of the old lines has to be the rest of the new ones. -/
lemma patches_nil (same : Same old new i j l) (stop : i + l = old.size) (stop' : j + l = new.size) :
    Patches old new i j [] := by
  have rest : old.toList.drop (i + l) = [] := List.drop_eq_nil_of_le (Nat.le_of_eq stop.symm)
  have rest' : new.toList.drop (j + l) = [] := List.drop_eq_nil_of_le (Nat.le_of_eq stop'.symm)
  rw [Patches, patch, drop_eq old i l, drop_eq new j l, same.extract, rest, rest']

/-- A heading may stand behind old lines that are also the next new ones. -/
lemma patches_heading {start len : Nat} {n : Nat × Nat} (same : Same old new i j l)
    (le : i + l ≤ old.size) (begins : start = i + l) (patches : Patches old new (i + l) (j + l) items) :
    Patches old new i j (.heading (start, len) n :: items) := by
  have length := length_extract le
  rw [Patches, drop_eq old i l, drop_eq new j l, ← same.extract]
  refine patch_heading ?_ ?_
  · rw [length, begins]
  · rw [length]
    exact patches

/-- Kept lines lead from a place to the place behind them on both sides. -/
lemma patches_kept (same : Same old new i j l) (le : i + l ≤ old.size)
    (patches : Patches old new (i + l) (j + l) items) :
    Patches old new i j (markedItems .kept old (i, i + l) ++ items) := by
  rw [Patches, drop_eq old i l, drop_eq new j l, ← same.extract]
  refine patch_kept ?_
  rw [length_extract le]
  exact patches

/-- Deleted lines lead past them on the old side. -/
lemma patches_deleted (le : i + l ≤ old.size) (patches : Patches old new (i + l) j items) :
    Patches old new i j (markedItems .deleted old (i, i + l) ++ items) := by
  rw [Patches, drop_eq old i l]
  refine patch_deleted ?_
  rw [length_extract le]
  exact patches

/-- Inserted lines lead past them on the new side. -/
lemma patches_inserted (patches : Patches old new i (j + l) items) :
    Patches old new i j (markedItems .inserted new (j, j + l) ++ items) := by
  rw [Patches, drop_eq new j l]
  exact patch_inserted patches

/-- An empty range has no lines. -/
lemma markedItems_empty (m : Mark) (ls : Array Text) (i : Nat) : markedItems m ls (i, i) = [] := by
  change ((ls.extract i (i + 0)).toList).map (Item.line m) = []
  rw [toList_extract, List.take_zero, List.map_nil]

/-- A change leads from the place where it begins to the place where it ends. -/
lemma patches_change (covers : Covers old new i j c i' j') (le : i' ≤ old.size)
    (patches : Patches old new i' j' items) : Patches old new i j (c.items old new ++ items) := by
  cases covers with
  | keep same => exact patches_kept same le patches
  | @delete n l =>
    change Patches old new i j
      (markedItems .deleted old (i, i + l) ++ markedItems .inserted new (n, n) ++ items)
    rw [markedItems_empty, List.append_nil]
    exact patches_deleted le patches
  | @insert o l =>
    change Patches old new i j
      (markedItems .deleted old (o, o) ++ markedItems .inserted new (j, j + l) ++ items)
    rw [markedItems_empty, List.nil_append]
    exact patches_inserted patches
  | @replace l k =>
    change Patches old new i j
      (markedItems .deleted old (i, i + l) ++ markedItems .inserted new (j, j + k) ++ items)
    rw [List.append_assoc]
    exact patches_deleted le (patches_inserted patches)

/-- So do changes one after another. -/
lemma patches_changes (spans : Spans old new i j cs i' j') (le : i' ≤ old.size)
    (patches : Patches old new i' j' items) :
    Patches old new i j (cs.flatMap (Change.items old new) ++ items) := by
  induction spans with
  | nil => exact patches
  | cons covers spans ih =>
    rw [List.flatMap_cons, List.append_assoc]
    exact patches_change covers (Nat.le_trans spans.le.1 le) (ih le patches)

/-- Hunks that fit turn the old lines into the new ones. -/
lemma patches_hunks (fits : Fits old new i j hs) :
    Patches old new i j (hs.flatMap (Hunk.items old new)) := by
  induction fits with
  | nil same stop stop' => exact patches_nil same stop stop'
  | cons same start spans fits ih =>
    have le := fits.le_size.1
    rw [List.flatMap_cons, Hunk.items, List.cons_append]
    exact patches_heading same (Nat.le_trans spans.le.1 le) start (patches_changes spans le ih)

/-- The diff from one text to another turns the one into the other. -/
lemma patched?_unified (path before after : Text) :
    patched? path (unified path before after) before = some after := by
  have applied := patches_hunks (fits_hunks (lines before).toArray (lines after).toArray)
  rw [patched?, items?_unified, Option.bind_eq_bind, Option.bind_some]
  rw [Patches, List.drop_zero, List.drop_zero] at applied
  rw [applied, Option.map_some, flatten_lines]

end Mender.Diff
