import Mender.Proofs.Rule.Nesting
import Mender.Proofs.Text.Bytes

/-!
# The brace that closes a block

Seen in bytes, the brace that closes a block is the first closing one with as many braces closed as opened
before it (`ClosesBlock`), and that is where the body of the block ends (`closesBlock_append_iff`). The search
for it can be done with a counter of open blocks, which never has to be taken down from zero
(`seekClosing_eq`). So the search finds just that brace if the block is closed at all, it finds it between two
characters, and the body of a controller is the text up to it (`closing_brace_exact`).
-/

namespace Mender.Rule.Logger

open Text

variable {front rest b : Text} {c : Char} {p : Nat}

/-- The byte offset of the brace that closes the block with a given byte offset in it. -/
def closingOffset? (t : Text) (start : Nat) : Option Nat :=
  (splitBytes? start t).bind fun (_, rest) =>
    (closingBrace? 0 rest).map fun i => start + byteLength (rest.take i)

/-! ## The place in bytes -/

/-- How often the byte of an ASCII character is found from one byte offset to another. -/
def countBetween (c : Char) (t : Text) (i j : Nat) : Nat := (bytesBetween t i j).count c.toUInt8

/-- The byte at `p` is the brace that closes the block with the byte offset `start` in it: between the two as
many braces are closed as opened, and nowhere on the way have more been closed. -/
structure ClosesBlock (t : Text) (start p : Nat) : Prop where
  behind : start ≤ p
  brace : (bytes t)[p]? = some closeBrace.toUInt8
  level : countBetween openBrace t start p = countBetween closeBrace t start p
  within : ∀ q ≤ p, countBetween closeBrace t start q ≤ countBetween openBrace t start q

/-- An opening brace is one byte. -/
lemma openBrace_lt : openBrace.toNat < 128 := by decide

/-- A closing brace is one byte. -/
lemma closeBrace_lt : closeBrace.toNat < 128 := by decide

/-- An ASCII character comes as often among the bytes of a part as in the part. -/
lemma countBetween_append (ascii : c.toNat < 128) (front b rest : Text) :
    countBetween c (front ++ (b ++ rest)) (byteLength front) (byteLength front + byteLength b) =
      List.count c b := by
  rw [countBetween, bytesBetween_append, count_bytes ascii]

/-- Bytes and characters say alike that a text closes no block from outside it. -/
lemma within_iff_countBetween (front b rest : Text) : Within 0 b ↔
    ∀ q ≤ byteLength front + byteLength b,
      countBetween closeBrace (front ++ (b ++ rest)) (byteLength front) q ≤
        countBetween openBrace (front ++ (b ++ rest)) (byteLength front) q := by
  constructor
  · intro within q le
    obtain ⟨y, pre, same⟩ := exists_prefix_take_bytes b (q - byteLength front)
    rw [countBetween, countBetween, bytesBetween_of_le le, same _ openBrace_lt, same _ closeBrace_lt]
    exact within y pre
  · rintro within y ⟨z, rfl⟩
    rw [byteLength_append, ← Nat.add_assoc] at within
    have bound := within (byteLength front + byteLength y) (Nat.le_add_right _ _)
    rw [List.append_assoc, countBetween_append openBrace_lt, countBetween_append closeBrace_lt] at bound
    exact bound

/-- Seen in bytes, a block is closed where its body ends. -/
lemma closesBlock_append_iff : ClosesBlock (front ++ rest) (byteLength front) p ↔
    ∃ b, blockBody? 0 rest = some b ∧ byteLength front + byteLength b = p := by
  constructor
  · rintro ⟨behind, brace, level, within⟩
    obtain ⟨x, z, eq, rfl⟩ := exists_append_of_getElem? closeBrace_lt brace
    obtain ⟨b, rfl, rfl⟩ := exists_append_of_byteLength_le eq behind
    rw [byteLength_append] at level within ⊢
    rw [countBetween_append openBrace_lt, countBetween_append closeBrace_lt] at level
    rw [← within_iff_countBetween] at within
    exact ⟨b, blockBody?_eq_some_iff.2 ⟨⟨z, rfl⟩, level.symm, within⟩, rfl⟩
  · rintro ⟨b, body, rfl⟩
    obtain ⟨⟨z, rfl⟩, level, within⟩ := blockBody?_eq_some_iff.1 body
    refine ⟨Nat.le_add_right _ _, ?_, ?_, (within_iff_countBetween front b _).1 within⟩
    · rw [← List.append_assoc, ← byteLength_append]
      exact getElem?_bytes_append closeBrace_lt (front ++ b) z
    · rw [countBetween_append openBrace_lt, countBetween_append closeBrace_lt]
      exact level.symm

/-! ## Counting open blocks -/

/-- What is wrong with a counter. -/
inductive CounterFault where
  /-- It stands at zero and cannot be taken down. -/
  | belowZero
deriving DecidableEq, Repr

/-- Takes a counter down by one. -/
def takeDown : Nat → Except CounterFault Nat
  | 0 => .error .belowZero
  | n + 1 => .ok n

/-- Searches for a closing brace with a counter of open blocks, the one to be closed among them, and with the
byte offset of what is left to read. -/
def seekClosing : (count offset : Nat) → Text → Except CounterFault (Option Nat)
  | _, _, [] => .ok none
  | n, offset, c :: t =>
    if c = openBrace then seekClosing (n + 1) (offset + c.utf8Size) t
    else if c = closeBrace then do
      let n ← takeDown n
      if n = 0 then return some offset
      seekClosing n (offset + c.utf8Size) t
    else seekClosing n (offset + c.utf8Size) t

/-- The counter goes on with the next depth, or stops where there is none. -/
lemma seekClosing_cons (depth offset : Nat) (c : Char) (t : Text) : seekClosing (depth + 1) offset (c :: t) =
    match nextDepth? depth c with
    | none => .ok (some offset)
    | some depth => seekClosing (depth + 1) (offset + c.utf8Size) t := by
  unfold nextDepth?
  rw [seekClosing]
  split
  · rfl
  · split
    · cases depth with
      | zero => rfl
      | succ depth => rfl
    · rfl

/-- The counter is one above the number of inner blocks that are open. So it is never taken down from zero, and
it comes to zero at the brace that closes the block. -/
lemma seekClosing_eq (depth offset : Nat) (t : Text) : seekClosing (depth + 1) offset t =
    .ok ((blockBody? depth t).map fun b => offset + byteLength b) := by
  induction t generalizing depth offset with
  | nil => rfl
  | cons c t ih =>
    rw [seekClosing_cons, blockBody?_cons]
    cases nextDepth? depth c with
    | none => rfl
    | some depth =>
      dsimp only
      rw [ih, Option.map_map]
      congr 2
      funext b
      rw [Function.comp_apply, byteLength, Nat.add_assoc]

/-- The byte offset of the brace that closes a block, sought with a counter that begins at one. -/
def closingByCounter (t : Text) (start : Nat) : Except CounterFault (Option Nat) :=
  match splitBytes? start t with
  | none => .ok none
  | some (_, rest) => seekClosing 1 start rest

/-! ## The brace that is found -/

/-- A brace closes a block behind the bytes of the body. -/
lemma closingOffset?_append (front rest : Text) : closingOffset? (front ++ rest) (byteLength front) =
    (blockBody? 0 rest).map fun b => byteLength front + byteLength b := by
  rw [closingOffset?, splitBytes?_append, blockBody?, Option.map_map]
  rfl

/-- The counter is never taken below zero and finds the closing brace. -/
lemma closingByCounter_append (front rest : Text) : closingByCounter (front ++ rest) (byteLength front) =
    .ok (closingOffset? (front ++ rest) (byteLength front)) := by
  rw [closingByCounter, splitBytes?_append, closingOffset?_append]
  exact seekClosing_eq 0 (byteLength front) rest

/-- An offset is found exactly if it is that of the brace that closes the block. -/
lemma closingOffset?_eq_some_iff :
    closingOffset? (front ++ rest) (byteLength front) = some p ↔
      ClosesBlock (front ++ rest) (byteLength front) p := by
  rw [closingOffset?_append, closesBlock_append_iff, Option.map_eq_some_iff]

/-- The body of a controller is found from the byte offset of its place. -/
lemma body_of_blockBody? {c : Controller} (found : blockBody? 0 rest = some b)
    (inside : byteLength ((front ++ rest).take c.inside) = byteLength front) :
    body (front ++ rest) c = .ok b := by
  have whole := List.take_append_drop c.inside (front ++ rest)
  obtain ⟨a, before, behind⟩ := exists_append_of_byteLength_le whole.symm inside.ge
  rw [before, byteLength_append] at inside
  obtain rfl : a = [] := byteLength_eq_zero_iff.1 (by omega)
  rw [List.nil_append] at behind
  rw [body_eq, ← behind, found]

/-- The search for the brace that closes a block finds the one that closes it, and none if there is none. It
finds it between characters, so that the text up to it can be cut out, which is the body of a controller. And
a counter of open blocks that begins at one is never taken down from zero on the way. -/
theorem closing_brace_exact (t : Text) (start : Nat) (boundary : IsBoundary t start) :
    (∀ p, closingOffset? t start = some p ↔ ClosesBlock t start p) ∧
      (closingOffset? t start = none ↔ ∀ p, ¬ ClosesBlock t start p) ∧
      (∀ p, closingOffset? t start = some p → IsBoundary t p ∧ ∃ b, slice? t start p = some b ∧
        ∀ c : Controller, byteLength (t.take c.inside) = start → body t c = .ok b) ∧
      closingByCounter t start = .ok (closingOffset? t start) := by
  obtain ⟨front, rest, rfl, rfl⟩ := isBoundary_iff.1 boundary
  refine ⟨fun p => closingOffset?_eq_some_iff, ?_, ?_, closingByCounter_append front rest⟩
  · simp only [← closingOffset?_eq_some_iff]
    exact Option.eq_none_iff_forall_ne_some
  · intro p found
    rw [closingOffset?_append] at found
    obtain ⟨b, body, rfl⟩ := Option.map_eq_some_iff.1 found
    obtain ⟨z, rfl⟩ := eq_of_blockBody? body
    have between := isBoundary_iff.2 ⟨front ++ b, closeBrace :: z, (List.append_assoc _ _ _).symm, rfl⟩
    rw [byteLength_append] at between
    exact ⟨between, b, slice?_append front b _, fun c inside => body_of_blockBody? body inside⟩

/-- A block in which another one opens and closes, behind and around characters of two bytes. -/
def accentedBlock : Text := ['é', openBrace, 'é', closeBrace, closeBrace, 'é', closeBrace]

/-- In a block with an accented letter offsets are those of bytes. -/
theorem closing_brace_exact_accented :
    IsBoundary accentedBlock 2 ∧ ClosesBlock accentedBlock 2 6 ∧ ¬ ClosesBlock accentedBlock 2 5 ∧
      slice? accentedBlock 2 6 = some [openBrace, 'é', closeBrace] ∧
      closingByCounter accentedBlock 2 = .ok (some 6) := by
  have boundary : IsBoundary accentedBlock 2 := by decide
  have found : closingOffset? accentedBlock 2 = some 6 := by decide
  obtain ⟨closes, _, _, counted⟩ := closing_brace_exact accentedBlock 2 boundary
  refine ⟨boundary, (closes 6).1 found, ?_, by decide, counted.trans (congrArg _ found)⟩
  intro early
  exact absurd (found.symm.trans ((closes 5).2 early)) (by decide)

end Mender.Rule.Logger
