import Mathlib.Data.List.Infix
import Mathlib.Tactic.Common
import Mender.Text.Basic

/-!
# Texts as bytes

A text can be cut between characters only (`splitBytes?`, `isBoundary_iff`), and of two places between
characters the one with more bytes before it is behind the other (`exists_append_of_byteLength_le`). A
character of the ASCII range is one byte, and no other character has that byte in it (`toUInt8_mem_iff`). So
these characters stand where their bytes do (`exists_append_of_getElem?`), and counting the one comes to
counting the other (`count_bytes`), also up to the middle of a character (`exists_prefix_take_bytes`).
-/

namespace Mender.Text

variable {t x x' y y' : Text} {b : UInt8} {c d : Char} {n : Nat}

/-! ## Places between characters -/

/-- Cuts a text behind its first `n` bytes, if a character ends there. -/
def splitBytes? : (n : Nat) → Text → Option (Text × Text)
  | 0, t => some ([], t)
  | _ + 1, [] => none
  | n + 1, c :: t =>
    if c.utf8Size ≤ n + 1 then (splitBytes? (n + 1 - c.utf8Size) t).map fun (x, y) => (c :: x, y)
    else none

/-- The text between two byte offsets, if it begins and ends between characters. -/
def slice? (t : Text) (i j : Nat) : Option Text :=
  if i ≤ j then (splitBytes? i t).bind fun (_, y) => (splitBytes? (j - i) y).map (·.1) else none

/-- The bytes of texts put together add up. -/
lemma byteLength_append (x t : Text) : byteLength (x ++ t) = byteLength x + byteLength t := by
  induction x with
  | nil => exact (Nat.zero_add _).symm
  | cons c x ih => rw [List.cons_append, byteLength, byteLength, ih, Nat.add_assoc]

/-- Only the empty text has no bytes. -/
lemma byteLength_eq_zero_iff : byteLength x = 0 ↔ x = [] := by
  cases x with
  | nil => exact ⟨fun _ => rfl, fun _ => rfl⟩
  | cons c x =>
    have pos := c.utf8Size_pos
    rw [byteLength]
    exact ⟨fun zero => by omega, nofun⟩

/-- Of two places of a text, the one with more bytes before it is behind the other. -/
lemma exists_append_of_byteLength_le (eq : x ++ y = x' ++ y') (le : byteLength x ≤ byteLength x') :
    ∃ a, x' = x ++ a ∧ y = a ++ y' := by
  rcases List.append_eq_append_iff.1 eq with ⟨a, front, rest⟩ | ⟨a, rfl, rest⟩
  · exact ⟨a, front, rest⟩
  · rw [byteLength_append] at le
    obtain rfl : a = [] := byteLength_eq_zero_iff.1 (by omega)
    exact ⟨[], by rw [List.append_nil, List.append_nil], rest.symm⟩

/-- A text can be cut behind the bytes of a front. -/
lemma splitBytes?_append (x y : Text) : splitBytes? (byteLength x) (x ++ y) = some (x, y) := by
  induction x with
  | nil => rw [byteLength, splitBytes?, List.nil_append]
  | cons c x ih =>
    obtain ⟨k, size⟩ := Nat.exists_eq_add_one.2 c.utf8Size_pos
    have bytes : byteLength (c :: x) = k + byteLength x + 1 := by
      rw [byteLength, size]
      omega
    have rest : k + byteLength x + 1 - c.utf8Size = byteLength x := by omega
    rw [bytes, List.cons_append, splitBytes?, if_pos (by omega), rest, ih]
    rfl

/-- The text between the bytes of a part is the part. -/
lemma slice?_append (x y z : Text) :
    slice? (x ++ (y ++ z)) (byteLength x) (byteLength x + byteLength y) = some y := by
  rw [slice?, if_pos (Nat.le_add_right _ _), splitBytes?_append, Nat.add_sub_cancel_left]
  dsimp only [Option.bind_some]
  rw [splitBytes?_append]
  rfl

/-! ## Bytes of characters -/

/-- The bytes of a text, one after another. -/
def bytes (t : Text) : List UInt8 := (toBytes t).data.toList

/-- A byte offset is between two characters of a text, before the first or behind the last one. -/
def IsBoundary (t : Text) (n : Nat) : Prop := String.Pos.Raw.IsValid (String.ofList t) ⟨n⟩

instance : Decidable (IsBoundary t n) := inferInstanceAs (Decidable (String.Pos.Raw.IsValid _ _))

/-- The bytes of a text from one byte offset to another. -/
def bytesBetween (t : Text) (i j : Nat) : List UInt8 := ((bytes t).take j).drop i

/-- The bytes of a text are those of its characters. -/
lemma bytes_eq_flatMap (t : Text) : bytes t = t.flatMap String.utf8EncodeChar := by
  rw [bytes, toBytes, String.toUTF8_eq_toByteArray, String.toByteArray_ofList, List.utf8Encode,
    List.data_toByteArray]

/-- The bytes of the first character come first. -/
lemma bytes_cons (c : Char) (t : Text) : bytes (c :: t) = String.utf8EncodeChar c ++ bytes t := by
  rw [bytes_eq_flatMap, bytes_eq_flatMap, List.flatMap_cons]

/-- The bytes of texts put together come one after another. -/
lemma bytes_append (x y : Text) : bytes (x ++ y) = bytes x ++ bytes y := by
  rw [bytes_eq_flatMap, bytes_eq_flatMap, bytes_eq_flatMap, List.flatMap_append]

/-- A text has as many bytes as it is long in bytes. -/
lemma length_bytes (t : Text) : (bytes t).length = byteLength t := by
  induction t with
  | nil =>
    rw [bytes_eq_flatMap]
    rfl
  | cons c t ih => rw [bytes_cons, List.length_append, String.length_utf8EncodeChar, ih, byteLength]

/-- The byte offsets between characters are the numbers of bytes of the fronts of a text. -/
lemma isBoundary_iff : IsBoundary t n ↔ ∃ x y, t = x ++ y ∧ n = byteLength x := by
  have size (x : Text) : (String.ofList x).utf8ByteSize = byteLength x := by
    rw [← length_bytes, bytes, Array.length_toList, toBytes, String.toUTF8_eq_toByteArray]
    exact String.size_toByteArray.symm
  rw [IsBoundary, String.Pos.Raw.isValid_ofList]
  constructor
  · rintro ⟨i, eq⟩
    exact ⟨t.take i, t.drop i, (List.take_append_drop i t).symm, eq.trans (size _)⟩
  · rintro ⟨x, y, rfl, rfl⟩
    exact ⟨x.length, by rw [List.take_left, size]⟩

/-- Up to an offset in a part there are the first bytes of the part. -/
lemma bytesBetween_of_le (le : n ≤ byteLength x + byteLength y) (z : Text) :
    bytesBetween (x ++ (y ++ z)) (byteLength x) n = (bytes y).take (n - byteLength x) := by
  have short : n - (bytes x).length ≤ (bytes y).length := by
    rw [length_bytes, length_bytes]
    omega
  rw [bytesBetween, bytes_append, bytes_append, ← length_bytes, List.drop_take, List.drop_left,
    List.take_append_of_le_length short]

/-- Between the ends of a part there are its bytes. -/
lemma bytesBetween_append (x y z : Text) :
    bytesBetween (x ++ (y ++ z)) (byteLength x) (byteLength x + byteLength y) = bytes y := by
  rw [bytesBetween_of_le (Nat.le_refl _), Nat.add_sub_cancel_left, ← length_bytes, List.take_length]

/-- An ASCII character is one byte. -/
lemma utf8EncodeChar_of_lt (ascii : c.toNat < 128) : String.utf8EncodeChar c = [c.toUInt8] :=
  if_pos (Nat.le_of_lt_succ ascii)

/-- A character behind the ASCII range has no byte of that range in it. -/
lemma le_of_mem_utf8EncodeChar (wide : 128 ≤ c.toNat) (mem : b ∈ String.utf8EncodeChar c) :
    128 ≤ b.toNat := by
  have not : ¬ c.val.toNat ≤ 127 := Nat.not_le.2 wide
  simp only [String.utf8EncodeChar, if_neg not] at mem
  -- two, three or four bytes, each of them at least 128 more than a remainder
  split at mem
  · simp only [List.mem_cons, List.not_mem_nil, or_false] at mem
    rcases mem with rfl | rfl <;> (rw [UInt8.toNat_ofNat']; omega)
  · split at mem
    · simp only [List.mem_cons, List.not_mem_nil, or_false] at mem
      rcases mem with rfl | rfl | rfl <;> (rw [UInt8.toNat_ofNat']; omega)
    · simp only [List.mem_cons, List.not_mem_nil, or_false] at mem
      rcases mem with rfl | rfl | rfl | rfl <;> (rw [UInt8.toNat_ofNat']; omega)

/-- The byte of an ASCII character is its code. -/
lemma toNat_toUInt8 (ascii : c.toNat < 128) : c.toUInt8.toNat = c.toNat := by
  have small : c.val.toNat < 2 ^ 8 := ascii.trans (by decide)
  exact (UInt32.toNat_toUInt8 c.val).trans (Nat.mod_eq_of_lt small)

/-- A character of the ASCII range is the one that has its byte. -/
lemma toUInt8_mem_iff (ascii : d.toNat < 128) : d.toUInt8 ∈ String.utf8EncodeChar c ↔ c = d := by
  constructor
  · intro mem
    rcases Nat.lt_or_ge c.toNat 128 with small | wide
    · rw [utf8EncodeChar_of_lt small, List.mem_singleton] at mem
      have same := congrArg UInt8.toNat mem
      rw [toNat_toUInt8 ascii, toNat_toUInt8 small] at same
      exact Char.toNat_inj.1 same.symm
    · have le := le_of_mem_utf8EncodeChar wide mem
      rw [toNat_toUInt8 ascii] at le
      exact absurd le (Nat.not_le.2 ascii)
  · rintro rfl
    rw [utf8EncodeChar_of_lt ascii]
    exact List.mem_singleton_self _

/-- The byte of an ASCII character is in no other character. -/
lemma count_utf8EncodeChar (ascii : d.toNat < 128) (c : Char) :
    (String.utf8EncodeChar c).count d.toUInt8 = [c].count d := by
  by_cases same : c = d
  · subst same
    rw [utf8EncodeChar_of_lt ascii, List.count_singleton_self, List.count_singleton_self]
  · rw [List.count_eq_zero_of_not_mem (mt (toUInt8_mem_iff ascii).1 same),
      List.count_eq_zero_of_not_mem (mt List.mem_singleton.1 (Ne.symm same))]

/-- An ASCII character comes as often as its byte. -/
lemma count_bytes (ascii : d.toNat < 128) (t : Text) : (bytes t).count d.toUInt8 = List.count d t := by
  induction t with
  | nil =>
    rw [bytes_eq_flatMap]
    rfl
  | cons c t ih =>
    rw [bytes_cons, List.count_append, count_utf8EncodeChar ascii, ih, ← List.count_append,
      List.singleton_append]

/-- The first bytes of a text have as many ASCII characters in them as some front of the text: the one
without the character that they end in. -/
lemma exists_prefix_take_bytes (t : Text) (n : Nat) : ∃ x, x <+: t ∧
    ∀ d : Char, d.toNat < 128 → ((bytes t).take n).count d.toUInt8 = List.count d x := by
  induction t generalizing n with
  | nil =>
    refine ⟨[], List.prefix_refl _, fun d _ => ?_⟩
    rw [bytes_eq_flatMap, List.flatMap_nil, List.take_nil]
    rfl
  | cons c t ih =>
    rcases Nat.lt_or_ge n (String.utf8EncodeChar c).length with inside | whole
    · refine ⟨[], List.nil_prefix, fun d ascii => ?_⟩
      rw [bytes_cons, List.take_append_of_le_length inside.le, List.count_nil, List.count_eq_zero]
      intro mem
      -- a character with this byte has no other one, and not even that is taken
      obtain rfl := (toUInt8_mem_iff ascii).1 (List.mem_of_mem_take mem)
      rw [utf8EncodeChar_of_lt ascii, List.length_singleton, Nat.lt_one_iff] at inside
      rw [inside] at mem
      cases mem
    · obtain ⟨x, pre, same⟩ := ih (n - (String.utf8EncodeChar c).length)
      refine ⟨c :: x, List.cons_prefix_cons.2 ⟨rfl, pre⟩, fun d ascii => ?_⟩
      rw [bytes_cons, List.take_append, List.take_of_length_le whole, List.count_append, same d ascii,
        count_utf8EncodeChar ascii, ← List.count_append, List.singleton_append]

/-- Where the byte of an ASCII character is, the character stands. -/
lemma exists_append_of_getElem? (ascii : d.toNat < 128) (eq : (bytes t)[n]? = some d.toUInt8) :
    ∃ x y, t = x ++ d :: y ∧ n = byteLength x := by
  induction t generalizing n with
  | nil =>
    rw [bytes_eq_flatMap] at eq
    cases eq
  | cons c t ih =>
    rw [bytes_cons] at eq
    rcases Nat.lt_or_ge n (String.utf8EncodeChar c).length with inside | behind
    · rw [List.getElem?_append_left inside] at eq
      obtain rfl := (toUInt8_mem_iff ascii).1 (List.mem_of_getElem? eq)
      rw [utf8EncodeChar_of_lt ascii, List.length_singleton, Nat.lt_one_iff] at inside
      exact ⟨[], t, rfl, inside⟩
    · rw [List.getElem?_append_right behind] at eq
      obtain ⟨x, y, rfl, length⟩ := ih eq
      rw [String.length_utf8EncodeChar] at behind length
      refine ⟨c :: x, y, rfl, ?_⟩
      rw [byteLength]
      omega

/-- The byte of an ASCII character stands behind the bytes before it. -/
lemma getElem?_bytes_append (ascii : d.toNat < 128) (x y : Text) :
    (bytes (x ++ d :: y))[byteLength x]? = some d.toUInt8 := by
  rw [bytes_append, bytes_cons, utf8EncodeChar_of_lt ascii, ← length_bytes,
    List.getElem?_append_right (Nat.le_refl _), Nat.sub_self]
  rfl

end Mender.Text
