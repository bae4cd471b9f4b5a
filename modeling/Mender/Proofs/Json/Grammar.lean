import Mathlib.Data.List.Basic
import Mathlib.Tactic.Common
import Mender.Json

/-!
# JSON texts

The grammar of JSON texts, for values whose numbers are whole: which texts write which value (`Writes`).
It leaves open where blanks stand and which characters are escaped, and how. The text of a value is one of
the texts that write it (`writes_pretty`).
-/

namespace Mender.Json

/-! ## The grammar -/

/-- A character that may stand between the parts of a JSON text. -/
def isSpace (c : Char) : Bool := c == ' ' || c == '\t' || c == '\n' || c == '\r'

/-- A text of spaces between tokens. -/
def Space (t : Text) : Prop := ∀ c ∈ t, isSpace c = true

/-- The value of a hexadecimal digit, in upper or lower case. -/
def hexValue? (c : Char) : Option Nat := ("0123456789abcdef" : Text).idxOf? c.toLower

/-- The number that four hexadecimal digits write. -/
def code? (a b c d : Char) : Option Nat := do
  let a ← hexValue? a
  let b ← hexValue? b
  let c ← hexValue? c
  let d ← hexValue? d
  return ((a * 16 + b) * 16 + c) * 16 + d

/-- The letters that stand for a character behind a backslash. -/
def letters : List (Char × Char) :=
  [('"', '"'), ('\\', '\\'), ('/', '/'), ('b', '\x08'), ('f', '\x0c'), ('n', '\n'), ('r', '\r'),
    ('t', '\t')]

/-- What stands between two quotes, and the text that it stands for. -/
inductive Escapes : (raw t : Text) → Prop where
  | nil :
    Escapes [] []
  | plain {c raw t} :
    c ≠ '"' →
    c ≠ '\\' →
    0x20 ≤ c.toNat →
    Escapes raw t →
    Escapes (c :: raw) (c :: t)
  | letter {e c raw t} :
    (e, c) ∈ letters →
    Escapes raw t →
    Escapes ('\\' :: e :: raw) (c :: t)
  | code {a b c d n raw t} :
    code? a b c d = some n →
    n.isValidChar →
    Escapes raw t →
    Escapes ('\\' :: 'u' :: a :: b :: c :: d :: raw) (Char.ofNat n :: t)

/-- The decimal digits of a number, with no zero in front. -/
structure Numeral (t : Text) (n : Nat) : Prop where
  ne_nil : t ≠ []
  digits : ∀ c ∈ t, c.isDigit = true
  no_zero : t.head? = some '0' → t = ['0']
  value : Nat.ofDigitChars 10 t 0 = n

/-- A key in its quotes, with the blanks around it. -/
def Key (t k : Text) : Prop :=
  ∃ s raw s', Space s ∧ Escapes raw k ∧ Space s' ∧ t = s ++ '"' :: (raw ++ '"' :: s')

/-- What a text can write: a value, or the items of an array, or the members of an object. -/
inductive Part where
  | value (j : Json)
  | items (js : List Json)
  | members (ms : List (Text × Json))

/-- The text writes the value, the items or the members. -/
inductive Writes : Text → Part → Prop where
  | null :
    Writes "null" (.value .null)
  | true :
    Writes "true" (.value (.bool true))
  | false :
    Writes "false" (.value (.bool false))
  | number {t n} :
    Numeral t n →
    Writes t (.value (.number n))
  | string {raw t} :
    Escapes raw t →
    Writes ('"' :: (raw ++ ['"'])) (.value (.string t))
  | pad {s t s' j} :
    Space s →
    Writes t (.value j) →
    Space s' →
    Writes (s ++ (t ++ s')) (.value j)
  | emptyArray {s} :
    Space s →
    Writes ('[' :: (s ++ [']'])) (.value (.array []))
  | array {t js} :
    Writes t (.items js) →
    Writes ('[' :: (t ++ [']'])) (.value (.array js))
  | emptyObject {s} :
    Space s →
    Writes ('\x7b' :: (s ++ ['\x7d'])) (.value (.object []))
  | object {t ms} :
    Writes t (.members ms) →
    Writes ('\x7b' :: (t ++ ['\x7d'])) (.value (.object ms))
  | lastItem {t j} :
    Writes t (.value j) →
    Writes t (.items [j])
  | item {t u j js} :
    Writes t (.value j) →
    Writes u (.items js) →
    Writes (t ++ ',' :: u) (.items (j :: js))
  | lastMember {t u k j} :
    Key t k →
    Writes u (.value j) →
    Writes (t ++ ':' :: u) (.members [(k, j)])
  | member {t u v k j ms} :
    Key t k →
    Writes u (.value j) →
    Writes v (.members ms) →
    Writes (t ++ ':' :: (u ++ ',' :: v)) (.members ((k, j) :: ms))

/-- A JSON text. -/
def WellFormed (t : Text) : Prop := ∃ j, Writes t (.value j)

/-! ## Texts of values -/

variable {t raw : Text}

/-- No text is space. -/
lemma space_nil : Space [] := nofun

/-- A blank is space. -/
lemma space_blank : Space [' '] := List.forall_mem_singleton.2 rfl

/-- A new line with its indentation is space. -/
lemma space_newLine (level : Nat) : Space (newLine level) := by
  intro c mem
  rcases List.mem_cons.1 mem with rfl | mem
  · rfl
  · rw [(List.mem_replicate.1 mem).2]
    rfl

/-- A hexadecimal digit is read back. -/
lemma hexValue?_hexDigit : ∀ n < 16, hexValue? (hexDigit n) = some n := by decide

/-- The code of a control character is read back from its four digits. -/
lemma code?_control {n : Nat} (small : n < 0x20) :
    code? '0' '0' (hexDigit (n / 16)) (hexDigit (n % 16)) = some n := by
  have zero : hexValue? '0' = some 0 := by decide
  rw [code?, zero, hexValue?_hexDigit (n / 16) (by omega), hexValue?_hexDigit (n % 16) (by omega)]
  refine congrArg some ?_
  omega

/-- A character is written as itself or by an escape for it. -/
lemma escapes_escapeChar (c : Char) (rest : Escapes raw t) : Escapes (escapeChar c ++ raw) (c :: t) := by
  have letter : ∀ {e}, (e, c) ∈ letters → Escapes (['\\', e] ++ raw) (c :: t) :=
    fun mem => .letter mem rest
  unfold escapeChar
  split
  · next eq => exact letter (by rw [eq]; decide)
  split
  · next eq => exact letter (by rw [eq]; decide)
  split
  · next eq => exact letter (by rw [eq]; decide)
  split
  · next eq => exact letter (by rw [eq]; decide)
  split
  · next eq => exact letter (by rw [eq]; decide)
  split
  · next eq => exact letter (by rw [eq]; decide)
  split
  · next eq => exact letter (by rw [eq]; decide)
  split
  · next small =>
    have code := Escapes.code (code?_control small) c.valid rest
    rw [Char.ofNat_toNat] at code
    exact code
  · next quote backslash _ _ _ _ _ large => exact .plain quote backslash (Nat.le_of_not_lt large) rest

/-- A text is written character by character. -/
lemma escapes_flatMap (t : Text) : Escapes (t.flatMap escapeChar) t := by
  induction t with
  | nil => exact .nil
  | cons c t ih => exact escapes_escapeChar c ih

/-- A quoted text writes the string. -/
lemma writes_quote (t : Text) : Writes (quote t) (.value (.string t)) :=
  .string (escapes_flatMap t)

/-- A quoted key on a new line writes the key. -/
lemma key_quote (level : Nat) (k : Text) : Key (newLine level ++ quote k) k :=
  ⟨newLine level, _, [], space_newLine level, escapes_flatMap k, space_nil, rfl⟩

/-- The digits of a positive number do not begin with zero. -/
lemma head?_toDigits {n : Nat} (pos : 0 < n) : (Nat.toDigits 10 n).head? ≠ some '0' := by
  induction n using Nat.strongRecOn with
  | ind n ih =>
    by_cases small : n < 10
    · have digit : ∀ n < 10, 0 < n → n.digitChar ≠ '0' := by decide
      rw [Nat.toDigits_of_lt_base small]
      exact fun eq => digit n small pos (Option.some.inj eq)
    · have front : 0 < n / 10 := Nat.div_pos (Nat.le_of_not_lt small) (by decide)
      rw [Nat.toDigits_of_base_le (by decide) (Nat.le_of_not_lt small), List.head?_append,
        Option.or_of_isSome (by simp [Nat.toDigits_ne_nil])]
      exact ih _ (Nat.div_lt_self pos (by decide)) front

/-- The digits of a number are a numeral for it. -/
lemma numeral_ofNat (n : Nat) : Numeral (Text.ofNat n) n where
  ne_nil := Nat.toDigits_ne_nil
  digits _ mem := Nat.isDigit_of_mem_toDigits (by decide) (by decide) mem
  no_zero zero := by
    rcases Nat.eq_zero_or_pos n with rfl | pos
    · rfl
    · exact absurd zero (head?_toDigits pos)
  value := Nat.ofDigitChars_toDigits (by decide) (by decide)

mutual

/-- The text of a value writes it. -/
lemma writes_render (level : Nat) : (j : Json) → Writes (render level j) (.value j)
  | .null => .null
  | .bool true => .true
  | .bool false => .false
  | .number n => .number (numeral_ofNat n)
  | .string t => writes_quote t
  | .array [] => .emptyArray space_nil
  | .array (j :: js) => by
    have first : Writes (newLine (level + 1) ++ (render (level + 1) j ++ [])) (.value j) :=
      .pad (space_newLine _) (writes_render (level + 1) j) space_nil
    have items := writes_items (level + 1) js first (space_newLine level)
    have array := Writes.array items
    simp only [render, List.append_assoc, List.append_nil, List.cons_append, List.nil_append] at array ⊢
    exact array
  | .object [] => .emptyObject space_nil
  | .object ((k, j) :: ms) => by
    have value : Writes ([' '] ++ (render (level + 1) j ++ [])) (.value j) :=
      .pad space_blank (writes_render (level + 1) j) space_nil
    have members := writes_members (level + 1) ms (key_quote (level + 1) k) value (space_newLine level)
    have object := Writes.object members
    simp only [render, List.append_assoc, List.append_nil, List.cons_append, List.nil_append] at object ⊢
    exact object

/-- Behind an item come the other items, and blanks. -/
lemma writes_items (level : Nat) : (js : List Json) → {t : Text} → {j : Json} → {s : Text} →
    Writes t (.value j) → Space s → Writes (t ++ (renderItems level js ++ s)) (.items (j :: js))
  | [], _, _, _, value, space => by
    rw [renderItems]
    exact .lastItem (.pad (s := []) space_nil value space)
  | k :: js, t, _, s, value, space => by
    have next : Writes (newLine level ++ (render level k ++ [])) (.value k) :=
      .pad (space_newLine _) (writes_render level k) space_nil
    have items := Writes.item value (writes_items level js next space)
    simp only [renderItems, List.append_assoc, List.append_nil, List.cons_append, List.nil_append] at items ⊢
    exact items

/-- Behind a member come the other members, and blanks. -/
lemma writes_members (level : Nat) : (ms : List (Text × Json)) → {t u : Text} → {k : Text} →
    {j : Json} → {s : Text} → Key t k → Writes u (.value j) → Space s →
      Writes (t ++ ':' :: (u ++ (renderMembers level ms ++ s))) (.members ((k, j) :: ms))
  | [], _, _, _, _, _, key, value, space => by
    rw [renderMembers]
    exact .lastMember key (.pad (s := []) space_nil value space)
  | (l, i) :: ms, t, u, k, j, s, key, value, space => by
    have next : Writes ([' '] ++ (render level i ++ [])) (.value i) :=
      .pad space_blank (writes_render level i) space_nil
    have members := Writes.member key value (writes_members level ms (key_quote level l) next space)
    simp only [renderMembers, List.append_assoc, List.append_nil, List.cons_append,
      List.nil_append] at members ⊢
    exact members

end

/-- What is printed writes the value. -/
lemma writes_pretty (j : Json) : Writes j.pretty (.value j) := writes_render 0 j

end Mender.Json
