/-!
# Text

A text is the list of its characters. This module has the searches and cuts that every rule is
made of: whether a word occurs, replacing all occurrences of a word, and the pieces of a text
between its newlines.
-/

namespace Mender

/-- A text is the list of its characters. -/
abbrev Text := List Char

instance : Coe String Text := ⟨String.toList⟩

namespace Text

/-- What follows the word `w` in a text that begins with it. -/
def after? : (w t : Text) → Option Text
  | [], t => some t
  | _ :: _, [] => none
  | a :: w, c :: t => if a = c then after? w t else none

/-- Whether the word `w` stands somewhere in a text. -/
def occurs (w : Text) : Text → Bool
  | [] => w.isEmpty
  | c :: t => w.isPrefixOf (c :: t) || occurs w t

/-- Replaces `w` by `r` from the left, after passing over `skip` characters of a word just
replaced. -/
def replaceFrom (w r : Text) : (skip : Nat) → Text → Text
  | _, [] => []
  | skip + 1, _ :: t => replaceFrom w r skip t
  | 0, c :: t =>
    if w.isPrefixOf (c :: t) then r ++ replaceFrom w r (w.length - 1) t
    else c :: replaceFrom w r 0 t

/-- A text with each occurrence of the non-empty word `w` replaced by `r`, scanning from the left
and without overlaps. -/
def replace (w r t : Text) : Text := replaceFrom w r 0 t

/-- Counts `w` from the left, after passing over `skip` characters of a word just counted. -/
def countFrom (w : Text) : (skip : Nat) → Text → Nat
  | _, [] => 0
  | skip + 1, _ :: t => countFrom w skip t
  | 0, c :: t =>
    if w.isPrefixOf (c :: t) then countFrom w (w.length - 1) t + 1
    else countFrom w 0 t

/-- How many times `replace` replaces the word `w`. -/
def count (w t : Text) : Nat := countFrom w 0 t

/-- The pieces of a text between its newlines; a text without newline is one piece. -/
def lines : Text → List Text
  | [] => [[]]
  | c :: t =>
    if c = '\n' then [] :: lines t
    else match lines t with
      | [] => [[c]]
      | l :: ls => (c :: l) :: ls

/-- Puts a newline between neighbouring lines. -/
def unlines (ls : List Text) : Text := List.intercalate ['\n'] ls

/-- The newline that a text uses: carriage return and line feed if it has that pair anywhere. -/
def newline (t : Text) : Text := if occurs "\r\n" t then "\r\n" else "\n"

/-- A text with `s` put in at the character offset `i`. -/
def insertAt (i : Nat) (s t : Text) : Text := t.take i ++ s ++ t.drop i

/-- The decimal digits of a number. -/
def ofNat (n : Nat) : Text := Nat.toDigits 10 n

/-- The UTF-8 bytes of a text. -/
def toBytes (t : Text) : ByteArray := (String.ofList t).toUTF8

/-- The text whose UTF-8 bytes are given, if they are well formed. -/
def ofBytes? (b : ByteArray) : Option Text := (String.fromUTF8? b).map String.toList

/-- How many bytes a text takes in UTF-8. -/
def byteLength : Text → Nat
  | [] => 0
  | c :: t => c.utf8Size + byteLength t

/-- A text has something behind the word `w` exactly when it begins with it. -/
theorem after?_eq_some_iff {w t rest : Text} : after? w t = some rest ↔ t = w ++ rest := by
  induction w generalizing t with
  | nil => simp [after?]
  | cons a w ih =>
    cases t with
    | nil => simp [after?]
    | cons c t => by_cases h : a = c <;> simp [after?, h, ih, eq_comm]

/-- Decoding the bytes of a text gives the text back. -/
theorem ofBytes?_toBytes (t : Text) : ofBytes? (toBytes t) = some t := by
  have h : String.fromUTF8? (String.ofList t).toUTF8 = some (String.ofList t) := by
    simp only [String.fromUTF8?, String.toUTF8_eq_toByteArray,
      dif_pos (String.ofList t).isValidUTF8]
    rfl
  rw [ofBytes?, toBytes, h, Option.map_some, String.toList_ofList]

/-- A text is never without a line. -/
theorem lines_ne_nil (t : Text) : lines t ≠ [] := by
  cases t with
  | nil => simp [lines]
  | cons c t => rw [lines]; split <;> (try split) <;> simp

/-- Joining the lines of a text gives the text back. -/
theorem unlines_lines (t : Text) : unlines (lines t) = t := by
  induction t with
  | nil => rfl
  | cons c t ih =>
    rw [lines]
    split
    · next h =>
      subst h
      cases hl : lines t with
      | nil => exact absurd hl (lines_ne_nil t)
      | cons l ls =>
        rw [hl] at ih
        simpa [unlines, List.intercalate, List.intersperse] using ih
    · next h =>
      cases hl : lines t with
      | nil => exact absurd hl (lines_ne_nil t)
      | cons l ls =>
        rw [hl] at ih
        cases ls <;> simpa [unlines, List.intercalate, List.intersperse] using ih

end Text

end Mender
