import Mender.Text.Blank

/-!
# Scanning for patterns

A recogniser looks at the front of a text and says what it read there and what follows. Scanning
tries a recogniser at each place from left to right, and goes on behind each occurrence, so the
occurrences that it finds do not overlap.
-/

namespace Mender.Text

/-- Reads one occurrence of a pattern at the front of a text, giving its value and the rest. -/
abbrev Recognizer (α : Type) := Text → Option (α × Text)

/-- An occurrence of a pattern: its character offsets and the value that was read. -/
structure Occurrence (α : Type) where
  start : Nat
  stop : Nat
  value : α

/-- Where a pattern may begin. -/
inductive Anchorage where
  /-- At every character. -/
  | anywhere
  /-- At the front of the text, or right behind a newline. -/
  | lineStart

/-- Whether a pattern may begin at a place, which is at the start of a line or not. -/
def Anchorage.admits : Anchorage → (atLineStart : Bool) → Bool
  | .anywhere, _ => true
  | .lineStart, b => b

/-- Scans from the character offset `pos`, after passing over `skip` characters of an occurrence. -/
def scanFrom {α : Type} (anchorage : Anchorage) (r : Recognizer α) :
    (pos skip : Nat) → (atLineStart : Bool) → Text → List (Occurrence α)
  | _, _, _, [] => []
  | pos, skip + 1, _, c :: t => scanFrom anchorage r (pos + 1) skip (c == '\n') t
  | pos, 0, atLineStart, c :: t =>
    match if anchorage.admits atLineStart then r (c :: t) else none with
    | none => scanFrom anchorage r (pos + 1) 0 (c == '\n') t
    | some (value, rest) =>
      let read := (c :: t).length - rest.length
      ⟨pos, pos + read, value⟩ :: scanFrom anchorage r (pos + 1) (read - 1) (c == '\n') t

/-- The occurrences of a pattern in a text, from left to right and without overlaps. -/
def scan {α : Type} (anchorage : Anchorage) (r : Recognizer α) (t : Text) : List (Occurrence α) :=
  scanFrom anchorage r 0 0 true t

/-- What follows one or more blank characters. -/
def afterBlanks? (t : Text) : Option Text :=
  if (t.head?.any isBlank) then some (trimStart t) else none

/-- Splits a text behind the first character that is `stop`. -/
def splitAt? (stop : Char) (t : Text) : Option (Text × Text) :=
  match t.dropWhile (· ≠ stop) with
  | [] => none
  | _ :: rest => some (t.takeWhile (· ≠ stop), rest)

end Mender.Text
