import Mender.Text.Basic

/-!
# Blank characters

A character is blank when it has the White_Space property. Trimming removes blank characters from
the ends of a text.
-/

namespace Mender.Text

/-- The code points of the blank characters as closed ranges, in increasing order. -/
def blankRanges : List (Nat × Nat) :=
  [(0x9, 0xD), (0x20, 0x20), (0x85, 0x85), (0xA0, 0xA0), (0x1680, 0x1680), (0x2000, 0x200A),
   (0x2028, 0x2029), (0x202F, 0x202F), (0x205F, 0x205F), (0x3000, 0x3000)]

/-- Whether a character is blank. -/
def isBlank (c : Char) : Bool :=
  blankRanges.any fun (lo, hi) => lo ≤ c.toNat && c.toNat ≤ hi

/-- A text without the blank characters at its front. -/
def trimStart (t : Text) : Text := t.dropWhile isBlank

/-- A text without the blank characters at its end. -/
def trimEnd (t : Text) : Text := (t.reverse.dropWhile isBlank).reverse

/-- A text without the blank characters at its two ends. -/
def trim (t : Text) : Text := trimEnd (trimStart t)

end Mender.Text
