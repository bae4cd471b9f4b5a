import Mender.Text.Basic

/-!
# Lines with their terminators

A line ends behind a line feed, a carriage return, or the two together; what remains at the end
is a last line without terminator. Putting the lines behind one another gives the text back.
-/

namespace Mender.Diff

/-- The lines of a text, each with its terminator. -/
def lines : Text → List Text
  | [] => []
  | '\r' :: '\n' :: t => ['\r', '\n'] :: lines t
  | c :: t =>
    if c = '\n' ∨ c = '\r' then [c] :: lines t
    else match lines t with
      | [] => [[c]]
      | l :: ls => (c :: l) :: ls

/-- Whether a line has a terminator. -/
def isTerminated (line : Text) : Bool :=
  line.getLast? == some '\n' || line.getLast? == some '\r'

/-- Nothing of a text is lost in its lines. -/
theorem flatten_lines (t : Text) : (lines t).flatten = t := by
  fun_induction lines t with
  | case1 => rfl
  | case2 t ih => simp [ih]
  | case3 c t _ h ih => simp [ih]
  | case4 c t _ h hl ih => simp_all
  | case5 c t _ h l ls hl ih => rw [hl] at ih; simpa using ih

end Mender.Diff
