import Mender.Rule.Basic
import Mender.Text.Scan

/-!
# Debug guards

A statement line holds one call of `Console.WriteLine` and nothing else. Each statement line that
is not yet inside an `#if DEBUG` branch gets a pair of directive lines around it, with its own
indentation and its own carriage return. The conditionals that are open at a line are known from
the lines above it.
-/

namespace Mender.Rule.DebugGuard

/-- The call that is guarded. -/
def call : Text := "Console.WriteLine"

/-- What a statement line has at its two ends. -/
structure Statement where
  indent : Text
  carriage : Text
deriving DecidableEq, Repr

namespace Statement

/-- The directive line above a guarded statement. -/
def opening (s : Statement) : Text := s.indent ++ "#if DEBUG" ++ s.carriage

/-- The directive line below a guarded statement. -/
def closing (s : Statement) : Text := s.indent ++ "#endif" ++ s.carriage

end Statement

/-- Reads a statement line: blanks, the call up to its first closing parenthesis, a semicolon and
perhaps a carriage return. -/
def statement? (line : Text) : Option Statement := do
  let body ← Text.after? (call ++ ['(']) (line.dropWhile Text.isBlank)
  let rest ← Text.after? [')', ';'] (body.dropWhile (· ≠ ')'))
  if rest = [] ∨ rest = ['\r'] then some ⟨line.takeWhile Text.isBlank, rest⟩ else none

/-- What a line does to the open conditionals. -/
inductive Directive where
  /-- Opens a conditional, whose first branch is the debug branch or not. -/
  | opens (debug : Bool)
  /-- Starts another branch of the innermost conditional. -/
  | switches
  /-- Closes the innermost conditional. -/
  | closes
deriving DecidableEq, Repr

/-- Reads a directive line. -/
def directive? (line : Text) : Option Directive :=
  let d := Text.trim line
  if ("#if" : Text).isPrefixOf d then some (.opens (d = "#if DEBUG"))
  else if ("#else" : Text).isPrefixOf d || ("#elif" : Text).isPrefixOf d then some .switches
  else if ("#endif" : Text).isPrefixOf d then some .closes
  else none

/-- The open conditionals, innermost first: whether each is in its debug branch. -/
abbrev Branches := List Bool

namespace Branches

/-- The open conditionals below a directive line. -/
def step (stack : Branches) : Directive → Branches
  | .opens debug => debug :: stack
  | .switches => match stack with
    | [] => []
    | _ :: outer => false :: outer
  | .closes => stack.tail

/-- The open conditionals below a line. -/
def after (stack : Branches) (line : Text) : Branches :=
  match directive? line with
  | none => stack
  | some d => stack.step d

/-- Whether some open conditional is in its debug branch. -/
def anyDebug (stack : Branches) : Bool := stack.any id

end Branches

/-- The guarded lines, with how many statements were wrapped and how many needed no guard. -/
structure Guarded where
  lines : List Text := []
  wrapped : Nat := 0
  already : Nat := 0

/-- Guards the lines that stand below the given open conditionals. -/
def guardLines : Branches → List Text → Guarded
  | _, [] => {}
  | stack, line :: below =>
    match statement? line with
    | none =>
      let g := guardLines (stack.after line) below
      { g with lines := line :: g.lines }
    | some s =>
      let g := guardLines stack below
      if stack.anyDebug then { g with lines := line :: g.lines, already := g.already + 1 }
      else { g with
        lines := s.opening :: line :: s.closing :: g.lines, wrapped := g.wrapped + 1 }

/-- Guards every statement line of a text that is not inside a debug branch. -/
def apply (t : Text) : Outcome :=
  if Text.occurs call t then
    let g := guardLines [] (Text.lines t)
    if g.wrapped = 0 then .abstained (if g.already = 0 then .nothingToDo else .alreadyDone)
    else .edited (Text.unlines g.lines) g.wrapped
  else .abstained .nothingToDo

end Mender.Rule.DebugGuard
