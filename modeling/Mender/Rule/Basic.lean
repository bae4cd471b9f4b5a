import Mender.Text.Basic

/-!
# Rules

A rule edits the text of a source file, or leaves it alone and says why. There are three of them,
and a configuration switches each on or off.
-/

namespace Mender

/-- The edits that can be made to a source file. -/
inductive Rule where
  /-- Local time becomes universal time. -/
  | timestamp
  /-- Console output becomes part of debug builds only. -/
  | debugGuard
  /-- Controllers that print to the console receive a logger. -/
  | logger
deriving DecidableEq, Repr

namespace Rule

/-- All rules, in the order in which reports list their counters. -/
def reportOrder : List Rule := [.timestamp, .debugGuard, .logger]

/-- All rules, in the order in which they are applied. -/
def applicationOrder : List Rule := [.timestamp, .logger, .debugGuard]

/-- The name of a rule on the command line and in summaries. -/
def name : Rule → Text
  | .timestamp => "timestamp"
  | .debugGuard => "debug-guard"
  | .logger => "logger"

/-- The name of a rule in configuration files and in machine-readable reports. -/
def key : Rule → Text
  | .timestamp => "timestamp_normalization"
  | .debugGuard => "debug_guarding"
  | .logger => "logger_injection"

/-- What a rule's counter counts, for people. -/
def caption : Rule → Text
  | .timestamp => "DateTime.Now fixed"
  | .debugGuard => "Console.WriteLine guarded"
  | .logger => "Loggers injected"

/-- The rule that has a given name. -/
def ofName? (n : Text) : Option Rule := reportOrder.find? (·.name = n)

end Rule

/-- Why a rule left a text alone. -/
inductive Abstention where
  /-- Nothing in the text is what the rule looks for. -/
  | nothingToDo
  /-- What the rule would add is already there. -/
  | alreadyDone
  /-- The text is not of the kind that the rule is for. -/
  | notApplicable (detail : Text)
  /-- A place where the rule would insert something is missing or ambiguous. -/
  | noPlace (detail : Text)
deriving DecidableEq, Repr

/-- What applying a rule to a text comes to. -/
inductive Outcome where
  /-- The rule hit the text so many times and turned it into another one. -/
  | edited (text : Text) (hits : Nat)
  /-- The rule left the text alone. -/
  | abstained (reason : Abstention)
deriving DecidableEq, Repr

namespace Outcome

/-- The text after applying a rule to `before`. -/
def textAfter (before : Text) : Outcome → Text
  | .edited text _ => text
  | .abstained _ => before

/-- How often a rule hit. -/
def hits : Outcome → Nat
  | .edited _ n => n
  | .abstained _ => 0

/-- Why a rule did nothing, if it did nothing. -/
def abstention? : Outcome → Option Abstention
  | .edited _ _ => none
  | .abstained reason => some reason

end Outcome

end Mender
