import Mender.Rule.Timestamp
import Mender.Rule.DebugGuard
import Mender.Rule.Logger

/-!
# The rule pipeline

The enabled rules are applied one after the other in a fixed order, each to what the one before it
left.
-/

namespace Mender

/-- Applies one rule to a text. -/
def Rule.apply : Rule → Text → Outcome
  | .timestamp => Rule.Timestamp.apply
  | .debugGuard => Rule.DebugGuard.apply
  | .logger => Rule.Logger.apply

/-- Which rules are switched on. -/
structure RuleSwitches where
  timestamp : Bool := true
  debugGuard : Bool := false
  logger : Bool := false
deriving DecidableEq, Repr

namespace RuleSwitches

/-- Whether a rule is switched on. -/
def isOn (s : RuleSwitches) : Rule → Bool
  | .timestamp => s.timestamp
  | .debugGuard => s.debugGuard
  | .logger => s.logger

/-- Switches one rule on or off. -/
def set (s : RuleSwitches) : Rule → Bool → RuleSwitches
  | .timestamp, b => { s with timestamp := b }
  | .debugGuard, b => { s with debugGuard := b }
  | .logger, b => { s with logger := b }

/-- The rules that are switched on, in the order in which they are applied. -/
def rules (s : RuleSwitches) : List Rule := Rule.applicationOrder.filter s.isOn

end RuleSwitches

/-- One rule of a pipeline with what it came to. -/
structure Application where
  rule : Rule
  outcome : Outcome
deriving DecidableEq, Repr

/-- Applies rules in order, each to the text that the ones before it left. -/
def applyRules : List Rule → Text → List Application × Text
  | [], t => ([], t)
  | r :: rs, t =>
    let outcome := r.apply t
    let (later, final) := applyRules rs (outcome.textAfter t)
    (⟨r, outcome⟩ :: later, final)

end Mender
