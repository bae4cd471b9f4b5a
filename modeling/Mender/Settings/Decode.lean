import Mender.Settings.Basic
import Mender.Toml.Document

/-!
# Settings in configuration files

A configuration file is a TOML document. What it does not mention keeps its default, keys that mean
nothing are passed over, and a value of the wrong type spoils the whole file. A group of settings is
a table, or an array that lists its values in the order of their declaration.
-/

namespace Mender.Settings

open Mender.Toml (Value)

/-- Reads a switch. -/
def switch? : Value → Option Bool
  | .boolean b => some b
  | _ => none

/-- Reads a text. -/
def text? : Value → Option Text
  | .string t => some t
  | _ => none

/-- Reads a list of texts. -/
def texts? : Value → Option (List Text)
  | .array items => items.mapM text?
  | .tables items => items.mapM text?
  | _ => none

/-- Whether a value is an array or a table with nothing in it. -/
def isHollow : Value → Bool
  | .array [] => true
  | .tables [] => true
  | .table _ [] => true
  | _ => false

/-- Reads a backup timing: its name, or a table with the name as its one key and nothing under
it. -/
def timing? : Value → Option BackupTiming
  | .string t => BackupTiming.ofKey? t
  | .table _ [(k, v)] => if isHollow v then BackupTiming.ofKey? k else none
  | _ => none

/-- The value of a setting in its group, by key in a table and by position in an array. The outer
`none` says that the value is no group at all. A date counts as a group without settings. -/
def field? (group : Value) (position : Nat) (key : Text) : Option (Option Value) :=
  match group with
  | .table _ es => some (es.lookup key)
  | .array items => some items[position]?
  | .tables items => some items[position]?
  | .datetime _ => some none
  | _ => none

/-- Reads a setting of a group, or takes its default. -/
def fieldD {α : Type} (read : Value → Option α) (default : α) (group : Value) (position : Nat)
    (key : Text) : Option α :=
  match field? group position key with
  | none => none
  | some none => some default
  | some (some v) => read v

/-- Reads the rule switches. -/
def rules? (group : Value) : Option RuleSwitches := do
  let d : RuleSwitches := {}
  let timestamp ← fieldD switch? d.timestamp group 0 Rule.timestamp.key
  let debugGuard ← fieldD switch? d.debugGuard group 1 Rule.debugGuard.key
  let logger ← fieldD switch? d.logger group 2 Rule.logger.key
  some { timestamp, debugGuard, logger }

/-- Reads the batch settings. -/
def batch? (group : Value) : Option BatchSettings := do
  let d : BatchSettings := {}
  let extensions ← fieldD texts? d.extensions group 0 "extensions"
  let excludedSuffixes ← fieldD texts? d.excludedSuffixes group 1 "excluded_suffixes"
  let backupSuffix ← fieldD text? d.backupSuffix group 2 "backup_suffix"
  let backupTiming ← fieldD timing? d.backupTiming group 3 "backup_policy"
  let recursive ← fieldD switch? d.recursive group 4 "recursive"
  some { extensions, excludedSuffixes, backupSuffix, backupTiming, recursive }

/-- Reads settings from the text of a configuration file. -/
def parse? (t : Text) : Option Settings := do
  let document := Value.table .headed (← Toml.parse t)
  let rules ← fieldD rules? {} document 0 "rules"
  let batch ← fieldD batch? {} document 1 "batch"
  some { rules, batch }

/-- The text of a configuration file that spells out the default settings. -/
def defaultFile : Text :=
  "[rules]\n" ++
  "timestamp_normalization = true\n" ++
  "debug_guarding = false\n" ++
  "logger_injection = false\n" ++
  "\n" ++
  "[batch]\n" ++
  "extensions = [\"cs\"]\n" ++
  "excluded_suffixes = [\n" ++
  "    \".backup_critical\",\n" ++
  "    \".backup\",\n" ++
  "    \".bak\",\n" ++
  "    \".disabled\",\n" ++
  "]\n" ++
  "backup_suffix = \".backup_critical\"\n" ++
  "backup_policy = \"always\"\n" ++
  "recursive = false\n"

end Mender.Settings
