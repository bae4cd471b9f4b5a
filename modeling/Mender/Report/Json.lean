import Mender.Json
import Mender.Report.Basic

/-!
# Machine-readable reports

Reports as JSON values. What a report has nothing to say about is left out of its object.
-/

namespace Mender

/-- The members of an object. -/
abbrev Json.Members := List (Text × Json)

/-- A member that is there only if it has a value. -/
def Json.member? {α : Type} (key : Text) (f : α → Json) : Option α → Json.Members
  | none => []
  | some a => [(key, f a)]

/-- Why a rule did nothing. -/
def Abstention.toJson : Abstention → Json
  | .nothingToDo => .object [("reason", .string "no_match")]
  | .alreadyDone => .object [("reason", .string "already_present")]
  | .notApplicable d =>
    .object [("reason", .string "precondition_unmet"), ("detail", .string d)]
  | .noPlace d =>
    .object [("reason", .string "anchor_not_found"), ("detail", .string d)]

/-- What a rule did to a file. -/
def RuleRecord.toJson (r : RuleRecord) : Json :=
  let always : Json.Members := [("rule", .string r.rule.key), ("matches", .number r.hits)]
  .object (always ++ Json.member? "skip" Abstention.toJson r.abstention)

/-- How many lines changed. -/
def Diff.LineChange.toJson (d : Diff.LineChange) : Json :=
  .object [("inserted", .number d.inserted), ("deleted", .number d.deleted)]

/-- What is reported of a file. -/
def FileRecord.toJson (f : FileRecord) : Json :=
  let always : Json.Members := [("path", .string f.path.text), ("status", .string f.status.key),
    ("rules", .array (f.rules.map RuleRecord.toJson))]
  .object (always ++
    Json.member? "backup" (.string ·.key) f.backup ++
    Json.member? "lines" Diff.LineChange.toJson f.lines ++
    Json.member? "diff" .string f.diff ++
    Json.member? "error" .string f.error)

/-- The counters of a run. -/
def Tally.toJson (t : Tally) : Json :=
  .object [("files_scanned", .number t.scanned),
    ("files_processed", .number t.changed),
    ("timestamp_fixed", .number t.timestamps),
    ("debug_guards_added", .number t.guards),
    ("loggers_injected", .number t.loggers),
    ("backups_created", .number t.backups),
    ("errors", .number t.failures),
    ("backup_failures", .number t.backupFailures)]

/-- What is reported of a run. -/
def RunReport.toJson (r : RunReport) : Json :=
  .object [("root", .string r.root.text), ("mode", .string r.mode.key),
    ("rules", .array (r.rules.map (.string ·.key))),
    ("stats", r.tally.toJson),
    ("files", .array (r.files.map FileRecord.toJson))]

/-- What is reported of a restore. -/
def Restoration.toJson (r : Restoration) : Json :=
  .object [("restored", .array (r.restored.map (.string ·.text))),
    ("pending", .array (r.pending.map (.string ·.text))),
    ("errors", .array (r.errors.map .string))]

end Mender
