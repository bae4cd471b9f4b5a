import Mender.Backup
import Mender.Diff.Unified
import Mender.Tally

/-!
# Reports

What a run says about each file and about itself, and what a restore says.
-/

namespace Mender

/-- Whether a run writes. -/
inductive Mode where
  /-- Backups are made and files are written. -/
  | write
  /-- Nothing is written, and the changes are shown instead. -/
  | preview
deriving DecidableEq, Repr

/-- The name of a mode in machine-readable reports. -/
def Mode.key : Mode → Text
  | .write => "execute"
  | .preview => "dry_run"

/-- What became of a file. -/
inductive Status where
  | changed
  | unchanged
  | failed
deriving DecidableEq, Repr

/-- The name of a status in reports. -/
def Status.key : Status → Text
  | .changed => "changed"
  | .unchanged => "unchanged"
  | .failed => "failed"

/-- The name of what became of a backup, in machine-readable reports. -/
def BackupFate.key : BackupFate → Text
  | .made => "created"
  | .kept => "already_exists"

/-- What a rule did to a file: how often it hit, or why it did not. -/
structure RuleRecord where
  rule : Rule
  hits : Nat
  abstention : Option Abstention := none
deriving DecidableEq, Repr

/-- What is reported of a file. -/
structure FileRecord where
  path : Path
  status : Status
  rules : List RuleRecord := []
  backup : Option BackupFate := none
  lines : Option Diff.LineChange := none
  diff : Option Text := none
  error : Option Text := none
deriving DecidableEq, Repr

/-- What is reported of a file that failed. -/
def FileRecord.ofFailure (path : Path) (f : Failure) : FileRecord :=
  { path, status := .failed, error := some f.message }

/-- What is reported of a run. -/
structure RunReport where
  root : Path
  mode : Mode
  rules : List Rule
  tally : Tally
  files : List FileRecord
deriving DecidableEq, Repr

namespace RunReport

/-- Whether no file failed. -/
def isClean (r : RunReport) : Bool := r.tally.isClean

/-- The records of the files that changed. -/
def changed (r : RunReport) : List FileRecord := r.files.filter (·.status = .changed)

/-- The records of the files that failed. -/
def failed (r : RunReport) : List FileRecord := r.files.filter (·.status = .failed)

end RunReport

/-- What is reported of a restore. -/
structure Restoration where
  restored : List Path := []
  pending : List Path := []
  errors : List Text := []
deriving DecidableEq, Repr

end Mender
