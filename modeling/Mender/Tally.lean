import Mender.Rule.Basic

/-!
# Tallies

The counters of a run. A rule has one counter, and recording its hits touches no other.
-/

namespace Mender

/-- The counters of a run. -/
structure Tally where
  /-- Files handed to the rules. -/
  scanned : Nat := 0
  /-- Files whose text changed. -/
  changed : Nat := 0
  /-- Hits of the timestamp rule. -/
  timestamps : Nat := 0
  /-- Hits of the debug guard rule. -/
  guards : Nat := 0
  /-- Hits of the logger rule. -/
  loggers : Nat := 0
  /-- Backups made in this run. -/
  backups : Nat := 0
  /-- Files that failed for any reason. -/
  failures : Nat := 0
  /-- Files that failed because they could not be backed up. -/
  backupFailures : Nat := 0
deriving DecidableEq, Repr

namespace Tally

/-- The counter of a rule. -/
def hits (t : Tally) : Rule → Nat
  | .timestamp => t.timestamps
  | .debugGuard => t.guards
  | .logger => t.loggers

/-- Counts hits of a rule. -/
def addHits (t : Tally) (r : Rule) (n : Nat) : Tally :=
  match r with
  | .timestamp => { t with timestamps := t.timestamps + n }
  | .debugGuard => { t with guards := t.guards + n }
  | .logger => { t with loggers := t.loggers + n }

/-- Counts a file that was handed to the rules. -/
def addScanned (t : Tally) : Tally := { t with scanned := t.scanned + 1 }

/-- Counts a file whose text changed. -/
def addChanged (t : Tally) : Tally := { t with changed := t.changed + 1 }

/-- Counts a backup that was made. -/
def addBackup (t : Tally) : Tally := { t with backups := t.backups + 1 }

/-- Counts a file that failed, and whether its backup was the reason. -/
def addFailure (t : Tally) (ofBackup : Bool) : Tally :=
  { t with
    failures := t.failures + 1
    backupFailures := t.backupFailures + if ofBackup then 1 else 0 }

/-- Whether no file failed. -/
def isClean (t : Tally) : Bool := t.failures = 0

/-- Hits of a rule add to its own counter only. -/
theorem hits_addHits (t : Tally) (r r' : Rule) (n : Nat) :
    (t.addHits r n).hits r' = t.hits r' + if r = r' then n else 0 := by
  cases r <;> cases r' <;> rfl

end Tally

end Mender
