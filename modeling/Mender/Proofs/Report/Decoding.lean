import Mender.Command.Execute
import Mender.Proofs.Json.Reading

/-!
# Reading reports back

Machine-readable reports are JSON texts, and nothing of a report is lost in its text: what is read from
the text is the report itself (`reports_read_back`). Each record is read from its members by their keys,
whatever their order is. A member that may be missing stands for an optional value (`optional?`).
-/

namespace Mender

/-! ## Members -/

namespace Json

variable {α : Type}

/-- Reads a string. -/
def text? : Json → Option Text
  | .string t => some t
  | _ => none

/-- Reads a number. -/
def number? : Json → Option Nat
  | .number n => some n
  | _ => none

/-- Reads an array, each of its values in the same way. -/
def list? (read : Json → Option α) : Json → Option (List α)
  | .array js => js.mapM read
  | _ => none

/-- The value of a member of an object. -/
def get? (k : Text) : Json → Option Json
  | .object ms => ms.lookup k
  | _ => none

/-- Reads a member that must be there. -/
def field? (k : Text) (read : Json → Option α) (j : Json) : Option α := (j.get? k).bind read

/-- Reads a member that may be missing. -/
def optional? (k : Text) (read : Json → Option α) (j : Json) : Option (Option α) :=
  match j.get? k with
  | none => some none
  | some v => (read v).map some

/-- A string is read back. -/
lemma text?_string (t : Text) : text? (.string t) = some t := rfl

/-- A field of an object is read as its value is. -/
lemma field?_of_get? {read : Json → Option α} {k : Text} {j v : Json} (found : j.get? k = some v) :
    j.field? k read = read v := by
  rw [field?, found, Option.bind_some]

/-- An array is read back if its values are. -/
lemma list?_array {write : α → Json} {read : Json → Option α} (back : ∀ a, read (write a) = some a)
    (as : List α) : list? read (.array (as.map write)) = some as := by
  have same : read ∘ write = some := funext back
  rw [list?, List.mapM_map, same]
  have all := List.mapM_pure (m := Option) (f := id) (l := as)
  rw [List.map_id] at all
  exact all

/-- A field that may be missing is read back, and its absence too. -/
lemma optional?_of_lookup {o : Option α} {write : α → Json} {read : Json → Option α} {k : Text}
    {ms : Members} (back : ∀ a, read (write a) = some a) (found : ms.lookup k = o.map write) :
    optional? k read (.object ms) = some o := by
  rw [optional?, get?, found]
  cases o with
  | none => rfl
  | some a =>
    rw [Option.map_some]
    dsimp only
    rw [back]
    rfl

/-- An optional member is found under its key and under no other. -/
lemma lookup_member? {write : α → Json} (k k' : Text) (o : Option α) :
    (member? k write o).lookup k' = if k' = k then o.map write else none := by
  cases o with
  | none => simp [member?]
  | some a =>
    rw [member?, List.lookup_cons, List.lookup_nil]
    by_cases same : k' = k
    · rw [if_pos same, same, beq_self_eq_true, Option.map_some]
    · rw [if_neg same, beq_false_of_ne same]

end Json

/-! ## Records -/

/-- The rule of a name in reports. -/
def Rule.ofKey? (k : Text) : Option Rule := Rule.reportOrder.find? (·.key = k)

/-- The mode of a name in reports. -/
def Mode.ofKey? (k : Text) : Option Mode := [Mode.write, .preview].find? (·.key = k)

/-- The status of a name in reports. -/
def Status.ofKey? (k : Text) : Option Status :=
  [Status.changed, .unchanged, .failed].find? (·.key = k)

/-- The fate of a backup of a name in reports. -/
def BackupFate.ofKey? (k : Text) : Option BackupFate :=
  [BackupFate.made, .kept].find? (·.key = k)

/-- Reads a value from the name that it has in reports. -/
def Json.named? {α : Type} (ofKey? : Text → Option α) (j : Json) : Option α := j.text?.bind ofKey?

/-- Reads a path. -/
def Json.path? (j : Json) : Option Path := j.text?.map Path.mk

/-- Reads why a rule left a text alone, from the name of the reason and its details. -/
def Abstention.ofJson? (j : Json) : Option Abstention := do
  let reason ← j.field? "reason" Json.text?
  let detail := j.field? "detail" Json.text?
  if reason = "no_match" then some .nothingToDo
  else if reason = "already_present" then some .alreadyDone
  else if reason = "precondition_unmet" then detail.map .notApplicable
  else if reason = "anchor_not_found" then detail.map .noPlace
  else none

/-- Reads what became of a rule in a file. -/
def RuleRecord.ofJson? (j : Json) : Option RuleRecord := do
  let rule ← j.field? "rule" (Json.named? Rule.ofKey?)
  let hits ← j.field? "matches" Json.number?
  let abstention ← j.optional? "skip" Abstention.ofJson?
  return { rule, hits, abstention }

/-- Reads how many lines were inserted and deleted. -/
def Diff.LineChange.ofJson? (j : Json) : Option Diff.LineChange := do
  let inserted ← j.field? "inserted" Json.number?
  let deleted ← j.field? "deleted" Json.number?
  return { inserted, deleted }

/-- Reads what became of a file. -/
def FileRecord.ofJson? (j : Json) : Option FileRecord := do
  let path ← j.field? "path" Json.path?
  let status ← j.field? "status" (Json.named? Status.ofKey?)
  let rules ← j.field? "rules" (Json.list? RuleRecord.ofJson?)
  let backup ← j.optional? "backup" (Json.named? BackupFate.ofKey?)
  let lines ← j.optional? "lines" Diff.LineChange.ofJson?
  let diff ← j.optional? "diff" Json.text?
  let error ← j.optional? "error" Json.text?
  return { path, status, rules, backup, lines, diff, error }

/-- Reads the counters of a run. -/
def Tally.ofJson? (j : Json) : Option Tally := do
  let scanned ← j.field? "files_scanned" Json.number?
  let changed ← j.field? "files_processed" Json.number?
  let timestamps ← j.field? "timestamp_fixed" Json.number?
  let guards ← j.field? "debug_guards_added" Json.number?
  let loggers ← j.field? "loggers_injected" Json.number?
  let backups ← j.field? "backups_created" Json.number?
  let failures ← j.field? "errors" Json.number?
  let backupFailures ← j.field? "backup_failures" Json.number?
  return { scanned, changed, timestamps, guards, loggers, backups, failures, backupFailures }

/-- Reads the report of a run. -/
def RunReport.ofJson? (j : Json) : Option RunReport := do
  let root ← j.field? "root" Json.path?
  let mode ← j.field? "mode" (Json.named? Mode.ofKey?)
  let rules ← j.field? "rules" (Json.list? (Json.named? Rule.ofKey?))
  let tally ← j.field? "stats" Tally.ofJson?
  let files ← j.field? "files" (Json.list? FileRecord.ofJson?)
  return { root, mode, rules, tally, files }

/-- Reads the report of a restoration. -/
def Restoration.ofJson? (j : Json) : Option Restoration := do
  let restored ← j.field? "restored" (Json.list? Json.path?)
  let pending ← j.field? "pending" (Json.list? Json.path?)
  let errors ← j.field? "errors" (Json.list? Json.text?)
  return { restored, pending, errors }

/-! ## Reading back -/

/-- A rule is read back from its name. -/
lemma Rule.named?_key (r : Rule) : Json.named? Rule.ofKey? (.string r.key) = some r := by
  cases r <;> decide

/-- A mode is read back from its name. -/
lemma Mode.named?_key (m : Mode) : Json.named? Mode.ofKey? (.string m.key) = some m := by
  cases m <;> decide

/-- A status is read back from its name. -/
lemma Status.named?_key (s : Status) : Json.named? Status.ofKey? (.string s.key) = some s := by
  cases s <;> decide

/-- The fate of a backup is read back from its name. -/
lemma BackupFate.named?_key (f : BackupFate) :
    Json.named? BackupFate.ofKey? (.string f.key) = some f := by
  cases f <;> decide

/-- The reason of a rule is read back with its details. -/
lemma Abstention.ofJson?_toJson (a : Abstention) : ofJson? a.toJson = some a := by
  cases a <;> rfl

/-- What became of a rule in a file is read back, whether it hit or not. -/
lemma RuleRecord.ofJson?_toJson (r : RuleRecord) : ofJson? r.toJson = some r := by
  have rule : r.toJson.field? "rule" (Json.named? Rule.ofKey?) = some r.rule := r.rule.named?_key
  have hits : r.toJson.field? "matches" Json.number? = some r.hits := rfl
  have skip : r.toJson.optional? "skip" Abstention.ofJson? = some r.abstention := by
    refine Json.optional?_of_lookup Abstention.ofJson?_toJson ?_
    exact Json.lookup_member? _ _ r.abstention
  rw [ofJson?, rule, hits, skip]
  rfl

/-- The count of changed lines is read back. -/
lemma Diff.LineChange.ofJson?_toJson (d : Diff.LineChange) : ofJson? d.toJson = some d := rfl

/-- What became of a file is read back, with all that may be missing. -/
lemma FileRecord.ofJson?_toJson (f : FileRecord) : ofJson? f.toJson = some f := by
  have path : f.toJson.field? "path" Json.path? = some f.path := rfl
  have status : f.toJson.field? "status" (Json.named? Status.ofKey?) = some f.status :=
    f.status.named?_key
  have rules : f.toJson.field? "rules" (Json.list? RuleRecord.ofJson?) = some f.rules :=
    Json.list?_array RuleRecord.ofJson?_toJson f.rules
  have backup : f.toJson.optional? "backup" (Json.named? BackupFate.ofKey?) = some f.backup := by
    refine Json.optional?_of_lookup BackupFate.named?_key ?_
    simp [Json.lookup_member?, List.lookup_append, List.lookup_cons]
  have lines : f.toJson.optional? "lines" Diff.LineChange.ofJson? = some f.lines := by
    refine Json.optional?_of_lookup Diff.LineChange.ofJson?_toJson ?_
    simp [Json.lookup_member?, List.lookup_append, List.lookup_cons]
  have diff : f.toJson.optional? "diff" Json.text? = some f.diff := by
    refine Json.optional?_of_lookup Json.text?_string ?_
    simp [Json.lookup_member?, List.lookup_append, List.lookup_cons]
  have error : f.toJson.optional? "error" Json.text? = some f.error := by
    refine Json.optional?_of_lookup Json.text?_string ?_
    simp [Json.lookup_member?, List.lookup_append, List.lookup_cons]
  rw [ofJson?, path, status, rules, backup, lines, diff, error]
  rfl

/-- All counters of a run are read back. -/
lemma Tally.ofJson?_toJson (t : Tally) : ofJson? t.toJson = some t := by
  simp [Tally.ofJson?, Tally.toJson, Json.field?, Json.get?, List.lookup_cons, Json.number?]

/-- The report of a run is read back. -/
lemma RunReport.ofJson?_toJson (r : RunReport) : ofJson? r.toJson = some r := by
  have root : r.toJson.field? "root" Json.path? = some r.root := rfl
  have mode : r.toJson.field? "mode" (Json.named? Mode.ofKey?) = some r.mode := r.mode.named?_key
  have rules : r.toJson.field? "rules" (Json.list? (Json.named? Rule.ofKey?)) = some r.rules :=
    Json.list?_array Rule.named?_key r.rules
  have tally : r.toJson.field? "stats" Tally.ofJson? = some r.tally :=
    (Json.field?_of_get? rfl).trans r.tally.ofJson?_toJson
  have files : r.toJson.field? "files" (Json.list? FileRecord.ofJson?) = some r.files :=
    Json.list?_array FileRecord.ofJson?_toJson r.files
  rw [ofJson?, root, mode, rules, tally, files]
  rfl

/-- The report of a restoration is read back. -/
lemma Restoration.ofJson?_toJson (r : Restoration) : ofJson? r.toJson = some r := by
  have paths : ∀ p : Path, Json.path? (.string p.text) = some p := fun _ => rfl
  have restored : r.toJson.field? "restored" (Json.list? Json.path?) = some r.restored :=
    Json.list?_array paths r.restored
  have pending : r.toJson.field? "pending" (Json.list? Json.path?) = some r.pending :=
    Json.list?_array paths r.pending
  have errors : r.toJson.field? "errors" (Json.list? Json.text?) = some r.errors :=
    Json.list?_array Json.text?_string r.errors
  rw [ofJson?, restored, pending, errors]
  rfl

/-- Reads the report of a run from its text. -/
def RunReport.decode? (t : Text) : Option RunReport := (Json.parse? t).bind RunReport.ofJson?

/-- Reads the report of a restore from its text. -/
def Restoration.decode? (t : Text) : Option Restoration := (Json.parse? t).bind Restoration.ofJson?

/-- What is printed writes the value, also with the newline at its end. -/
lemma writes_pretty_newline (j : Json) : Json.Writes (j.pretty ++ "\n") (.value j) :=
  .pad (s := []) Json.space_nil (Json.writes_pretty j) (List.forall_mem_singleton.2 rfl)

/-- Whatever a run or a restore reports, its machine-readable report is a JSON text, and what is read
from that text is the report. -/
theorem reports_read_back :
    (∀ r : RunReport, Json.WellFormed (Command.showRun r .json) ∧
      RunReport.decode? (Command.showRun r .json) = some r) ∧
    (∀ r : Restoration, Json.WellFormed (Command.showRestore r .json) ∧
      Restoration.decode? (Command.showRestore r .json) = some r) := by
  constructor
  · intro r
    have writes := writes_pretty_newline r.toJson
    refine ⟨⟨_, writes⟩, ?_⟩
    rw [RunReport.decode?, Command.showRun, Json.parse?_of_writes writes]
    exact r.ofJson?_toJson
  · intro r
    have writes := writes_pretty_newline r.toJson
    refine ⟨⟨_, writes⟩, ?_⟩
    rw [Restoration.decode?, Command.showRestore, Json.parse?_of_writes writes]
    exact r.ofJson?_toJson

end Mender
