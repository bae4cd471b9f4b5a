import Mender.Report.Basic

/-!
# Mending one file

A file is read, backed up, put through the rules and written if its text changed. What happens to
the file tree and to the counters on the way stays, also if a later step fails.
-/

namespace Mender

/-- What mending a file works on. -/
structure Session where
  tree : FileTree
  tally : Tally := {}

/-- A step of mending: it may change the session, and it may fail. -/
abbrev Step := EStateM Failure Session

/-- How files are mended. -/
structure Recipe where
  rules : List Rule
  suffix : Text
  timing : BackupTiming
  mode : Mode
deriving DecidableEq, Repr

/-- The text of a file. -/
def readText (tree : FileTree) (p : Path) : Except Failure Text :=
  match tree.read p with
  | .error e => .error (.filesystem p (.refused e))
  | .ok bytes => match Text.ofBytes? bytes with
    | none => .error (.filesystem p .notText)
    | some t => .ok t

namespace Recipe

/-- Backs a file up, unless nothing is to be written. -/
def backUp (r : Recipe) (p : Path) : Step (Option BackupFate) := do
  match r.mode with
  | .preview => return none
  | .write =>
    let s ← get
    match Backup.ensure r.suffix s.tree p with
    | .error f => throw f
    | .ok (.kept, _) => return some .kept
    | .ok (.made, tree) =>
      set { s with tree, tally := s.tally.addBackup : Session }
      return some .made

/-- Writes the new text of a file. -/
def save (p : Path) (t : Text) : Step Unit := do
  let s ← get
  match s.tree.write p t.toBytes with
  | .error e => throw (.filesystem p (.refused e))
  | .ok tree => set { s with tree }

/-- What is recorded of the rules that were applied. -/
def records (applications : List Application) : List RuleRecord :=
  applications.map fun a => ⟨a.rule, a.outcome.hits, a.outcome.abstention?⟩

/-- Counts the hits of all rules. -/
def countHits (records : List RuleRecord) (t : Tally) : Tally :=
  records.foldl (fun t r => t.addHits r.rule r.hits) t

/-- Brings the counters up to date. -/
def count (f : Tally → Tally) : Step Unit := modify fun s => { s with tally := f s.tally }

/-- Mends one file. -/
def mend (r : Recipe) (p : Path) : Step FileRecord := do
  let before ← MonadExcept.ofExcept (readText (← get).tree p)
  let early ← if r.timing = .always then r.backUp p else pure none
  let (applications, after) := applyRules r.rules before
  let rules := records applications
  if after = before then
    count (countHits rules)
    return { path := p, status := .unchanged, rules, backup := early }
  else
    let backup ← if r.timing = .onChange then r.backUp p else pure early
    if r.mode = .write then save p after
    count Tally.addChanged
    count (countHits rules)
    return {
      path := p, status := .changed, rules, backup
      lines := some (Diff.countChanges before after)
      diff := if r.mode = .preview then some (Diff.unified p.text before after) else none }

end Recipe

end Mender
