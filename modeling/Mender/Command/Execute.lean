import Mender.Sweep
import Mender.Command.Invocation
import Mender.Report.Json
import Mender.Report.Prose
import Mender.Settings.File

/-!
# Commands

The program as a function from its arguments and a file tree to what it prints, its exit code and
the file tree it leaves. Failures of single files are part of the report; what stops a command is
printed as an error with the causes that lie behind it.
-/

namespace Mender.Command

/-- What the program prints, and its exit code. -/
structure Result where
  exitCode : Nat
  stdout : Text := []
  stderr : Text := []
deriving DecidableEq, Repr

/-- What stops a command: a text, and the causes that lie behind it. -/
structure Abort where
  message : Text
  causes : List Text := []
deriving DecidableEq, Repr

namespace Abort

/-- A settings file that cannot be used. -/
def ofSettings (f : Settings.FileFault) : Abort := ⟨f.message, f.causes⟩

/-- A failure that concerns the whole command. -/
def ofFailure (f : Failure) : Abort := ⟨f.message, f.chain.tail⟩

/-- A root that cannot be searched. -/
def ofScan (root : Path) (f : Failure) : Abort := ⟨"Failed to scan " ++ root.text, f.chain⟩

/-- A text whose lines are indented: the first one by `lead`, the others by blanks. -/
def indented (lead : Text) (width : Nat) (t : Text) : Text :=
  lead ++ List.intercalate ('\n' :: List.replicate width ' ') (Text.lines t) ++ "\n"

/-- A cause with its number. -/
def numbered (i : Nat) (t : Text) : Text :=
  let n := Text.ofNat i
  indented (List.replicate (5 - n.length) ' ' ++ n ++ ": ") 7 t

/-- The causes of an error; more than one are numbered. -/
def causeBlock : List Text → Text
  | [] => []
  | [c] => "\nCaused by:\n" ++ indented "    " 4 c
  | cs => "\nCaused by:\n".toList ++ (cs.mapIdx numbered).flatten

/-- What is printed of an error. -/
def render (a : Abort) : Text := "Error: " ++ a.message ++ "\n" ++ causeBlock a.causes

/-- A command that was stopped. -/
def result (a : Abort) : Result := { exitCode := 1, stderr := a.render }

end Abort

/-- Prints a report, and says whether all went well by the exit code. -/
def reportResult (ok : Bool) (report : Text) : Result :=
  { exitCode := if ok then 0 else 1, stdout := report }

/-- A report of a run in the format asked for. -/
def showRun (r : RunReport) : Format → Text
  | .text => r.toText
  | .markdown => r.toMarkdown
  | .json => r.toJson.pretty ++ "\n"

/-- A report of a restore in the format asked for. -/
def showRestore (r : Restoration) : Format → Text
  | .text => r.toText
  | .markdown => r.toText
  | .json => r.toJson.pretty ++ "\n"

/-- The settings of a run: those of the configuration, with rules switched on and then off as asked
for. -/
def RunRequest.adjust (r : RunRequest) (s : Settings) : Settings :=
  let rules := r.enable.foldl (fun w k => w.set k true) s.rules
  let rules := r.disable.foldl (fun w k => w.set k false) rules
  { s with rules, batch := { s.batch with recursive := r.recursive || s.batch.recursive } }

/-- Runs the rules over the sources under a root. -/
def run (r : RunRequest) (settings : Settings) (tree : FileTree) :
    Except Abort (RunReport × FileTree) := do
  let mode := if r.dryRun then Mode.preview else .write
  let sweep ← (Sweep.ofSettings (r.adjust settings) r.path mode).mapError .ofFailure
  (sweep.run tree).mapError (.ofScan r.path)

/-- Restores files one after another from their backups, or lists them. -/
def restoreEach (suffix : Text) (yes : Bool) : List Path → Restoration → FileTree →
    Restoration × FileTree
  | [], report, tree => (report, tree)
  | p :: ps, report, tree =>
    if yes then
      match Backup.restore suffix tree p with
      | .ok tree =>
        restoreEach suffix yes ps { report with restored := report.restored ++ [p] } tree
      | .error f =>
        let error := p.text ++ ": " ++ f.message
        restoreEach suffix yes ps { report with errors := report.errors ++ [error] } tree
    else restoreEach suffix yes ps { report with pending := report.pending ++ [p] } tree

/-- Restores the files under a root from their backups, or lists them. -/
def restore (r : RestoreRequest) (settings : Settings) (tree : FileTree) :
    Except Abort (Restoration × FileTree) := do
  let b := settings.batch
  b.check.mapError fun e => .ofFailure (.settings e)
  let found ← (Backup.find b.backupSuffix tree r.path (r.recursive || b.recursive)).mapError
    (.ofScan r.path)
  return restoreEach b.backupSuffix r.yes (found.filterMap (Backup.sourceOf? b.backupSuffix))
    {} tree

/-- Writes a configuration file, unless there is one and it is not to be overwritten. -/
def init (path : Path) (force : Bool) (tree : FileTree) : Result × FileTree :=
  if tree.pathExists path && !force then
    (Abort.result ⟨path.text ++ " already exists (use --force to overwrite)", []⟩, tree)
  else match Settings.writeDefault tree path with
    | (tree, .error f) => ((Abort.ofSettings f).result, tree)
    | (tree, .ok ()) =>
      (reportResult true ("✓ Wrote default config to " ++ path.text ++ "\n"), tree)

/-- What the program prints when asked for its version. -/
def versionText : Text := "critfix 0.1.0\n"

/-- Carries out an invocation. -/
def Invocation.execute (i : Invocation) (home : Option Path) (tree : FileTree) :
    Result × FileTree :=
  let settings := (Settings.inForce tree home i.config).mapError Abort.ofSettings
  match i.request with
  | .run r =>
    match settings.bind fun s => run r s tree with
    | .error a => (a.result, tree)
    | .ok (report, tree) => (reportResult report.isClean (showRun report i.format), tree)
  | .restore r =>
    match settings.bind fun s => restore r s tree with
    | .error a => (a.result, tree)
    | .ok (report, tree) => (reportResult report.errors.isEmpty (showRestore report i.format), tree)
  | .init path force => init path force tree

/-- The program: what it prints for its arguments, and the file tree it leaves. Arguments that make
no sense give exit code 2. -/
def perform (args : List Text) (home : Option Path) (tree : FileTree) : Result × FileTree :=
  match Invocation.parse args with
  | .error .usage => ({ exitCode := 2 }, tree)
  | .error .version => ({ exitCode := 0, stdout := versionText }, tree)
  | .ok i => i.execute home tree

end Mender.Command
