import Mender.Report.Basic

/-!
# Reports for people

Reports as plain text for a terminal and as Markdown. Each is put together from blocks, and a block
that has nothing to say is empty.
-/

namespace Mender

namespace FileRecord

/-- How often a rule hit. -/
def hit (r : RuleRecord) : Text := r.rule.name ++ " ×" ++ Text.ofNat r.hits

/-- How many lines changed, if that is known. -/
def changeNote : Option Diff.LineChange → Text
  | none => []
  | some d => "; +" ++ Text.ofNat d.inserted ++ " -" ++ Text.ofNat d.deleted ++ " lines"

/-- What the rules did to a file, in short. -/
def summary (f : FileRecord) : Text :=
  List.intercalate [',', ' '] ((f.rules.filter (0 < ·.hits)).map hit) ++ changeNote f.lines

end FileRecord

namespace RunReport

/-- A line across the page. -/
def bar : Text := List.replicate 60 '=' ++ ['\n']

/-- A counter on a line of its own. -/
def counterLine (caption : Text) (n : Nat) : Text := caption ++ ": " ++ Text.ofNat n ++ "\n"

/-- The heading of a report. -/
def heading : Mode → Text
  | .write => "📊 FINAL STATISTICS\n"
  | .preview => "📊 FINAL STATISTICS (dry run, nothing written)\n"

/-- The counter of a rule, with a mark if the rule was on. -/
def ruleLine (r : RunReport) (k : Rule) : Text :=
  counterLine ((if k ∈ r.rules then "🔧 " else "   ") ++ k.caption) (r.tally.hits k)

/-- The counters of a report. -/
def counters (r : RunReport) : Text :=
  List.flatten [
    counterLine "📄 Files scanned" r.tally.scanned,
    counterLine "✅ Files processed" r.tally.changed,
    Rule.reportOrder.flatMap r.ruleLine,
    if r.mode = .write then counterLine "💾 Backups created" r.tally.backups else [],
    counterLine "❌ Errors" r.tally.failures,
    if r.tally.backupFailures = 0 then []
    else counterLine "⚠️  Backup failures" r.tally.backupFailures]

/-- A file that changed. -/
def changedLine (f : FileRecord) : Text := "  • " ++ f.path.text ++ " (" ++ f.summary ++ ")\n"

/-- The diff of a file, set off by an empty line. -/
def diffBlock (f : FileRecord) : Text :=
  match f.diff with
  | none => []
  | some d => '\n' :: d

/-- A file that failed. -/
def failedLine (f : FileRecord) : Text :=
  "  ⚠️  " ++ f.path.text ++ ": " ++ f.error.getD "unknown error" ++ "\n"

/-- Lines about files under a heading, if there are any. -/
def listing (heading : Text) (line : FileRecord → Text) : List FileRecord → Text
  | [] => []
  | fs => heading ++ fs.flatMap line

/-- The last words of a report. -/
def closing (r : RunReport) : Text :=
  if r.isClean then "\n✅ Completed successfully!\n"
  else "\n⚠️  Completed with ".toList ++ Text.ofNat r.tally.failures ++ " error(s)\n"

/-- A report for the terminal. -/
def toText (r : RunReport) : Text :=
  List.flatten [
    bar, heading r.mode, bar,
    "📁 Directory: " ++ r.root.text ++ "\n",
    r.counters,
    listing "\nChanged files:\n" changedLine r.changed,
    r.changed.flatMap diffBlock,
    listing "\nErrors:\n" failedLine r.failed,
    bar, r.closing]

/-- A counter as a row of a table. -/
def counterRow (caption : Text) (n : Nat) : Text :=
  "| " ++ caption ++ " | " ++ Text.ofNat n ++ " |\n"

/-- The summary of a file in parentheses, if there is one. -/
def summaryNote : Text → Text
  | [] => []
  | summary => " (" ++ summary ++ ")"

/-- What went wrong with a file, if something did. -/
def errorNote : Option Text → Text
  | none => []
  | some e => ": " ++ e

/-- The diff of a file as a code block. -/
def diffCode : Option Text → Text
  | none => []
  | some d => "\n```diff\n" ++ d ++ "```\n\n"

/-- A file as an item of a list, with its diff. -/
def fileItem (f : FileRecord) : Text :=
  "- `" ++ f.path.text ++ "`: " ++ f.status.key ++ summaryNote f.summary ++ errorNote f.error ++
    "\n" ++ diffCode f.diff

/-- A report as Markdown. -/
def toMarkdown (r : RunReport) : Text :=
  List.flatten [
    "# critfix report\n\n",
    "Directory: `" ++ r.root.text ++ "`\n\n",
    if r.mode = .preview then "_Dry run: no files were written._\n\n" else [],
    "| Counter | Value |\n|---|---|\n",
    counterRow "Files scanned" r.tally.scanned,
    counterRow "Files processed" r.tally.changed,
    Rule.reportOrder.flatMap fun k => counterRow k.caption (r.tally.hits k),
    counterRow "Backups created" r.tally.backups,
    counterRow "Errors" r.tally.failures,
    listing "\n## Files\n\n" fileItem r.files]

end RunReport

namespace Restoration

/-- A file as an item of a list. -/
def pathItem (p : Path) : Text := "  • " ++ p.text ++ "\n"

/-- An error as an item of a list. -/
def errorItem (e : Text) : Text := "  ⚠️  " ++ e ++ "\n"

/-- The files that would be restored. -/
def pendingBlock (ps : List Path) : Text :=
  if ps = [] then []
  else Text.ofNat ps.length ++ " file(s) would be restored:\n" ++ ps.flatMap pathItem ++
    "\n💡 Run with --yes to restore them\n"

/-- The files that were restored. -/
def restoredBlock (ps : List Path) : Text :=
  if ps = [] then []
  else "✓ Restored ".toList ++ Text.ofNat ps.length ++ " file(s):\n" ++ ps.flatMap pathItem

/-- What went wrong. -/
def errorBlock (es : List Text) : Text :=
  if es = [] then [] else "\nErrors:\n".toList ++ es.flatMap errorItem

/-- A report of a restore, for the terminal and for Markdown alike. -/
def toText (r : Restoration) : Text :=
  List.flatten [
    pendingBlock r.pending,
    restoredBlock r.restored,
    if r.pending = [] ∧ r.restored = [] ∧ r.errors = [] then "No backups found.\n" else [],
    errorBlock r.errors]

end Restoration

end Mender
