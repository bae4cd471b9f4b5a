import Mathlib.Data.List.Forall2
import Mender.Proofs.Diff.Patching
import Mender.Proofs.Sweep.Accounting

/-!
# Previews

A preview leaves the tree alone and says what writing would do (`Foretells`): it reports of each file
what the writing sweep reports, unless that one cannot make a backup, and its diff turns the text of a file
into the text that is written. Both sweeps meet the sources as they were at the beginning, so it is enough
to compare the two reports of one file (`agrees_outcome`).

The headings of the diffs are not to be trusted, though: they can be wrong about how many lines a hunk
has.
-/

namespace Mender

/-- Two records are alike but for the backup and the diff. -/
structure FileRecord.Agrees (o o' : FileRecord) : Prop where
  status : o.status = o'.status
  rules : o.rules = o'.rules
  lines : o.lines = o'.lines
  error : o.error = o'.error

/-! ## One file -/

/-- A backup that is refused is a failure of the backup. -/
lemma Backup.isBackup_of_fate {suffix : Text} {p : Path} {name : Text} {found : Option Entry}
    {f : Failure} (refused : fate suffix p name found = .error f) : f.isBackup = true := by
  unfold fate at refused
  split at refused
  all_goals
    cases refused
    try rfl

namespace Recipe

/-- A recipe by which nothing is written. -/
def previewing (r : Recipe) : Recipe := { r with mode := .preview }

variable {r : Recipe} {p : Path} {name : Text} {bytes : ByteArray} {found : Option Entry}

/-- A preview records of a text what a writing run does, but for the backup and the diff. -/
lemma agrees_recordOf (before : Text) (backup backup' : Option BackupFate) :
    (r.previewing.recordOf p before backup).Agrees (r.recordOf p before backup') := by
  unfold recordOf previewing
  dsimp only
  split
  · exact ⟨rfl, rfl, rfl, rfl⟩
  · exact ⟨rfl, rfl, rfl, rfl⟩

/-- A preview of a file agrees with what writing it reports, unless its backup cannot be made. -/
lemma agrees_outcome : (r.outcome p name bytes found).lostBackup = true ∨
    (r.previewing.outcome p name bytes found).Agrees (r.outcome p name bytes found) := by
  have quiet : ∀ before, r.previewing.backsUp before = false := fun _ => rfl
  unfold outcome verdict
  cases FileTree.checkSpelling p with
  | error e => exact .inr ⟨rfl, rfl, rfl, rfl⟩
  | ok u =>
    cases Text.ofBytes? bytes with
    | none => exact .inr ⟨rfl, rfl, rfl, rfl⟩
    | some before =>
      simp only [quiet, Bool.false_eq_true, if_false]
      cases r.backsUp before with
      | false => exact .inr (agrees_recordOf before none none)
      | true =>
        cases fate : Backup.fate r.suffix p name found with
        | error f =>
          refine .inl ?_
          simp only [if_true, Except.map]
          rw [FileRecord.lostBackup_ofFailure]
          exact Backup.isBackup_of_fate fate
        | ok fate' =>
          refine .inr ?_
          simp only [if_true, Except.map]
          exact agrees_recordOf before none (some fate')

/-- The preview of a file that changes shows the diff to its new text. -/
lemma diff_of_changed (changed : (r.previewing.outcome p name bytes found).status = .changed) :
    ∃ before, Text.ofBytes? bytes = some before ∧
      (r.previewing.outcome p name bytes found).diff =
        some (Diff.unified p.text before (applyRules r.rules before).2) := by
  obtain ⟨f, e⟩ | ⟨before, backup, e, -, text, -⟩ := outcome_cases r.previewing p name bytes found
  · rw [e] at changed
    cases changed
  · refine ⟨before, text, ?_⟩
    rw [e] at changed ⊢
    unfold recordOf at changed ⊢
    dsimp only at changed ⊢
    split at changed
    · cases changed
    · next differs =>
      rw [if_neg differs]
      rfl

end Recipe

/-! ## The counters -/

section counting

variable {records records' : List FileRecord} {t u u' : Tally}

/-- Records that agree tell the same of a lost backup. -/
lemma FileRecord.Agrees.lostBackup {o o' : FileRecord} (agrees : o.Agrees o') :
    o.lostBackup = o'.lostBackup := by
  rw [FileRecord.lostBackup, FileRecord.lostBackup, agrees.status, agrees.error]

/-- Records that agree count the same, by anything that agreeing records share. -/
lemma countP_agrees {f : FileRecord → Bool} (same : ∀ {o o' : FileRecord}, o.Agrees o' → f o = f o')
    (agree : List.Forall₂ FileRecord.Agrees records records') :
    records.countP f = records'.countP f := by
  induction agree with
  | nil => rfl
  | cons agrees _ ih => rw [List.countP_cons, List.countP_cons, ih, same agrees]

/-- Records that agree have the same hits of a rule. -/
lemma hits_agrees (r : Rule) (agree : List.Forall₂ FileRecord.Agrees records records') :
    (records.map (·.hitsOf r)).sum = (records'.map (·.hitsOf r)).sum := by
  induction agree with
  | nil => rfl
  | cons agrees _ ih =>
    rw [List.map_cons, List.map_cons, List.sum_cons, List.sum_cons, ih, FileRecord.hitsOf,
      FileRecord.hitsOf, agrees.rules]

/-- Records that agree count for the same, but for the backups. -/
lemma Counts.agree (counts : Counts t records u) (counts' : Counts t records' u')
    (agree : List.Forall₂ FileRecord.Agrees records records') :
    u = { u' with backups := u.backups } := by
  have scanned := counts.scanned.trans (agree.length_eq ▸ counts'.scanned.symm)
  have changed := counts.changed
  rw [countP_agrees (fun agrees => by rw [agrees.status]) agree, ← counts'.changed] at changed
  have failures := counts.failures
  rw [countP_agrees (fun agrees => by rw [agrees.status]) agree, ← counts'.failures] at failures
  have lost := counts.backupFailures
  rw [countP_agrees (fun agrees => agrees.lostBackup) agree, ← counts'.backupFailures] at lost
  have hits : ∀ r, u.hits r = u'.hits r := by
    intro r
    rw [counts.hits, counts'.hits, hits_agrees r agree]
  have timestamps := hits .timestamp
  have guards := hits .debugGuard
  have loggers := hits .logger
  cases u
  cases u'
  simp only [Tally.mk.injEq]
  exact ⟨scanned, changed, timestamps, guards, loggers, trivial, failures, lost⟩

end counting

/-! ## Whole sweeps -/

namespace Lineup

variable {w : Sweep} {tree : FileTree} {files ps : List Path} (L : Lineup w.recipe.suffix tree files)

/-- A preview leaves the tree alone. -/
lemma foldl_settle_of_preview (mode : w.recipe.mode = .preview) (t : FileTree) :
    ps.foldl L.settle t = t := by
  have other : w.recipe.mode ≠ .write := by
    rw [mode]
    nofun
  induction ps generalizing t with
  | nil => rfl
  | cons p ps ih =>
    have unmade : (L.record p).backup ≠ some .made := fun made => other (Recipe.of_made made).1
    have still : L.settle t p = t := by
      rw [settle, Recipe.settled, if_neg unmade, if_neg fun changed => other changed.1]
    rw [List.foldl_cons, still, ih]

/-- The text of a changed file, before and after a writing sweep. -/
lemma texts_of_changed {p : Path} (mode : w.recipe.mode = .write) (nodup : files.Nodup) (mem : p ∈ files)
    (changed : (L.record p).status = .changed) :
    ∃ before, Text.ofBytes? (L.bytes p) = some before ∧ readText tree p = .ok before ∧
      readText (files.foldl L.settle tree) p = .ok (applyRules w.recipe.rules before).2 := by
  obtain ⟨spelling, ⟨before, text, mended⟩, -⟩ := Recipe.of_changed changed
  have source := L.source p mem
  have ways := (L.awaits_foldl (L.awaits files) (fun _ mem => mem) nodup).ways
  have source' : (files.foldl L.settle tree).SourceAt p (L.dir p) (L.name p)
      (applyRules w.recipe.rules before).2.toBytes := by
    rw [← mended]
    exact ⟨source.spells.of_sameWays ways, source.short,
      L.get?_foldl_spot mem (fun _ mem => mem) nodup ⟨mode, changed⟩ tree⟩
  refine ⟨before, text, ?_, ?_⟩
  · rw [Recipe.readText_eq source, spelling, text]
  · rw [Recipe.readText_eq source', spelling, Text.ofBytes?_toBytes]

end Lineup

/-- The report of a preview foretells a writing sweep: what it reports and the tree that it leaves. -/
structure Foretells (tree : FileTree) (report report' : RunReport) (tree' : FileTree) : Prop where
  /-- Both are about the same files in the same order. -/
  paths : report.files.map (·.path) = report'.files.map (·.path)
  /-- The records of a file agree, unless its backup cannot be made. -/
  records : List.Forall₂ (fun o o' => o'.lostBackup = true ∨ o.Agrees o') report.files report'.files
  /-- A file that changes is shown with the diff from its text to what the rules make of it, and this is
  what is written. -/
  diffs : List.Forall₂ (fun o o' => o.status = .changed → o'.status = .changed →
    ∃ before after, (applyRules report.rules before).2 = after ∧ readText tree o.path = .ok before ∧
      readText tree' o.path = .ok after ∧ o.diff = some (Diff.unified o.path.text before after))
    report.files report'.files
  /-- If all backups can be made, the counters are the same but for that of the backups. -/
  tally : (∀ o ∈ report'.files, o.lostBackup = false) →
    report.tally = { report'.tally with backups := report.tally.backups }

namespace Sweep

variable {w : Sweep} {tree : FileTree} {files : List Path}

/-- The sweep that shows what a sweep would do. -/
def previewing (w : Sweep) : Sweep := { w with recipe := w.recipe.previewing }

/-- The preview of a sound sweep is sound. -/
lemma Sound.previewing (sound : w.Sound) : w.previewing.Sound := ⟨sound.ne, sound.sep, sound.excluded⟩

/-- A sweep that finds its sources mends them. -/
lemma run_of_sources (found : w.sources tree = .ok files) : w.run tree = .ok (w.mendAll files tree) := by
  rw [run, found]
  rfl

/-- A preview leaves the tree alone and foretells what the sweep does. -/
lemma Sound.foretells (sound : w.Sound) (mode : w.recipe.mode = .write) (wn : tree.WellNamed)
    (found : w.sources tree = .ok files) :
    w.previewing.run tree = .ok ((w.previewing.mendAll files tree).1, tree) ∧
    w.run tree = .ok (w.mendAll files tree) ∧
    Foretells tree (w.previewing.mendAll files tree).1 (w.mendAll files tree).1
      (w.mendAll files tree).2 := by
  obtain ⟨nodup, ⟨L⟩⟩ := sound.lineup wn found
  obtain ⟨records, final⟩ := sound.previewing.mendAll_eq (w := w.previewing) L (fun _ mem => mem) nodup
  obtain ⟨records', final'⟩ := sound.mendAll_eq L (fun _ mem => mem) nodup
  have still : (w.previewing.mendAll files tree).2 = tree :=
    final.trans (Lineup.foldl_settle_of_preview (w := w.previewing) L rfl tree)
  have run : w.previewing.run tree = .ok (w.previewing.mendAll files tree) := run_of_sources found
  refine ⟨run.trans (congrArg Except.ok (Prod.ext rfl still)), run_of_sources found, ?_⟩
  have agree : ∀ p, (L.record p).lostBackup = true ∨
      (Lineup.record (w := w.previewing) L p).Agrees (L.record p) := fun p => Recipe.agrees_outcome
  -- the records of the two sweeps are compared file by file
  have each : ∀ R : FileRecord → FileRecord → Prop,
      (∀ p ∈ files, R (Lineup.record (w := w.previewing) L p) (L.record p)) →
        List.Forall₂ R (w.previewing.mendAll files tree).1.files (w.mendAll files tree).1.files := by
    intro R related
    rw [records, records', List.forall₂_map_left_iff, List.forall₂_map_right_iff, List.forall₂_same]
    exact related
  constructor
  case paths =>
    rw [records, records', List.map_map, List.map_map]
    refine List.map_congr_left fun p _ => ?_
    exact (Lineup.path_record (w := w.previewing) L p).trans (L.path_record p).symm
  case records => exact each _ fun p _ => agree p
  case diffs =>
    rw [final']
    refine each _ fun p mem changed changed' => ?_
    obtain ⟨before, text, read, read'⟩ := L.texts_of_changed mode nodup mem changed'
    obtain ⟨before', text', diff⟩ := Recipe.diff_of_changed changed
    obtain rfl : before = before' := Option.some.inj (text.symm.trans text')
    rw [Lineup.path_record (w := w.previewing) L p]
    exact ⟨before, _, rfl, read, read', diff⟩
  case tally =>
    intro kept
    have counts := (w.previewing.counts_mendEach files { tree }).1
    have counts' := (w.counts_mendEach files { tree }).1
    rw [records'] at kept
    refine counts.agree counts' (each _ fun p mem => (agree p).resolve_left ?_)
    rw [kept _ (List.mem_map_of_mem mem)]
    nofun

end Sweep

/-- A preview leaves the tree alone and foretells the writing sweep with the same settings, and its diffs
turn the texts of the files that change into the texts that are written. -/
theorem preview_foretells {settings : Settings} {root : Path} {w w' : Sweep} {tree : FileTree}
    {files : List Path} (wn : tree.WellNamed) (preview : Sweep.ofSettings settings root .preview = .ok w)
    (write : Sweep.ofSettings settings root .write = .ok w') (found : w.sources tree = .ok files) :
    ∃ report report' tree', w.run tree = .ok (report, tree) ∧ w'.run tree = .ok (report', tree') ∧
      Foretells tree report report' tree' ∧
      List.Forall₂ (fun o o' => o.status = .changed → o'.status = .changed → ∃ before diff after,
        readText tree o.path = .ok before ∧ o.diff = some diff ∧
          Diff.patched? o.path.text diff before = some after ∧ readText tree' o.path = .ok after)
        report.files report'.files := by
  have sound := Sweep.sound_of_ofSettings write
  have same : w = w'.previewing := by
    rw [(Sweep.ofSettings_eq_ok.1 preview).2, (Sweep.ofSettings_eq_ok.1 write).2]
    rfl
  have mode : w'.recipe.mode = .write := by rw [(Sweep.ofSettings_eq_ok.1 write).2]
  subst same
  obtain ⟨run, run', foretells⟩ := sound.foretells mode wn found
  refine ⟨_, _, _, run, run', foretells, ?_⟩
  refine foretells.diffs.imp fun o o' shown changed changed' => ?_
  obtain ⟨before, after, -, read, read', diff⟩ := shown changed changed'
  exact ⟨before, _, after, read, diff, Diff.patched?_unified o.path.text before after, read'⟩

/-- The preview of the sample foretells its sweep. -/
theorem preview_foretells_sample :
    ∃ report report' tree', sampleSweep.previewing.run sampleTree = .ok (report, sampleTree) ∧
      sampleSweep.run sampleTree = .ok (report', tree') ∧ Foretells sampleTree report report' tree' := by
  have preview : Sweep.ofSettings {} ⟨['.']⟩ .preview = .ok sampleSweep.previewing := rfl
  have write : Sweep.ofSettings {} ⟨['.']⟩ .write = .ok sampleSweep := rfl
  obtain ⟨report, report', tree', run, run', foretells, -⟩ :=
    preview_foretells wellNamed_sampleTree preview write sources_sampleSweep
  exact ⟨report, report', tree', run, run', foretells⟩

/-- A directory with a source whose two lines come to be the same. -/
def twinTree : FileTree :=
  (FileTree.empty []).put ["a.cs".toList] (.file "DateTime.Now\nDateTime.UtcNow\n".toUTF8)

/-- The tree of the twins is well named. -/
lemma wellNamed_twinTree : twinTree.WellNamed :=
  FileTree.wellNamed_empty.put [] _ (by decide) (by decide)

/-- The heading of the only hunk speaks of one old and one new line, and there are two of each. -/
lemma counts_twins (path : Text) :
    Diff.patchedByCount? path (Diff.unified path "DateTime.Now\nDateTime.UtcNow\n"
      "DateTime.UtcNow\nDateTime.UtcNow\n") "DateTime.Now\nDateTime.UtcNow\n" = none := by
  have before : Diff.lines "DateTime.Now\nDateTime.UtcNow\n" =
    ["DateTime.Now\n".toList, "DateTime.UtcNow\n".toList] := by decide
  have after : Diff.lines "DateTime.UtcNow\nDateTime.UtcNow\n" =
    ["DateTime.UtcNow\n".toList, "DateTime.UtcNow\n".toList] := by decide
  have changes : Diff.changes #["DateTime.Now\n".toList, "DateTime.UtcNow\n".toList]
      #["DateTime.UtcNow\n".toList, "DateTime.UtcNow\n".toList] =
    [.delete 0 1 1, .keep 1 0 1, .insert 1 1 1] := by cbv
  rw [Diff.patchedByCount?, Diff.items?_unified, before, after, changes]
  rfl

/-- For a reader who goes by the numbers of lines in the headings, the diff of a preview need not lead to
the text that is written. -/
theorem preview_heading_miscounts :
    ∃ report report' tree', sampleSweep.previewing.run twinTree = .ok (report, twinTree) ∧
      sampleSweep.run twinTree = .ok (report', tree') ∧
      ∃ o ∈ report.files, ∃ o' ∈ report'.files, o.path = o'.path ∧ o.status = .changed ∧
        o'.status = .changed ∧ ∃ before diff after, readText twinTree o.path = .ok before ∧
          o.diff = some diff ∧ readText tree' o.path = .ok after ∧
          Diff.patchedByCount? o.path.text diff before ≠ some after := by
  have found : sampleSweep.sources twinTree = .ok [⟨"./a.cs".toList⟩] := by cbv
  have status : (sampleSweep.mendAll [⟨"./a.cs".toList⟩] twinTree).1.files.map (·.status) =
    [.changed] := by cbv
  have text : readText twinTree ⟨"./a.cs".toList⟩ = .ok "DateTime.Now\nDateTime.UtcNow\n" := by cbv
  have write : Sweep.ofSettings {} ⟨['.']⟩ .write = .ok sampleSweep := rfl
  obtain ⟨run, run', foretells⟩ :=
    (Sweep.sound_of_ofSettings write).foretells rfl wellNamed_twinTree found
  obtain ⟨o', files', changed'⟩ := List.map_eq_singleton_iff.1 status
  have path' : o'.path = ⟨"./a.cs".toList⟩ := by
    have paths := (sampleSweep.counts_mendEach [⟨"./a.cs".toList⟩] { tree := twinTree }).2.1
    change (sampleSweep.mendAll [⟨"./a.cs".toList⟩] twinTree).1.files.map (·.path) = _ at paths
    rw [files'] at paths
    exact List.singleton_inj.1 paths
  obtain ⟨same, records, diffs, -⟩ := foretells
  rw [files'] at same records diffs
  obtain ⟨o, files, path⟩ := List.map_eq_singleton_iff.1 same
  rw [files, List.forall₂_cons] at records diffs
  have changed : o.status = .changed := by
    rcases records.1 with lost | agrees
    · simp [FileRecord.lostBackup, changed'] at lost
    · exact agrees.status.trans changed'
  obtain ⟨before, after, mended, read, read', diff⟩ := diffs.1 changed changed'
  have missed : Diff.patchedByCount? o.path.text (Diff.unified o.path.text before after) before ≠
      some after := by
    have first : readText twinTree o.path = .ok "DateTime.Now\nDateTime.UtcNow\n" := by
      rw [path.trans path', text]
    obtain rfl := Except.ok.inj (first.symm.trans read)
    have written : (applyRules sampleSweep.recipe.rules "DateTime.Now\nDateTime.UtcNow\n").2 =
      "DateTime.UtcNow\nDateTime.UtcNow\n" := by decide
    obtain rfl := written.symm.trans mended
    rw [counts_twins]
    exact (Option.some_ne_none _).symm
  exact ⟨_, _, _, run, run', o, files ▸ List.mem_singleton_self o, o',
    files' ▸ List.mem_singleton_self o', path, changed, changed', before, _, after, read, diff, read',
    missed⟩

end Mender
