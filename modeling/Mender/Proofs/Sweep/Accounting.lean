import Mender.Command.Execute
import Mender.Proofs.Sweep.Effect

/-!
# The accounts of a sweep

The counters of a sweep are what its records add up to. `Counts` says by how much counters go up for a
list of records; mending one file counts its record (`counts_mendFile`), whether it fails or not, since
a file that could be read can also be written and no count is made before that. So the counters of a
whole sweep agree with its report, whatever paths it is given (`tally_mendAll`), and the program ends
with exit code 0 exactly when no file is reported as failed.
-/

namespace Mender

/-! ## What a record counts for -/

/-- The hits of one rule among the records of all rules. -/
def hitsIn (rules : List RuleRecord) (r : Rule) : Nat :=
  ((rules.filter (·.rule = r)).map (·.hits)).sum

namespace FileRecord

/-- The hits of a rule in a file. -/
def hitsOf (o : FileRecord) (r : Rule) : Nat := hitsIn o.rules r

/-- Whether a file failed for want of a backup, by the words of its error. -/
def lostBackup (o : FileRecord) : Bool :=
  o.status = .failed && o.error.any ("Backup failed for ".toList.isPrefixOf ·)

/-- The words of an error tell whether a backup was the reason. -/
lemma lostBackup_ofFailure (p : Path) (f : Failure) : (ofFailure p f).lostBackup = f.isBackup := by
  cases f with
  | filesystem path c => rfl
  | settings e => rfl
  | backup path c =>
    have words : "Backup failed for ".toList <+: (Failure.backup path c).message := by
      unfold Failure.message
      dsimp only
      rw [List.append_assoc, List.append_assoc]
      exact List.prefix_append _ _
    exact List.isPrefixOf_iff_prefix.2 words

end FileRecord

/-- Counters go from `t` to `t'` by exactly what the records say. -/
structure Counts (t : Tally) (records : List FileRecord) (t' : Tally) : Prop where
  scanned : t'.scanned = t.scanned + records.length
  changed : t'.changed = t.changed + records.countP (·.status = .changed)
  hits : ∀ r, t'.hits r = t.hits r + (records.map (·.hitsOf r)).sum
  backups : t'.backups = t.backups + records.countP (·.backup = some .made)
  failures : t'.failures = t.failures + records.countP (·.status = .failed)
  backupFailures : t'.backupFailures = t.backupFailures + records.countP (·.lostBackup)

namespace Counts

/-- Without records no counter goes up. -/
lemma nil (t : Tally) : Counts t [] t :=
  ⟨rfl, rfl, fun _ => rfl, rfl, rfl, rfl⟩

/-- What two lists of records count for adds up. -/
lemma append {t t' t'' : Tally} {records records' : List FileRecord} (fst : Counts t records t')
    (snd : Counts t' records' t'') : Counts t (records ++ records') t'' := by
  constructor
  case hits =>
    intro r
    rw [snd.hits, fst.hits, List.map_append, List.sum_append, Nat.add_assoc]
  case scanned => rw [snd.scanned, fst.scanned, List.length_append, Nat.add_assoc]
  case changed => rw [snd.changed, fst.changed, List.countP_append, Nat.add_assoc]
  case backups => rw [snd.backups, fst.backups, List.countP_append, Nat.add_assoc]
  case failures => rw [snd.failures, fst.failures, List.countP_append, Nat.add_assoc]
  case backupFailures =>
    rw [snd.backupFailures, fst.backupFailures, List.countP_append, Nat.add_assoc]

end Counts

/-! ## Mending one file -/

/-- A file that is created is a new one where nothing was. -/
lemma FileTree.put_of_create {tree tree' : FileTree} {p : Path} {bytes : ByteArray}
    (made : tree.create p bytes = .ok tree') :
    ∃ l, tree' = tree.put l (.file bytes) ∧ tree.get? l = none ∧ l ≠ [] := by
  obtain ⟨l, vacant, rfl⟩ := create_eq_ok_iff.1 made
  exact ⟨l, rfl, get?_of_vacant (resolve_eq_ok.1 vacant).2⟩

/-- The ways in which asking for a backup can go: something is in its place, there is one, the source cannot
be read, the backup cannot be made, or it is made. -/
inductive Backup.Ensures (suffix : Text) (tree : FileTree) (p : Path) :
    Except Failure (BackupFate × FileTree) → Prop where
  | blocked {f} :
    inPlace tree (pathOf suffix p) = .error f →
    Ensures suffix tree p (.error f)
  | kept :
    inPlace tree (pathOf suffix p) = .ok true →
    Ensures suffix tree p (.ok (.kept, tree))
  | unread {e} :
    inPlace tree (pathOf suffix p) = .ok false →
    tree.read p = .error e →
    Ensures suffix tree p (.error (.backup p (.refused e)))
  | unmade {bytes e} :
    inPlace tree (pathOf suffix p) = .ok false →
    tree.read p = .ok bytes →
    tree.create (pathOf suffix p) bytes = .error e →
    Ensures suffix tree p (.error (.backup (pathOf suffix p) (.refused e)))
  | made {bytes tree'} :
    inPlace tree (pathOf suffix p) = .ok false →
    tree.read p = .ok bytes →
    tree.create (pathOf suffix p) bytes = .ok tree' →
    Ensures suffix tree p (.ok (.made, tree'))

/-- Asking for a backup goes in one of these ways. -/
lemma Backup.ensures (suffix : Text) (tree : FileTree) (p : Path) :
    Ensures suffix tree p (ensure suffix tree p) := by
  unfold ensure
  dsimp only
  cases place : inPlace tree (pathOf suffix p) with
  | error f => exact .blocked place
  | ok there =>
    rw [ok_bind]
    cases there with
    | true => exact .kept place
    | false =>
      rw [if_neg Bool.false_ne_true]
      cases read : tree.read p with
      | error e => exact .unread place read
      | ok bytes =>
        dsimp only
        cases create : tree.create (pathOf suffix p) bytes with
        | error e => exact .unmade place read create
        | ok tree' => exact .made place read create

/-- A backup that is made is a new file where nothing was. -/
lemma Backup.put_of_made {suffix : Text} {tree tree' : FileTree} {p : Path}
    (made : ensure suffix tree p = .ok (.made, tree')) :
    ∃ l b, tree' = tree.put l (.file b) ∧ tree.get? l = none ∧ l ≠ [] := by
  have ways := ensures suffix tree p
  rw [made] at ways
  cases ways with
  | made _ _ create =>
    obtain ⟨l, eq, free⟩ := FileTree.put_of_create create
    exact ⟨l, _, eq, free⟩

namespace Recipe

/-- The hits of a rule are those in the first record and those in the others. -/
lemma hitsIn_cons (a : RuleRecord) (rules : List RuleRecord) (r : Rule) :
    hitsIn (a :: rules) r = (if a.rule = r then a.hits else 0) + hitsIn rules r := by
  by_cases same : a.rule = r
  · simp [hitsIn, same]
  · simp [hitsIn, same]

/-- The counter of a rule goes up by its hits among the records. -/
lemma hits_countHits (rules : List RuleRecord) (t : Tally) (r : Rule) :
    (countHits rules t).hits r = t.hits r + hitsIn rules r := by
  induction rules generalizing t with
  | nil => rfl
  | cons a rules ih =>
    change (countHits rules (t.addHits a.rule a.hits)).hits r = _
    rw [ih, Tally.hits_addHits, hitsIn_cons, Nat.add_assoc]

/-- Hits leave the counters alone that are for no rule. -/
lemma countHits_others (rules : List RuleRecord) (t : Tally) :
    { countHits rules t with timestamps := 0, guards := 0, loggers := 0 } =
      { t with timestamps := 0, guards := 0, loggers := 0 } := by
  induction rules generalizing t with
  | nil => rfl
  | cons a rules ih =>
    refine (ih (t.addHits a.rule a.hits)).trans ?_
    cases a.rule <;> rfl

/-- Counters that are right but for the hits of a file are right once its hits are added. -/
lemma counts_countHits {o : FileRecord} {t t' : Tally} (plain : Counts t [{ o with rules := [] }] t') :
    Counts t [o] (countHits o.rules t') := by
  have others := countHits_others o.rules t'
  constructor
  case hits =>
    intro r
    rw [hits_countHits, plain.hits]
    rfl
  case scanned => exact (congrArg Tally.scanned others).trans plain.scanned
  case changed => exact (congrArg Tally.changed others).trans plain.changed
  case backups => exact (congrArg Tally.backups others).trans plain.backups
  case failures => exact (congrArg Tally.failures others).trans plain.failures
  case backupFailures => exact (congrArg Tally.backupFailures others).trans plain.backupFailures

/-- The counters of a file that did not fail are those of its record. -/
lemma counts_counted {o : FileRecord} (ok : o.status ≠ .failed) (t : Tally) :
    Counts t [o] (counted o t.addScanned) := by
  apply counts_countHits
  constructor
  case hits =>
    intro r
    split <;> split <;> cases r <;> rfl
  all_goals
    by_cases changed : o.status = .changed
    all_goals by_cases made : o.backup = some .made
    all_goals simp [changed, made, ok, FileRecord.lostBackup, Tally.addScanned, Tally.addChanged, Tally.addBackup]

/-- In a writing run, asking for a backup comes to what becomes of it. -/
lemma backUp_of_write {r : Recipe} (mode : r.mode = .write) (p : Path) (s : Session) :
    r.backUp p s = match Backup.ensure r.suffix s.tree p with
      | .error f => .error f s
      | .ok (.kept, _) => .ok (some .kept) s
      | .ok (.made, tree) => .ok (some .made) ⟨tree, s.tally.addBackup⟩ := by
  simp only [backUp, mode, bind, EStateM.bind, get, getThe, MonadStateOf.get, EStateM.get]
  cases Backup.ensure r.suffix s.tree p with
  | error f => rfl
  | ok made =>
    obtain ⟨fate, tree⟩ := made
    cases fate <;> rfl

/-- Asking for a backup fails and does nothing, or it adds to the tree at most, and what it makes is
counted. -/
lemma backUp_cases (r : Recipe) (p : Path) (s : Session) :
    (∃ f, r.backUp p s = .error f s) ∨
    ∃ fate tree, r.backUp p s =
        .ok fate ⟨tree, if fate = some .made then s.tally.addBackup else s.tally⟩ ∧
      tree.workingDirectory = s.tree.workingDirectory ∧
      ∀ l e, s.tree.get? l = some e → tree.get? l = some e := by
  cases mode : r.mode with
  | preview =>
    refine .inr ⟨none, s.tree, ?_, rfl, fun _ _ get => get⟩
    simp only [backUp, mode]
    rfl
  | write =>
    rw [backUp_of_write mode]
    cases done : Backup.ensure r.suffix s.tree p with
    | error f => exact .inl ⟨f, rfl⟩
    | ok made =>
      obtain ⟨fate, tree⟩ := made
      cases fate with
      | kept => exact .inr ⟨some .kept, s.tree, rfl, rfl, fun _ _ get => get⟩
      | made =>
        obtain ⟨l, b, rfl, free, ne⟩ := Backup.put_of_made done
        refine .inr ⟨some .made, _, rfl, rfl, fun l' e get => ?_⟩
        have away : l' ≠ l := by
          rintro rfl
          rw [free] at get
          cases get
        rw [FileTree.get?_put s.tree _ _ ne, if_neg away, get]

/-- Once the backup is settled nothing fails, for a file that could be read. -/
lemma conclude_of_read {r : Recipe} {p : Path} {tree : FileTree} {bytes : ByteArray} {s : Session}
    (read : tree.read p = .ok bytes) (here : s.tree.workingDirectory = tree.workingDirectory)
    (keeps : ∀ l e, tree.get? l = some e → s.tree.get? l = some e) (before : Text)
    (backup : Option BackupFate) :
    ∃ tree', r.conclude p before backup s = .ok (r.recordOf p before backup)
      ⟨tree', countHits (r.recordOf p before backup).rules
        (if (r.recordOf p before backup).status = .changed then s.tally.addChanged else s.tally)⟩ := by
  obtain ⟨l, write⟩ := FileTree.write_of_read here keeps read (applyRules r.rules before).2.toBytes
  have save : save p (applyRules r.rules before).2 s =
      .ok () ⟨s.tree.put l (.file (applyRules r.rules before).2.toBytes), s.tally⟩ := by
    unfold save
    simp only [bind, EStateM.bind, get, getThe, MonadStateOf.get, EStateM.get, write]
    rfl
  unfold conclude
  by_cases changed : (r.recordOf p before backup).status = .changed
  · cases mode : r.mode with
    | write =>
      simp only [changed, bind_eq, save, if_true]
      exact ⟨_, rfl⟩
    | preview =>
      simp only [changed, reduceCtorEq, if_true, if_false]
      exact ⟨_, rfl⟩
  · simp only [changed, if_false]
    exact ⟨_, rfl⟩

/-- A file that was read is recorded under its path, and not as failed. -/
lemma status_recordOf (r : Recipe) (p : Path) (before : Text) (backup : Option BackupFate) :
    (r.recordOf p before backup).status ≠ .failed ∧ (r.recordOf p before backup).path = p := by
  unfold recordOf
  dsimp only
  split
  · exact ⟨nofun, rfl⟩
  · exact ⟨nofun, rfl⟩

/-- A file that has a text has bytes. -/
lemma read_of_readText {tree : FileTree} {p : Path} {before : Text}
    (text : readText tree p = .ok before) : ∃ bytes, tree.read p = .ok bytes := by
  unfold readText at text
  cases read : tree.read p with
  | error e =>
    rw [read] at text
    cases text
  | ok bytes => exact ⟨bytes, rfl⟩

/-- Mending a file fails and leaves the counters alone, or it counts what it records. -/
lemma mend_cases (r : Recipe) (p : Path) (s : Session) :
    (∃ f, (r.mend p).run s = .error f s) ∨
    ∃ before fate tree, readText s.tree p = .ok before ∧
      (r.mend p).run s =
        .ok (r.recordOf p before fate) ⟨tree, counted (r.recordOf p before fate) s.tally⟩ := by
  rw [mend_eq_conclude]
  cases text : readText s.tree p with
  | error f => exact .inl ⟨f, rfl⟩
  | ok before =>
    obtain ⟨bytes, read⟩ := read_of_readText text
    have finish : ∀ fate tree, tree.workingDirectory = s.tree.workingDirectory →
        (∀ l e, s.tree.get? l = some e → tree.get? l = some e) →
        ∃ tree', r.conclude p before fate
            ⟨tree, if fate = some .made then s.tally.addBackup else s.tally⟩ =
          .ok (r.recordOf p before fate) ⟨tree', counted (r.recordOf p before fate) s.tally⟩ := by
      intro fate tree here keeps
      obtain ⟨tree', done⟩ := conclude_of_read (r := r) (s := ⟨tree, _⟩) read here keeps before fate
      refine ⟨tree', done.trans ?_⟩
      rw [counted, backup_recordOf]
    dsimp only
    split
    · rw [bind_eq]
      obtain ⟨f, stop⟩ | ⟨fate, tree, made, here, keeps⟩ := backUp_cases r p s
      · rw [stop]
        exact .inl ⟨f, rfl⟩
      · rw [made]
        obtain ⟨tree', done⟩ := finish fate tree here keeps
        exact .inr ⟨before, fate, tree', rfl, done⟩
    · rw [pure_bind]
      obtain ⟨tree', done⟩ := finish none s.tree rfl fun _ _ get => get
      exact .inr ⟨before, none, tree', rfl, done⟩

end Recipe

/-! ## Mending many files -/

namespace Sweep

/-- Mending one file counts its record, which is for its path. -/
lemma counts_mendFile (w : Sweep) (p : Path) (s : Session) :
    Counts s.tally [(w.mendFile p s).1] (w.mendFile p s).2.tally ∧ (w.mendFile p s).1.path = p ∧
      ((w.mendFile p s).1.status = .failed → ∃ f, (w.mendFile p s).1 = .ofFailure p f) := by
  unfold mendFile
  obtain ⟨f, failed⟩ | ⟨before, fate, tree, _, done⟩ :=
    w.recipe.mend_cases p { s with tally := s.tally.addScanned }
  · rw [failed]
    refine ⟨?_, rfl, fun _ => ⟨f, rfl⟩⟩
    constructor
    case hits =>
      intro r
      cases r <;> rfl
    case backupFailures =>
      rw [List.countP_singleton, FileRecord.lostBackup_ofFailure]
      rfl
    all_goals rfl
  · rw [done]
    obtain ⟨ok, path⟩ := w.recipe.status_recordOf p before fate
    exact ⟨Recipe.counts_counted ok s.tally, path, fun failed => absurd failed ok⟩

/-- Mending many files counts their records, one for each path, and what failed is recorded with its reason.
-/
lemma counts_mendEach (w : Sweep) (ps : List Path) (s : Session) :
    Counts s.tally (w.mendEach ps s).1 (w.mendEach ps s).2.tally ∧
      (w.mendEach ps s).1.map (·.path) = ps ∧
      ∀ o ∈ (w.mendEach ps s).1, o.status = .failed → ∃ f, o = .ofFailure o.path f := by
  induction ps generalizing s with
  | nil => exact ⟨.nil _, rfl, nofun⟩
  | cons p ps ih =>
    obtain ⟨one, path, failed⟩ := w.counts_mendFile p s
    obtain ⟨rest, paths, others⟩ := ih (w.mendFile p s).2
    refine ⟨one.append rest, ?_, ?_⟩
    · exact List.cons_eq_cons.2 ⟨path, paths⟩
    · change ∀ o ∈ (w.mendFile p s).1 :: (w.mendEach ps (w.mendFile p s).2).1, _
      rw [List.forall_mem_cons, path]
      exact ⟨failed, others⟩

/-- A watcher sees the files in their order, and changes nothing. -/
lemma mendEachWatched_eq {σ : Type} (w : Sweep) (watch : σ → Path → σ) (ps : List Path) (s : Session)
    (x : σ) : w.mendEachWatched watch ps s x =
      ((w.mendEach ps s).1, (w.mendEach ps s).2, ps.foldl watch x) := by
  induction ps generalizing s x with
  | nil => rfl
  | cons p ps ih =>
    rw [Sweep.mendEachWatched]
    dsimp only
    rw [ih]
    rfl

/-- The report of a run is that of its sources. -/
lemma mendAll_of_run {w : Sweep} {tree tree' : FileTree} {report : RunReport}
    (run : w.run tree = .ok (report, tree')) : ∃ files, w.mendAll files tree = (report, tree') := by
  unfold Sweep.run at run
  cases found : w.sources tree with
  | error f =>
    rw [found] at run
    cases run
  | ok files =>
    rw [found] at run
    exact ⟨files, Except.ok.inj run⟩

/-- A report is clean when no file in it failed. -/
lemma isClean_mendAll (w : Sweep) (files : List Path) (tree : FileTree) :
    (w.mendAll files tree).1.isClean = true ↔ (w.mendAll files tree).1.failed = [] := by
  have failures := (w.counts_mendEach files { tree }).1.failures
  rw [Nat.zero_add] at failures
  change decide ((w.mendEach files { tree }).2.tally.failures = 0) = true ↔ _
  rw [failures, decide_eq_true_iff, List.countP_eq_length_filter, List.length_eq_zero_iff]
  rfl

end Sweep

/-- The report of the command is that of a sweep over some files. -/
lemma Command.mendAll_of_run {request : RunRequest} {settings : Settings} {tree tree' : FileTree}
    {report : RunReport} (ran : run request settings tree = .ok (report, tree')) :
    ∃ (w : Sweep) (files : List Path), w.mendAll files tree = (report, tree') := by
  unfold run at ran
  dsimp only at ran
  cases accepted : Sweep.ofSettings (request.adjust settings) request.path
      (if request.dryRun then .preview else .write) with
  | error f =>
    rw [accepted] at ran
    cases ran
  | ok w =>
    rw [accepted] at ran
    change (w.run tree).mapError (Abort.ofScan request.path) = _ at ran
    cases done : w.run tree with
    | error f =>
      rw [done] at ran
      cases ran
    | ok result =>
      rw [done] at ran
      obtain ⟨files, all⟩ := Sweep.mendAll_of_run done
      exact ⟨w, files, all.trans (Except.ok.inj ran)⟩

/-- The program ends a run with exit code 0 exactly when it has a report in which no file failed. -/
lemma exitCode_run (request : Command.RunRequest) (format : Command.Format) (config home : Option Path)
    (tree : FileTree) :
    (Command.Invocation.execute ⟨.run request, format, config⟩ home tree).1.exitCode = 0 ↔
      ∃ settings report tree', Settings.inForce tree home config = .ok settings ∧
        Command.run request settings tree = .ok (report, tree') ∧ report.failed = [] := by
  unfold Command.Invocation.execute
  cases inForce : Settings.inForce tree home config with
  | error f =>
    refine iff_of_false Nat.one_ne_zero ?_
    rintro ⟨_, _, _, ⟨⟩, _⟩
  | ok settings =>
    simp only [Except.mapError, Except.bind]
    cases ran : Command.run request settings tree with
    | error a =>
      refine iff_of_false Nat.one_ne_zero ?_
      rintro ⟨_, _, _, ⟨⟩, ran', _⟩
      rw [ran] at ran'
      cases ran'
    | ok result =>
      obtain ⟨report, tree'⟩ := result
      have clean : report.isClean = true ↔ report.failed = [] := by
        obtain ⟨sweep, files, all⟩ := Command.mendAll_of_run ran
        have truth := sweep.isClean_mendAll files tree
        rw [all] at truth
        exact truth
      have code : (Command.reportResult report.isClean (Command.showRun report format)).exitCode = 0 ↔
          report.isClean = true := by
        unfold Command.reportResult
        cases report.isClean <;> simp
      refine code.trans (clean.trans ⟨fun none => ⟨settings, report, tree', rfl, ran, none⟩, ?_⟩)
      rintro ⟨_, _, _, ⟨⟩, ran', none⟩
      rw [ran] at ran'
      cases ran'
      exact none

/-- The counters and the exit code tell the truth about the records. Whatever paths a sweep is given,
there is one record for each of them in their order and a watcher sees them in their order; each counter
is what the records add up to; and a run has exit code 0 exactly when no record is that of a failure. -/
theorem tally_mendAll {w : Sweep} {files : List Path} {tree tree' : FileTree} {report : RunReport}
    (ran : w.mendAll files tree = (report, tree')) :
    (report.tally.scanned = files.length ∧ report.files.length = files.length ∧
      report.files.map (·.path) = files ∧
      ∀ (σ : Type) (watch : σ → Path → σ) (x : σ),
        w.mendAllWatched watch files tree x = ((report, tree'), files.foldl watch x)) ∧
    report.tally.changed = report.files.countP (·.status = .changed) ∧
    (∀ r, report.tally.hits r = (report.files.map (·.hitsOf r)).sum) ∧
    report.tally.backups = report.files.countP (·.backup = some .made) ∧
    report.tally.failures = report.files.countP (·.status = .failed) ∧
    (report.tally.backupFailures = report.files.countP (·.lostBackup) ∧
      ∀ o ∈ report.failed, ∃ f, o = .ofFailure o.path f ∧ o.lostBackup = f.isBackup) ∧
    (report.isClean = true ↔ report.failed = []) ∧
    ∀ request format config home,
      (Command.Invocation.execute ⟨.run request, format, config⟩ home tree).1.exitCode = 0 ↔
        ∃ settings report tree', Settings.inForce tree home config = .ok settings ∧
          Command.run request settings tree = .ok (report, tree') ∧ report.failed = [] := by
  obtain ⟨counts, paths, failed⟩ := w.counts_mendEach files { tree }
  have clean := w.isClean_mendAll files tree
  have length := congrArg List.length paths
  rw [List.length_map] at length
  have watched : ∀ (σ : Type) (watch : σ → Path → σ) (x : σ),
      w.mendAllWatched watch files tree x = (w.mendAll files tree, files.foldl watch x) := by
    intro σ watch x
    unfold Sweep.mendAllWatched
    rw [Sweep.mendEachWatched_eq]
    rfl
  rw [ran] at clean watched
  obtain ⟨rfl, rfl⟩ := Prod.mk.inj ran
  obtain ⟨scanned, changed, hits, backups, failures, backupFailures⟩ := counts
  simp only [Nat.zero_add] at scanned changed backups failures backupFailures
  refine ⟨⟨scanned.trans length, length, paths, watched⟩, changed, ?_, backups, failures,
    ⟨backupFailures, ?_⟩, clean, fun request format config home => exitCode_run ..⟩
  · intro r
    refine (hits r).trans ?_
    cases r <;> exact Nat.zero_add _
  · intro o mem
    obtain ⟨mem, status⟩ := List.mem_filter.1 mem
    obtain ⟨f, eq⟩ := failed o mem (of_decide_eq_true status)
    refine ⟨f, eq, ?_⟩
    rw [eq, FileRecord.lostBackup_ofFailure]

/-- Paths of the sample: one that is given twice, and one that leads nowhere. -/
def samplePaths : List Path := [⟨"./a.cs".toList⟩, ⟨"./gone.cs".toList⟩, ⟨"./a.cs".toList⟩]

/-- A path that is given twice counts twice, and one that leads nowhere counts as a failure. -/
theorem tally_mendAll_sample :
    (sampleSweep.mendAll samplePaths sampleTree).1.tally.scanned = 3 ∧
    (sampleSweep.mendAll samplePaths sampleTree).1.files.map (·.path) = samplePaths ∧
    (sampleSweep.mendAll samplePaths sampleTree).1.tally.failures =
      (sampleSweep.mendAll samplePaths sampleTree).1.files.countP (·.status = .failed) := by
  have truth := tally_mendAll (Prod.mk.eta (p := sampleSweep.mendAll samplePaths sampleTree)).symm
  exact ⟨truth.1.1, truth.1.2.2.1, truth.2.2.2.2.1⟩

end Mender
