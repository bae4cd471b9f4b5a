import Mender.Proofs.FileTree.Entries
import Mender.Sweep

/-!
# Mending a regular file

What mending reports of a regular file is read off its path, its bytes and what stands where its
backup belongs: this is `Recipe.verdict`, a function that does not look at the rest of the tree. What
mending does to the tree is read off the report (`Recipe.settled`). `mend_eq` ties both to the steps
of `Recipe.mend`, and the lemmas on `verdict` say what the entries of a report vouch for.
-/

namespace Mender

/-- What becomes of the backup of a source, by what is found in its place. -/
def Backup.fate (suffix : Text) (p : Path) (name : Text) (found : Option Entry) :
    Except Failure BackupFate :=
  match FileTree.passable (pathOf suffix p) (name ++ suffix), found with
  | .error e, _ => .error (.backup (pathOf suffix p) (.refused e))
  | .ok (), none => .ok .made
  | .ok (), some (.file _) => .ok .kept
  | .ok (), some _ => .error (.backup (pathOf suffix p) .notRegular)

/-- A backup is made when its path can be followed and nothing is there. -/
lemma Backup.fate_eq_made {suffix : Text} {p : Path} {name : Text} {found : Option Entry} :
    fate suffix p name found = .ok .made ↔
      FileTree.passable (pathOf suffix p) (name ++ suffix) = .ok () ∧ found = none := by
  unfold fate
  cases FileTree.passable (pathOf suffix p) (name ++ suffix) with
  | error e => simp
  | ok u =>
    cases found with
    | none => simp
    | some e => cases e <;> simp

/-- A backup is kept when its path can be followed and a file is there. -/
lemma Backup.fate_eq_kept {suffix : Text} {p : Path} {name : Text} {found : Option Entry} :
    fate suffix p name found = .ok .kept ↔
      FileTree.passable (pathOf suffix p) (name ++ suffix) = .ok () ∧
        ∃ b, found = some (.file b) := by
  unfold fate
  cases FileTree.passable (pathOf suffix p) (name ++ suffix) with
  | error e => simp
  | ok u =>
    cases found with
    | none => simp
    | some e => cases e <;> simp

/-- Backing up a regular file. -/
lemma Backup.ensure_eq {s : Text} {tree : FileTree} {p dir name bytes}
    (src : tree.SourceAt p dir name bytes) (ne : s ≠ []) (sep : '/' ∉ s)
    (spelling : FileTree.checkSpelling p = .ok ()) :
    ensure s tree p = (fate s p name (tree.get? (dir ++ [name ++ s]))).map fun fate =>
      (fate, match fate with
        | .made => tree.put (dir ++ [name ++ s]) (.file bytes)
        | .kept => tree) := by
  have sp := src.spells.pathOf ne sep
  have read : tree.read p = .ok bytes := by rw [src.read_eq, spelling]; rfl
  have found : FileTree.passable (pathOf s p) (name ++ s) ≠ .error .notFound :=
    FileTree.passable_ne_notFound sp.text_ne_nil
  unfold ensure inPlace fate
  simp only [sp.stat_inspect, sp.create_eq, read]
  cases pass : FileTree.passable (pathOf s p) (name ++ s) with
  | error e =>
    cases e with
    | notFound => exact absurd pass found
    | _ => rfl
  | ok u =>
    cases tree.get? (dir ++ [name ++ s]) with
    | none => rfl
    | some e => cases e <;> rfl

namespace Recipe

/-- Whether a file with the given text is backed up. -/
def backsUp (r : Recipe) (before : Text) : Bool :=
  r.mode = .write && (r.timing = .always || (applyRules r.rules before).2 ≠ before)

/-- What is reported of a file with the given text once its backup is settled. -/
def recordOf (r : Recipe) (p : Path) (before : Text) (backup : Option BackupFate) : FileRecord :=
  let (applications, after) := applyRules r.rules before
  if after = before then
    { path := p, status := .unchanged, rules := records applications, backup }
  else {
    path := p, status := .changed, rules := records applications, backup
    lines := some (Diff.countChanges before after)
    diff := if r.mode = .preview then some (Diff.unified p.text before after) else none }

/-- What is reported of a regular file, by its bytes and what is found in place of its backup. -/
def verdict (r : Recipe) (p : Path) (name : Text) (bytes : ByteArray) (found : Option Entry) :
    Except Failure FileRecord :=
  match FileTree.checkSpelling p, Text.ofBytes? bytes with
  | .error e, _ => .error (.filesystem p (.refused e))
  | .ok (), none => .error (.filesystem p .notText)
  | .ok (), some before =>
    if r.backsUp before then
      (Backup.fate r.suffix p name found).map fun fate => r.recordOf p before (some fate)
    else .ok (r.recordOf p before none)

/-- The bytes of a file after the rules were applied to its text. -/
def mended (r : Recipe) (bytes : ByteArray) : ByteArray :=
  ((Text.ofBytes? bytes).map fun t => (applyRules r.rules t).2.toBytes).getD bytes

/-- The tree after a file was mended, by what is reported of the file. -/
def settled (r : Recipe) (dir : Location) (name : Text) (bytes : ByteArray) (record : FileRecord)
    (tree : FileTree) : FileTree :=
  let tree := if record.backup = some .made then tree.put (dir ++ [name ++ r.suffix]) (.file bytes)
    else tree
  if r.mode = .write ∧ record.status = .changed then
    tree.put (dir ++ [name]) (.file (r.mended bytes))
  else tree

/-- The counters after a file was mended, by what is reported of the file. -/
def counted (record : FileRecord) (t : Tally) : Tally :=
  let t := if record.backup = some .made then t.addBackup else t
  countHits record.rules (if record.status = .changed then t.addChanged else t)

/-- Backing up a regular file, unless nothing is to be written. -/
lemma backUp_eq {r : Recipe} {p : Path} {s : Session} {dir name bytes}
    (src : s.tree.SourceAt p dir name bytes) (ne : r.suffix ≠ []) (sep : '/' ∉ r.suffix)
    (spelling : FileTree.checkSpelling p = .ok ()) (mode : r.mode = .write) :
    r.backUp p s =
      match Backup.fate r.suffix p name (s.tree.get? (dir ++ [name ++ r.suffix])) with
      | .error f => .error f s
      | .ok .kept => .ok (some .kept) s
      | .ok .made => .ok (some .made)
        ⟨s.tree.put (dir ++ [name ++ r.suffix]) (.file bytes), s.tally.addBackup⟩ := by
  unfold backUp
  simp only [mode, bind, EStateM.bind, get, getThe, MonadStateOf.get, EStateM.get,
    Backup.ensure_eq src ne sep spelling]
  cases Backup.fate r.suffix p name (s.tree.get? (dir ++ [name ++ r.suffix])) with
  | error f => rfl
  | ok fate => cases fate <;> rfl

/-- Saving a text writes its bytes where the file is. -/
lemma save_eq {p : Path} {s : Session} {dir name bytes} (src : s.tree.SourceAt p dir name bytes)
    (spelling : FileTree.checkSpelling p = .ok ()) (t : Text) :
    save p t s = .ok () ⟨s.tree.put (dir ++ [name]) (.file t.toBytes), s.tally⟩ := by
  unfold save
  simp only [bind, EStateM.bind, get, getThe, MonadStateOf.get, EStateM.get, src.write_eq, spelling]
  rfl

/-- A step goes on with the session that the step before it left, or stops with its error. -/
lemma bind_eq {α β : Type} (x : Step α) (f : α → Step β) (s : Session) :
    (x >>= f) s = match x s with
      | .ok a s => f a s
      | .error e s => .error e s := by
  simp only [bind, EStateM.bind]
  cases x s <;> rfl

/-- The record of a file tells what became of its backup. -/
@[simp] lemma backup_recordOf (r : Recipe) (p : Path) (before : Text) (backup : Option BackupFate) :
    (r.recordOf p before backup).backup = backup := by
  unfold recordOf
  simp only
  split <;> rfl

/-- What is left to do once the backup of a file is settled. -/
def conclude (r : Recipe) (p : Path) (before : Text) (backup : Option BackupFate) :
    Step FileRecord := do
  let record := r.recordOf p before backup
  if record.status = .changed then
    if r.mode = .write then save p (applyRules r.rules before).2
    count Tally.addChanged
  count (countHits record.rules)
  return record

/-- Whatever the timing, the backup of a file that changes is asked for once and before the file is
written. -/
lemma mend_eq_conclude (r : Recipe) (p : Path) (s : Session) :
    (r.mend p).run s = match readText s.tree p with
      | .error f => .error f s
      | .ok before =>
        ((if r.timing = .always ∨ (applyRules r.rules before).2 ≠ before then r.backUp p
          else pure none) >>= r.conclude p before) s := by
  have read : ∀ f : Text → Step FileRecord,
      ((get : Step Session) >>= fun s => MonadExcept.ofExcept (readText s.tree p) >>= f) s =
        match readText s.tree p with
        | .error f => .error f s
        | .ok before => f before s := by
    intro f
    rw [bind_eq]
    change (MonadExcept.ofExcept (readText s.tree p) >>= f) s = _
    rw [bind_eq]
    cases readText s.tree p <;> rfl
  rw [EStateM.run, mend, read]
  cases readText s.tree p with
  | error f => rfl
  | ok before =>
    unfold conclude recordOf
    by_cases same : (applyRules r.rules before).2 = before
    · cases timing : r.timing with
      | always => simp [same]
      | onChange => simp [same]
    · cases timing : r.timing with
      | always => simp [same]
      | onChange => simp [same]

/-- What is left to do for a regular file settles the source in the tree. -/
lemma conclude_eq {r : Recipe} {p : Path} {s : Session} {dir name bytes before}
    (src : s.tree.SourceAt p dir name bytes) (spelling : FileTree.checkSpelling p = .ok ())
    (backup : Option BackupFate) :
    r.conclude p before backup s = .ok (r.recordOf p before backup)
      ⟨if r.mode = .write ∧ (r.recordOf p before backup).status = .changed then
          s.tree.put (dir ++ [name]) (.file (applyRules r.rules before).2.toBytes) else s.tree,
        countHits (r.recordOf p before backup).rules
          (if (r.recordOf p before backup).status = .changed then s.tally.addChanged else s.tally)⟩ := by
  unfold conclude
  have save := save_eq src spelling (applyRules r.rules before).2
  by_cases changed : (r.recordOf p before backup).status = .changed
  · cases mode : r.mode with
    | write =>
      simp [changed, bind_eq, save]
      rfl
    | preview =>
      simp [changed]
      rfl
  · simp [changed]
    rfl

/-- The text of a file is read if its path can be spelled and its bytes decode. -/
lemma readText_eq {tree : FileTree} {p dir name bytes} (src : tree.SourceAt p dir name bytes) :
    readText tree p = match FileTree.checkSpelling p, Text.ofBytes? bytes with
      | .error e, _ => .error (.filesystem p (.refused e))
      | .ok (), none => .error (.filesystem p .notText)
      | .ok (), some before => .ok before := by
  rw [readText, src.read_eq]
  cases FileTree.checkSpelling p with
  | error e => rfl
  | ok u =>
    simp only [Except.map]
    cases Text.ofBytes? bytes <;> rfl

/-- Mending a regular file gives its verdict and settles the tree. -/
lemma mend_eq {r : Recipe} {p : Path} {s : Session} {dir name bytes}
    (src : s.tree.SourceAt p dir name bytes) (ne : r.suffix ≠ []) (sep : '/' ∉ r.suffix) :
    (r.mend p).run s =
      match r.verdict p name bytes (s.tree.get? (dir ++ [name ++ r.suffix])) with
      | .error f => .error f s
      | .ok record =>
        .ok record ⟨r.settled dir name bytes record s.tree, counted record s.tally⟩ := by
  rw [mend_eq_conclude, readText_eq src, verdict]
  cases spelling : FileTree.checkSpelling p with
  | error e => rfl
  | ok u =>
    cases text : Text.ofBytes? bytes with
    | none => rfl
    | some before =>
      have mended : r.mended bytes = (applyRules r.rules before).2.toBytes := by
        rw [mended, text]
        rfl
      simp only
      -- without a backup in a writing run, nothing is asked for or nothing comes of it
      cases back : r.backsUp before with
      | false =>
        have skip : (if r.timing = .always ∨ (applyRules r.rules before).2 ≠ before then r.backUp p
            else pure none) = pure none := by
          cases mode : r.mode with
          | write => simp_all [backsUp]
          | preview => simp [backUp, mode]
        rw [skip, pure_bind, conclude_eq src spelling]
        simp [settled, counted, mended]
      | true =>
        have ask : r.mode = .write ∧ (r.timing = .always ∨ (applyRules r.rules before).2 ≠ before) := by
          simpa [backsUp] using back
        rw [if_pos ask.2, bind_eq, backUp_eq src ne sep spelling ask.1]
        cases fate : Backup.fate r.suffix p name (s.tree.get? (dir ++ [name ++ r.suffix])) with
        | error f => rfl
        | ok fate' =>
          cases fate' with
          | kept =>
            simp [conclude_eq src spelling, settled, counted, mended, Except.map]
          | made =>
            -- the backup went to a free place, so the source is still where it was
            have free := (Backup.fate_eq_made.1 fate).2
            have src' : (Session.mk (s.tree.put (dir ++ [name ++ r.suffix]) (.file bytes))
                s.tally.addBackup).tree.SourceAt p dir name bytes := src.put (by simp) free
            simp [conclude_eq src' spelling, settled, counted, mended, Except.map]

/-- What a sweep reports of a regular file, whether it fails or not. -/
def outcome (r : Recipe) (p : Path) (name : Text) (bytes : ByteArray) (found : Option Entry) :
    FileRecord :=
  match r.verdict p name bytes found with
  | .ok record => record
  | .error f => .ofFailure p f

/-- A file fails, or its report is that of its text with the backup that was asked for. -/
lemma outcome_cases (r : Recipe) (p : Path) (name : Text) (bytes : ByteArray) (found : Option Entry) :
    (∃ f, r.outcome p name bytes found = .ofFailure p f) ∨
    ∃ before backup, r.outcome p name bytes found = r.recordOf p before backup ∧
      FileTree.checkSpelling p = .ok () ∧ Text.ofBytes? bytes = some before ∧
      (r.backsUp before = false ∧ backup = none ∨
        r.backsUp before = true ∧
          ∃ fate, Backup.fate r.suffix p name found = .ok fate ∧ backup = some fate) := by
  unfold outcome verdict
  cases spelling : FileTree.checkSpelling p with
  | error e => exact .inl ⟨_, rfl⟩
  | ok u =>
    cases text : Text.ofBytes? bytes with
    | none => exact .inl ⟨_, rfl⟩
    | some before =>
      dsimp only
      cases back : r.backsUp before with
      | false => exact .inr ⟨before, none, rfl, rfl, rfl, .inl ⟨back, rfl⟩⟩
      | true =>
        rw [if_pos rfl]
        cases Backup.fate r.suffix p name found with
        | error f => exact .inl ⟨f, rfl⟩
        | ok fate => exact .inr ⟨before, some fate, rfl, rfl, rfl, .inr ⟨back, fate, rfl, rfl⟩⟩

/-- A file is reported under its path, whether it fails or not. -/
lemma path_outcome (r : Recipe) (p : Path) (name : Text) (bytes : ByteArray) (found : Option Entry) :
    (r.outcome p name bytes found).path = p := by
  obtain ⟨f, e⟩ | ⟨before, backup, e, _⟩ := outcome_cases r p name bytes found
  · rw [e]
    rfl
  · rw [e]
    unfold recordOf
    simp only
    split <;> rfl

/-- A file that is reported as changed holds a text that the rules change, and whenever it is written
there is a backup. -/
lemma of_changed {r : Recipe} {p : Path} {name : Text} {bytes : ByteArray} {found : Option Entry}
    (changed : (r.outcome p name bytes found).status = .changed) :
    FileTree.checkSpelling p = .ok () ∧
    (∃ before, Text.ofBytes? bytes = some before ∧
      r.mended bytes = (applyRules r.rules before).2.toBytes) ∧
    (r.mode = .write → FileTree.passable (Backup.pathOf r.suffix p) (name ++ r.suffix) = .ok () ∧
      ((r.outcome p name bytes found).backup = some .made ∨ ∃ b, found = some (.file b))) := by
  obtain ⟨f, e⟩ | ⟨before, backup, e, spelling, text, asked⟩ := outcome_cases r p name bytes found
  · rw [e] at changed
    cases changed
  · have differs : (applyRules r.rules before).2 ≠ before := by
      intro same
      rw [e] at changed
      simp [recordOf, same] at changed
    refine ⟨spelling, ⟨before, text, by rw [mended, text]; rfl⟩, fun mode => ?_⟩
    rcases asked with ⟨back, rfl⟩ | ⟨_, fate, ok, rfl⟩
    · simp [backsUp, mode, differs] at back
    · rw [e, backup_recordOf]
      cases fate with
      | made => exact ⟨(Backup.fate_eq_made.1 ok).1, .inl rfl⟩
      | kept => exact ⟨(Backup.fate_eq_kept.1 ok).1, .inr (Backup.fate_eq_kept.1 ok).2⟩

/-- A backup that is reported as made is made in a writing run, where nothing was before. -/
lemma of_made {r : Recipe} {p : Path} {name : Text} {bytes : ByteArray} {found : Option Entry}
    (made : (r.outcome p name bytes found).backup = some .made) :
    r.mode = .write ∧ FileTree.checkSpelling p = .ok () ∧
      FileTree.passable (Backup.pathOf r.suffix p) (name ++ r.suffix) = .ok () ∧ found = none := by
  obtain ⟨f, e⟩ | ⟨before, backup, e, spelling, text, asked⟩ := outcome_cases r p name bytes found
  · rw [e] at made
    cases made
  · rw [e, backup_recordOf] at made
    rcases asked with ⟨_, rfl⟩ | ⟨back, fate, ok, rfl⟩
    · cases made
    · obtain rfl := Option.some.inj made
      obtain ⟨pass, free⟩ := Backup.fate_eq_made.1 ok
      have mode : r.mode = .write := by
        simp only [backsUp, Bool.and_eq_true, decide_eq_true_eq] at back
        exact back.1
      exact ⟨mode, spelling, pass, free⟩

end Recipe

/-- A sweep reports the outcome of a regular file, and leaves the tree as the report says. -/
lemma Sweep.mendFile_eq {w : Sweep} {p : Path} {s : Session} {dir name bytes}
    (src : s.tree.SourceAt p dir name bytes) (ne : w.recipe.suffix ≠ [])
    (sep : '/' ∉ w.recipe.suffix) :
    let record := w.recipe.outcome p name bytes (s.tree.get? (dir ++ [name ++ w.recipe.suffix]))
    (w.mendFile p s).1 = record ∧
      (w.mendFile p s).2.tree = w.recipe.settled dir name bytes record s.tree := by
  have src' : ({ s with tally := s.tally.addScanned } : Session).tree.SourceAt p dir name bytes := src
  unfold mendFile Recipe.outcome
  rw [Recipe.mend_eq src' ne sep]
  cases w.recipe.verdict p name bytes (s.tree.get? (dir ++ [name ++ w.recipe.suffix])) with
  | error f => exact ⟨rfl, by simp [Recipe.settled, FileRecord.ofFailure]⟩
  | ok record => exact ⟨rfl, rfl⟩

end Mender
