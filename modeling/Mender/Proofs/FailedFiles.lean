import Mender.Proofs.Sweep.Accounting

/-!
# Files that fail

Mending a file fails for two reasons only (`mend_eq_error_iff`): its text cannot be read, or a backup is
due and cannot be had. Both are known before anything is written or counted, so a file that fails leaves
the tree and the counters as they were. What its failure says about the backup is the truth
(`mend_failure`).
-/

namespace Mender

/-! ## Places for a backup -/

namespace FileTree

/-- Where a file can be made, every purpose leads to the same free name. -/
lemma follow_of_make {tree : FileTree} {purpose links parts dir l}
    (h : tree.follow .make links parts dir = .ok (.vacant l)) :
    tree.follow purpose links parts dir = .ok (.vacant l) := by
  fun_induction FileTree.follow tree .make links parts dir with
  | case2 _ _ _ _ idle ih =>
    rw [FileTree.follow, if_pos idle]
    exact ih h
  | case3 _ _ _ idle ih =>
    rw [FileTree.follow, if_neg idle, if_pos rfl]
    exact ih h
  | case6 _ _ _ idle dots short _ free _ =>
    rw [follow_cons (.of_follow idle dots short) (by simp), free]
    exact h
  | case8 _ _ _ _ idle dots make short _ get ih =>
    rw [follow_cons (.of_follow idle dots short) fun same => make ⟨rfl, same.2⟩, get]
    exact ih h
  | case13 _ _ _ idle dots make short _ _ get last _ ih =>
    have more : ∀ follows : Prop, ¬ (_ = [] ∧ follows) := fun _ none => last ⟨none.1, rfl⟩
    rw [follow_cons (.of_follow idle dots short) fun same => make ⟨rfl, same.2⟩, get]
    exact (if_neg (more _)).trans (ih h)
  | _ => simp at h

/-- What can be made at a path is missing there. -/
lemma stat_of_create {tree tree' : FileTree} {p : Path} {bytes : ByteArray}
    (made : tree.create p bytes = .ok tree') : tree.stat .inspect p = .error .notFound := by
  obtain ⟨l, vacant, _⟩ := create_eq_ok_iff.1 made
  obtain ⟨spelling, follow⟩ := resolve_eq_ok.1 vacant
  have inspect : tree.resolve .inspect p = .ok (.vacant l) :=
    resolve_eq_ok.2 ⟨spelling, follow_of_make follow⟩
  rw [stat, inspect]
  rfl

end FileTree

namespace Backup

variable {suffix : Text} {tree : FileTree} {p backup : Path} {bytes : ByteArray}

/-- A backup can neither be used nor made at a path: no regular file is there, and none can be created. -/
structure Blocked (tree : FileTree) (backup : Path) : Prop where
  unusable : ∀ l bytes, tree.stat .inspect backup ≠ .ok (l, .file bytes)
  unmade : ∀ bytes tree', tree.create backup bytes ≠ .ok tree'

/-- A backup is in place, its place is free, or something is in its way. -/
lemma inPlace_cases (tree : FileTree) (backup : Path) :
    (inPlace tree backup = .ok true ∧ ∃ l b, tree.stat .inspect backup = .ok (l, .file b)) ∨
    (inPlace tree backup = .ok false ∧ tree.stat .inspect backup = .error .notFound) ∨
    ((∃ cause, inPlace tree backup = .error (.backup backup cause)) ∧ Blocked tree backup) := by
  -- what is found at a path and is no regular file cannot be made there either
  have blocked : ∀ {found}, tree.stat .inspect backup = found → (∀ l b, found ≠ .ok (l, .file b)) →
      found ≠ .error .notFound → Blocked tree backup := by
    rintro found rfl unusable missing
    exact ⟨unusable, fun bytes tree' made => missing (FileTree.stat_of_create made)⟩
  unfold inPlace
  cases stat : tree.stat .inspect backup with
  | ok place =>
    obtain ⟨l, e⟩ := place
    cases e with
    | file b => exact .inl ⟨rfl, l, b, rfl⟩
    | directory => exact .inr (.inr ⟨⟨_, rfl⟩, blocked stat (by simp) (by simp)⟩)
    | link t => exact .inr (.inr ⟨⟨_, rfl⟩, blocked stat (by simp) (by simp)⟩)
  | error e =>
    cases e with
    | notFound => exact .inr (.inl ⟨rfl, rfl⟩)
    | _ => exact .inr (.inr ⟨⟨_, rfl⟩, blocked stat (by simp) (by simp)⟩)

/-- A backup that is missing and cannot be created is blocked. -/
lemma blocked_of_create {e : FileError} (missing : tree.stat .inspect backup = .error .notFound)
    (refused : tree.create backup bytes = .error e) : Blocked tree backup := by
  refine ⟨fun l b found => ?_, fun bytes' tree' made => ?_⟩
  · rw [missing] at found
    cases found
  · -- whether a file can be made does not depend on its bytes
    obtain ⟨l, vacant, _⟩ := FileTree.create_eq_ok_iff.1 made
    have made' : tree.create backup bytes = .ok _ := FileTree.create_eq_ok_iff.2 ⟨l, vacant, rfl⟩
    rw [refused] at made'
    cases made'

/-- Asking for the backup of a file that can be read fails exactly when there is no place for it, and the
failure is that of a backup. -/
lemma ensure_cases (suffix : Text) (read : tree.read p = .ok bytes) :
    (¬ Blocked tree (pathOf suffix p) ∧ ∃ made, ensure suffix tree p = .ok made) ∨
    (Blocked tree (pathOf suffix p) ∧ ∃ q cause, ensure suffix tree p = .error (.backup q cause)) := by
  obtain ⟨place, l, b, found⟩ | ⟨place, missing⟩ | ⟨⟨cause, place⟩, blocked⟩ :=
    inPlace_cases tree (pathOf suffix p)
  all_goals
    have ways := ensures suffix tree p
    generalize ensure suffix tree p = result at ways
  · cases ways with
    | kept _ => exact .inl ⟨fun blocked => blocked.unusable l b found, _, rfl⟩
    | _ => simp_all
  · cases ways with
    | made _ read' create =>
      exact .inl ⟨fun blocked => blocked.unmade _ _ create, _, rfl⟩
    | unmade _ _ create => exact .inr ⟨blocked_of_create missing create, _, _, rfl⟩
    | _ => simp_all
  · cases ways with
    | blocked stop =>
      obtain rfl := Except.error.inj (place.symm.trans stop)
      exact .inr ⟨blocked, _, _, rfl⟩
    | _ => simp_all

/-- A backup of a file that can be read fails only where its place is blocked. -/
lemma blocked_of_ensure {f : Failure} (read : tree.read p = .ok bytes)
    (stop : ensure suffix tree p = .error f) : Blocked tree (pathOf suffix p) ∧ f.isBackup = true := by
  obtain ⟨_, made, ok⟩ | ⟨blocked, q, cause, stop'⟩ := ensure_cases suffix read
  · rw [ok] at stop
    cases stop
  · obtain rfl := Except.error.inj (stop.symm.trans stop')
    exact ⟨blocked, rfl⟩

end Backup

/-! ## Failures of a file -/

namespace Recipe

/-- A file is to be backed up before it is written: always, or because the rules change its text. -/
def BackupDue (r : Recipe) (before : Text) : Prop :=
  r.timing = .always ∨ r.timing = .onChange ∧ (applyRules r.rules before).2 ≠ before

/-- A backup is due always, or when the text changes. -/
lemma backupDue_iff {r : Recipe} {before : Text} :
    r.BackupDue before ↔ r.timing = .always ∨ (applyRules r.rules before).2 ≠ before := by
  unfold BackupDue
  cases r.timing with
  | always => simp
  | onChange => simp

/-- Asking for a backup fails in a writing run only, and then it leaves the session as it was. -/
lemma backUp_eq_error_iff {r : Recipe} {p : Path} {s s' : Session} {f : Failure} :
    r.backUp p s = .error f s' ↔
      s' = s ∧ r.mode = .write ∧ Backup.ensure r.suffix s.tree p = .error f := by
  cases mode : r.mode with
  | preview =>
    have idle : r.backUp p s = .ok none s := by
      simp only [backUp, mode]
      rfl
    rw [idle]
    simp
  | write =>
    rw [backUp_of_write mode, and_iff_right rfl]
    cases Backup.ensure r.suffix s.tree p with
    | error g =>
      constructor
      · rintro ⟨⟩
        exact ⟨rfl, rfl⟩
      · rintro ⟨rfl, ⟨⟩⟩
        rfl
    | ok made =>
      obtain ⟨fate, tree⟩ := made
      cases fate with
      | made => simp
      | kept => simp

/-- The reasons for which a file fails. Whatever the reason, the session is as it was. -/
lemma mend_eq_error_iff {r : Recipe} {p : Path} {s s' : Session} {f : Failure} :
    (r.mend p).run s = .error f s' ↔ s' = s ∧ (readText s.tree p = .error f ∨
      ∃ before, readText s.tree p = .ok before ∧ r.mode = .write ∧ r.BackupDue before ∧
        Backup.ensure r.suffix s.tree p = .error f) := by
  rw [mend_eq_conclude]
  cases text : readText s.tree p with
  | error g => simp [and_comm, eq_comm]
  | ok before =>
    obtain ⟨bytes, read⟩ := read_of_readText text
    have finish : ∀ fate t, t.tree.workingDirectory = s.tree.workingDirectory →
        (∀ l e, s.tree.get? l = some e → t.tree.get? l = some e) →
        r.conclude p before fate t ≠ .error f s' := by
      intro fate t here keeps
      obtain ⟨tree', done⟩ := conclude_of_read (r := r) read here keeps before fate
      rw [done]
      rintro ⟨⟩
    have due := @backupDue_iff r before
    simp only [reduceCtorEq, false_or, Except.ok.injEq, exists_eq_left']
    split
    · next asked =>
      rw [and_iff_right (due.2 asked), ← backUp_eq_error_iff, bind_eq]
      obtain ⟨g, stop⟩ | ⟨fate, tree, made, here, keeps⟩ := backUp_cases r p s
      · rw [stop]
        simp only [EStateM.Result.error.injEq]
      · rw [made]
        exact iff_of_false (finish _ _ here keeps) (by simp)
    · next idle =>
      rw [pure_bind]
      refine iff_of_false (finish none s rfl fun _ _ get => get) ?_
      rintro ⟨_, _, asked, _⟩
      exact idle (due.1 asked)

/-- Reading a file fails for another reason than its backup. -/
lemma isBackup_of_readText {tree : FileTree} {p : Path} {f : Failure} (text : readText tree p = .error f) :
    f.isBackup = false := by
  unfold readText at text
  split at text
  · cases text
    rfl
  · split at text
    · cases text
      rfl
    · cases text

/-- The text of a file can be read, a run that writes has to back the file up, and there is no place for the
backup. -/
def LacksBackup (r : Recipe) (tree : FileTree) (p : Path) : Prop :=
  ∃ before, readText tree p = .ok before ∧ r.mode = .write ∧ r.BackupDue before ∧
    Backup.Blocked tree (Backup.pathOf r.suffix p)

/-- A file that fails leaves no trace: the tree and the counters are as they were. The failure is that of a
backup exactly when the file lacks one that it should have, and nothing else makes a file fail but that its
text cannot be read. -/
theorem mend_failure (r : Recipe) (p : Path) (s : Session) :
    (∀ f s', (r.mend p).run s = .error f s' →
      s' = s ∧ (f.isBackup = true ↔ r.LacksBackup s.tree p)) ∧
    ((∃ f s', (r.mend p).run s = .error f s') ↔
      (∀ before, readText s.tree p ≠ .ok before) ∨ r.LacksBackup s.tree p) := by
  refine ⟨fun f s' failed => ?_, fun ⟨f, s', failed⟩ => ?_, fun reason => ?_⟩
  · obtain ⟨same, unread | ⟨before, text, mode, due, stop⟩⟩ := mend_eq_error_iff.1 failed
    · refine ⟨same, iff_of_false ?_ ?_⟩
      · rw [isBackup_of_readText unread]
        exact Bool.false_ne_true
      · rintro ⟨before, text, _⟩
        rw [unread] at text
        cases text
    · obtain ⟨bytes, read⟩ := read_of_readText text
      obtain ⟨blocked, isBackup⟩ := Backup.blocked_of_ensure read stop
      exact ⟨same, iff_of_true isBackup ⟨before, text, mode, due, blocked⟩⟩
  · obtain ⟨_, unread | ⟨before, text, mode, due, stop⟩⟩ := mend_eq_error_iff.1 failed
    · left
      intro before text
      rw [unread] at text
      cases text
    · obtain ⟨bytes, read⟩ := read_of_readText text
      exact .inr ⟨before, text, mode, due, (Backup.blocked_of_ensure read stop).1⟩
  · rcases reason with unread | ⟨before, text, mode, due, blocked⟩
    · cases text : readText s.tree p with
      | error f => exact ⟨f, s, mend_eq_error_iff.2 ⟨rfl, .inl text⟩⟩
      | ok before => exact absurd text (unread before)
    · obtain ⟨bytes, read⟩ := read_of_readText text
      obtain ⟨free, _⟩ | ⟨_, q, cause, stop⟩ := Backup.ensure_cases r.suffix read
      · exact absurd blocked free
      · exact ⟨_, s, mend_eq_error_iff.2 ⟨rfl, .inr ⟨before, text, mode, due, stop⟩⟩⟩

end Recipe

/-- The sample with a directory where the backup of one of its sources belongs. -/
def blockedTree : FileTree := sampleTree.put ["a.cs.backup_critical".toList] .directory

/-- With a directory in place of its backup, a source that the rules change fails and is left alone. -/
theorem mend_failure_blocked :
    ∃ f s', ((Recipe.mk [.timestamp] defaultBackupSuffix .onChange .write).mend ⟨"a.cs".toList⟩).run
        ⟨blockedTree, Tally.addScanned {}⟩ = .error f s' ∧ f.isBackup = true ∧
      s' = ⟨blockedTree, Tally.addScanned {}⟩ := by
  have found : blockedTree.stat .inspect ⟨"a.cs.backup_critical".toList⟩ =
      .ok (["a.cs.backup_critical".toList], .directory) := by cbv
  have blocked : Backup.Blocked blockedTree ⟨"a.cs.backup_critical".toList⟩ := by
    refine ⟨fun l b file => ?_, fun b t made => ?_⟩
    · rw [found] at file
      cases file
    · rw [FileTree.stat_of_create made] at found
      cases found
  have lacks : (Recipe.mk [.timestamp] defaultBackupSuffix .onChange .write).LacksBackup blockedTree
      ⟨"a.cs".toList⟩ :=
    ⟨"var t = DateTime.Now;".toList, by cbv, rfl, .inr ⟨rfl, by decide⟩, blocked⟩
  obtain ⟨faithful, fails⟩ := Recipe.mend_failure
    ⟨[.timestamp], defaultBackupSuffix, .onChange, .write⟩ ⟨"a.cs".toList⟩
    ⟨blockedTree, Tally.addScanned {}⟩
  obtain ⟨f, s', failed⟩ := fails.2 (.inr lacks)
  obtain ⟨same, backup⟩ := faithful f s' failed
  exact ⟨f, s', failed, backup.2 lacks, same⟩

end Mender
