import Mender.Proofs.FileTree.Growth
import Mender.Proofs.Sweep.Effect

/-!
# Histories of sweeps

A tree goes through sweeps that keep their backups under one suffix, and in between files that are not
named as backups are overwritten from outside (`Happens`). Over every such history a file that is named
as a backup keeps its bytes, a backup that a sweep makes holds what its source held before that sweep,
and no sweep changes what its own sources are (`backups_written_once`).
-/

namespace Mender

namespace Lineup

variable {w : Sweep} {tree : FileTree} {files ps : List Path}
variable (L : Lineup w.recipe.suffix tree files)

/-- A file whose name ends in the suffix keeps its bytes when files are mended. -/
lemma get?_foldl_of_suffix (sub : ∀ q ∈ ps, q ∈ files) (nodup : ps.Nodup) {dir name b}
    (suffix : w.recipe.suffix <:+ name) (get : tree.get? (dir ++ [name]) = some (.file b)) :
    (ps.foldl L.settle tree).get? (dir ++ [name]) = some (.file b) := by
  obtain same | ⟨p, mem, at_p, _⟩ | ⟨p, mem, at_p, made, _⟩ :=
    L.get?_foldl_cases sub nodup (dir ++ [name])
  · rw [same, get]
  · have names := List.singleton_inj.1 (List.append_inj_right' at_p rfl)
    exact absurd (names ▸ suffix) (L.plain p (sub p mem))
  · have free := (Recipe.of_made made).2.2.2
    rw [← at_p, get] at free
    cases free

/-- A tree grows by backups when files in it are mended. -/
lemma grows_foldl (sub : ∀ q ∈ ps, q ∈ files) (nodup : ps.Nodup) :
    FileTree.Grows w.recipe.suffix tree (ps.foldl L.settle tree) := by
  refine ⟨(L.awaits_foldl (L.awaits ps) sub nodup).ways, fun l b get => ?_, fun l e get get' => ?_⟩
  · obtain same | ⟨_, _, _, _, _, get'⟩ | ⟨_, _, _, _, get'⟩ := L.get?_foldl_cases sub nodup l
    · exact ⟨b, same.trans get⟩
    · exact ⟨_, get'⟩
    · exact ⟨_, get'⟩
  · obtain same | ⟨p, mem, rfl, _⟩ | ⟨p, mem, rfl, _, made⟩ := L.get?_foldl_cases sub nodup l
    · rw [same, get] at get'
      cases get'
    · rw [spot, (L.source p (sub p mem)).get?] at get
      cases get
    · rw [made] at get'
      exact ⟨L.dir p, L.name p, L.bytes p, L.bytes p, rfl, (Option.some.inj get').symm,
        (L.source p (sub p mem)).get?⟩

/-- A tree stays well named while files are mended. -/
lemma wellNamed_foldl (sound : w.Sound) (wn : tree.WellNamed) (sub : ∀ q ∈ ps, q ∈ files)
    (nodup : ps.Nodup) : (ps.foldl L.settle tree).WellNamed := by
  intro dir name e get
  obtain same | ⟨p, mem, at_p, _⟩ | ⟨p, mem, at_p, made, _⟩ :=
    L.get?_foldl_cases sub nodup (dir ++ [name])
  · rw [same] at get
    exact wn dir name e get
  · have src := (L.source p (sub p mem)).get?
    rw [← spot, ← at_p] at src
    exact wn dir name _ src
  · obtain rfl := List.singleton_inj.1 (List.append_inj_right' at_p rfl)
    obtain ⟨_, _, _, nm⟩ := (L.source p (sub p mem)).spells
    exact ⟨nm.append sound.ne sound.sep,
      (FileTree.passable_eq_ok.1 (Recipe.of_made made).2.2.1).2⟩

end Lineup

/-- The sources of a sound sweep are the same in a tree that grew by its backups. -/
lemma Sweep.Sound.sources_of_grows {w : Sweep} {tree tree' : FileTree} {files : List Path}
    (sound : w.Sound) (wn' : tree'.WellNamed) (grw : FileTree.Grows w.recipe.suffix tree tree')
    (found : w.sources tree = .ok files) : w.sources tree' = .ok files := by
  obtain ⟨listed, walk, rfl⟩ := sources_eq_ok.1 found
  have unwanted : ∀ (path : Path) dir name b, tree'.get? (dir ++ [name]) = some (.file b) →
      w.recipe.suffix <:+ name → w.query.selects (path.join name) = false := by
    intro path dir name b get suffix
    cases sel : w.query.selects (path.join name) with
    | false => rfl
    | true =>
      have nm := Path.fileName?_join (p := path) (wn' _ _ _ get).1
      exact absurd suffix (SourceQuery.not_suffix_of_selects sel nm sound.excluded)
  obtain ⟨listed', walk', same⟩ := grw.walk_filter unwanted walk
  exact sources_eq_ok.2 ⟨listed', walk', by rw [same]⟩

/-- What can happen to a tree: a sweep that keeps its backups under the suffix runs or is stopped, or a
file that is not named as a backup is overwritten from outside. -/
inductive Happens (s : Text) : FileTree → FileTree → Prop where
  | run {settings : Settings} {root mode w report tree tree'} :
    Sweep.ofSettings settings root mode = .ok w →
    settings.batch.backupSuffix = s →
    w.run tree = .ok (report, tree') →
    Happens s tree tree'
  | stop {settings : Settings} {root mode w f tree} :
    Sweep.ofSettings settings root mode = .ok w →
    settings.batch.backupSuffix = s →
    w.run tree = .error f →
    Happens s tree tree
  | overwrite {tree : FileTree} {dir name b b'} :
    tree.get? (dir ++ [name]) = some (.file b) →
    ¬ s <:+ name →
    Happens s tree (tree.put (dir ++ [name]) (.file b'))

namespace Happens

variable {s : Text} {tree tree' : FileTree}

/-- A tree stays well named whatever happens to it. -/
lemma wellNamed (hap : Happens s tree tree') (wn : tree.WellNamed) : tree'.WellNamed := by
  cases hap with
  | run accepted _ run =>
    have sound := Sweep.sound_of_ofSettings accepted
    obtain ⟨files, L, _, nodup, _, rfl⟩ := sound.run_eq wn run
    exact L.wellNamed_foldl sound wn (fun _ mem => mem) nodup
  | stop _ _ _ => exact wn
  | overwrite get _ =>
    obtain ⟨nm, short⟩ := wn _ _ _ get
    exact wn.put _ _ nm short

/-- Whatever happens, a file whose name ends in the suffix keeps its bytes. -/
lemma keeps (hap : Happens s tree tree') (wn : tree.WellNamed) {dir name b} (suffix : s <:+ name)
    (get : tree.get? (dir ++ [name]) = some (.file b)) :
    tree'.get? (dir ++ [name]) = some (.file b) := by
  cases hap with
  | run accepted eq run =>
    have sound := Sweep.sound_of_ofSettings accepted
    obtain ⟨files, L, _, nodup, _, rfl⟩ := sound.run_eq wn run
    obtain ⟨_, rfl⟩ := Sweep.ofSettings_eq_ok.1 accepted
    exact L.get?_foldl_of_suffix (fun _ mem => mem) nodup (eq.symm ▸ suffix) get
  | stop _ _ _ => exact get
  | @overwrite _ dir' name' _ b' _ plain =>
    have away : dir ++ [name] ≠ dir' ++ [name'] := by
      intro same
      exact plain (List.singleton_inj.1 (List.append_inj_right' same rfl) ▸ suffix)
    rw [FileTree.get?_put tree _ _ (by simp), if_neg away, get]

end Happens

/-- A tree stays well named over its history. -/
lemma wellNamed_of_history {s : Text} {tree tree' : FileTree} (wn : tree.WellNamed)
    (hist : Relation.ReflTransGen (Happens s) tree tree') : tree'.WellNamed := by
  induction hist with
  | refl => exact wn
  | tail _ hap ih => exact hap.wellNamed ih

/-- A file under a name with the suffix keeps its bytes over the history of the tree. -/
lemma keeps_of_history {s : Text} {tree tree' : FileTree} (wn : tree.WellNamed)
    (hist : Relation.ReflTransGen (Happens s) tree tree') {dir name b} (suffix : s <:+ name)
    (get : tree.get? (dir ++ [name]) = some (.file b)) :
    tree'.get? (dir ++ [name]) = some (.file b) := by
  induction hist with
  | refl => exact get
  | tail hist hap ih => exact hap.keeps (wellNamed_of_history wn hist) suffix ih

/-- What a run of a sweep makes is reported: each backup that is reported as made holds what its source
held before the run, and each entry that is new is such a backup. -/
lemma Sweep.Sound.made_of_run {w : Sweep} {tree tree' : FileTree} {report : RunReport}
    (sound : w.Sound) (wn : tree.WellNamed) (run : w.run tree = .ok (report, tree')) :
    (∀ o ∈ report.files, o.backup = some .made → ∃ l l' bytes,
      tree.stat .inspect o.path = .ok (l, .file bytes) ∧
        tree'.stat .inspect (Backup.pathOf w.recipe.suffix o.path) = .ok (l', .file bytes)) ∧
    ∀ l e, tree.get? l = none → tree'.get? l = some e → ∃ o ∈ report.files, o.backup = some .made ∧
      tree'.stat .inspect (Backup.pathOf w.recipe.suffix o.path) = .ok (l, e) := by
  obtain ⟨files, L, _, nodup, records, rfl⟩ := sound.run_eq wn run
  have sub : ∀ p ∈ files, p ∈ files := fun _ mem => mem
  rw [records]
  constructor
  · intro o mem made
    obtain ⟨p, _, rfl⟩ := List.mem_map.1 mem
    obtain ⟨l, l', bytes, source, _, backup⟩ :=
      (L.effect sound (Recipe.of_made made).1 sub nodup).made _ mem made
    exact ⟨l, l', bytes, source, backup⟩
  · intro l e get get'
    -- a new entry cannot be a source, which was there before, so it is a backup that the run made
    obtain same | ⟨p, mem, rfl, _⟩ | ⟨p, mem, rfl, made, _⟩ := L.get?_foldl_cases sub nodup l
    · rw [same, get] at get'
      cases get'
    · rw [Lineup.spot, (L.source p mem).get?] at get
      cases get
    · refine ⟨L.record p, List.mem_map_of_mem mem, made, ?_⟩
      have sp := (L.source p mem).spells.pathOf sound.ne sound.sep
      rw [Lineup.path_record]
      exact (sp.of_sameWays (L.awaits_foldl (L.awaits files) sub nodup).ways).stat_of_get?
        (Recipe.of_made made).2.2.1 get'

/-- Backups are written once. At any time of any history, a file that is named as a backup has its
bytes for good; and whenever a sweep runs, the backups that it makes hold what their sources held
before the run, nothing else is new, and the sweep has the same sources afterwards. -/
theorem backups_written_once {s : Text} {first tree : FileTree} (wn : first.WellNamed)
    (past : Relation.ReflTransGen (Happens s) first tree) :
    (∀ tree' dir name b, Relation.ReflTransGen (Happens s) tree tree' → s <:+ name →
      tree.get? (dir ++ [name]) = some (.file b) → tree'.get? (dir ++ [name]) = some (.file b)) ∧
    ∀ (settings : Settings) root mode w report tree', Sweep.ofSettings settings root mode = .ok w →
      settings.batch.backupSuffix = s → w.run tree = .ok (report, tree') →
      (∀ o ∈ report.files, o.backup = some .made → ∃ l l' bytes,
        tree.stat .inspect o.path = .ok (l, .file bytes) ∧
          tree'.stat .inspect (Backup.pathOf s o.path) = .ok (l', .file bytes)) ∧
      (∀ l e, tree.get? l = none → tree'.get? l = some e → ∃ o ∈ report.files,
        o.backup = some .made ∧ tree'.stat .inspect (Backup.pathOf s o.path) = .ok (l, e)) ∧
      w.sources tree' = w.sources tree := by
  have wn' := wellNamed_of_history wn past
  refine ⟨fun tree' dir name b hist suffix get => keeps_of_history wn' hist suffix get, ?_⟩
  intro settings root mode w report tree' accepted eq run
  have sound := Sweep.sound_of_ofSettings accepted
  obtain ⟨made, new⟩ := sound.made_of_run wn' run
  obtain ⟨files, L, found, nodup, _, rfl⟩ := sound.run_eq wn' run
  have sub : ∀ p ∈ files, p ∈ files := fun _ mem => mem
  have sources := sound.sources_of_grows (L.wellNamed_foldl sound wn' sub nodup)
    (L.grows_foldl sub nodup) found
  obtain ⟨_, rfl⟩ := Sweep.ofSettings_eq_ok.1 accepted
  subst eq
  exact ⟨made, new, sources.trans found.symm⟩

/-- The tree that the sweep leaves of the sample. -/
def sweptSample : FileTree :=
  (sampleSweep.mendAll [⟨"./a.cs".toList⟩, ⟨"./b.cs".toList⟩] sampleTree).2

/-- The sweep of the sample happens to its tree. -/
lemma happens_sample : Happens defaultBackupSuffix sampleTree sweptSample := by
  have run : sampleSweep.run sampleTree =
      .ok (sampleSweep.mendAll [⟨"./a.cs".toList⟩, ⟨"./b.cs".toList⟩] sampleTree) := by
    rw [Sweep.run, sources_sampleSweep]
    rfl
  have accepted : Sweep.ofSettings {} ⟨['.']⟩ .write = .ok sampleSweep := rfl
  exact .run accepted rfl run

/-- The backup that the sweep of the sample makes holds the first text when its source is
overwritten. -/
theorem backups_written_once_sample :
    (sweptSample.put ["a.cs".toList] (.file "DateTime.Now".toUTF8)).get?
      ["a.cs.backup_critical".toList] = some (.file "var t = DateTime.Now;".toUTF8) := by
  have once := backups_written_once wellNamed_sampleTree (.single happens_sample)
  have overwrite : Happens defaultBackupSuffix sweptSample
      (sweptSample.put ["a.cs".toList] (.file "DateTime.Now".toUTF8)) :=
    @Happens.overwrite _ _ [] _ "var t = DateTime.UtcNow;".toUTF8 _ (by cbv) (by decide)
  exact once.1 _ [] "a.cs.backup_critical".toList _ (.single overwrite) (by decide) (by cbv)

end Mender
