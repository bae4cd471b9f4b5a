import Mender.Proofs.Sweep.Lineup

/-!
# The effect of a sweep

The report of a writing sweep says exactly what the sweep did to the tree (`Effect`): a file that is
reported as changed holds what the rules make of its text, a backup that is reported as made holds what
its source held, and nothing else is touched. The files can be mended in any order
(`mendAll_effect`).
-/

namespace Mender

namespace Lineup

variable {w : Sweep} {tree : FileTree} {files ps : List Path}
variable (L : Lineup w.recipe.suffix tree files)

/-- Mending two files gives the same tree in either order. -/
lemma settle_comm {p q : Path} (mem : p ∈ files) (mem' : q ∈ files) (t : FileTree) :
    L.settle (L.settle t p) q = L.settle (L.settle t q) p := by
  rcases eq_or_ne p q with rfl | ne
  · rfl
  · have spots : L.spot p ≠ L.spot q := fun same => ne (L.apart p mem q mem' same)
    have besides : L.beside p ≠ L.beside q := fun same => ne (L.beside_inj mem mem' same)
    have cross : L.spot p ≠ L.beside q := L.spot_ne_beside mem
    have cross' : L.beside p ≠ L.spot q := (L.spot_ne_beside mem').symm
    simp only [spot, beside] at spots besides cross cross'
    unfold settle Recipe.settled
    simp only
    split <;> split <;> split <;> split <;>
      simp only [FileTree.put_comm _ _ _ spots, FileTree.put_comm _ _ _ besides,
        FileTree.put_comm _ _ _ cross, FileTree.put_comm _ _ _ cross']

end Lineup

/-- What a writing sweep with these rules and this suffix did to a tree, by its report. -/
structure Effect (rules : List Rule) (suffix : Text) (tree : FileTree) (records : List FileRecord)
    (tree' : FileTree) : Prop where
  /-- A file reported as changed holds what the rules make of its text. -/
  changed : ∀ o ∈ records, o.status = .changed → ∃ l bytes before,
    tree.stat .inspect o.path = .ok (l, .file bytes) ∧ Text.ofBytes? bytes = some before ∧
      tree'.stat .inspect o.path = .ok (l, .file (applyRules rules before).2.toBytes)
  /-- It has a regular file for a backup. -/
  backedUp : ∀ o ∈ records, o.status = .changed →
    ∃ l b, tree'.stat .inspect (Backup.pathOf suffix o.path) = .ok (l, .file b)
  /-- A backup reported as made is new and holds what its source held. -/
  made : ∀ o ∈ records, o.backup = some .made → ∃ l l' bytes,
    tree.stat .inspect o.path = .ok (l, .file bytes) ∧
      tree.stat .inspect (Backup.pathOf suffix o.path) = .error .notFound ∧
      tree'.stat .inspect (Backup.pathOf suffix o.path) = .ok (l', .file bytes)
  /-- A file that is not reported as changed is as it was. -/
  same : ∀ o ∈ records, o.status ≠ .changed →
    tree'.stat .inspect o.path = tree.stat .inspect o.path
  /-- Where no backup is reported as made, its place is as it was. -/
  unmade : ∀ o ∈ records, o.backup ≠ some .made →
    tree'.stat .inspect (Backup.pathOf suffix o.path) =
      tree.stat .inspect (Backup.pathOf suffix o.path)
  /-- All other places are as they were. -/
  rest : ∀ l, (∀ o ∈ records, o.status = .changed → ∀ e, tree.stat .inspect o.path ≠ .ok (l, e)) →
    (∀ o ∈ records, o.backup = some .made →
      ∀ e, tree'.stat .inspect (Backup.pathOf suffix o.path) ≠ .ok (l, e)) →
    tree'.get? l = tree.get? l
  /-- The working directory is the same. -/
  here : tree'.workingDirectory = tree.workingDirectory

namespace Lineup

variable {w : Sweep} {tree : FileTree} {files ps : List Path}
variable (L : Lineup w.recipe.suffix tree files)

/-- Mending files has the effect that is reported of each. -/
lemma effect (sound : w.Sound) (mode : w.recipe.mode = .write) (sub : ∀ q ∈ ps, q ∈ files)
    (nodup : ps.Nodup) :
    Effect w.recipe.rules w.recipe.suffix tree (ps.map L.record) (ps.foldl L.settle tree) := by
  have ways := (L.awaits_foldl (L.awaits ps) sub nodup).ways
  have spells : ∀ p ∈ ps, tree.Spells p (L.dir p) (L.name p) := fun p mem =>
    (L.source p (sub p mem)).spells
  have backup : ∀ p ∈ ps, tree.Spells (Backup.pathOf w.recipe.suffix p) (L.dir p)
      (L.name p ++ w.recipe.suffix) := fun p mem => (spells p mem).pathOf sound.ne sound.sep
  have pass : ∀ p ∈ ps, FileTree.checkSpelling p = .ok () →
      FileTree.passable p (L.name p) = .ok () := fun p mem spelling =>
    FileTree.passable_eq_ok.2 ⟨spelling, (L.source p (sub p mem)).short⟩
  have initial : ∀ p ∈ ps, FileTree.checkSpelling p = .ok () →
      tree.stat .inspect p = .ok (L.spot p, .file (L.bytes p)) := fun p mem spelling =>
    (spells p mem).stat_of_get? (pass p mem spelling) (L.source p (sub p mem)).get?
  have final : ∀ p ∈ ps, (L.record p).backup = some .made →
      (ps.foldl L.settle tree).stat .inspect (Backup.pathOf w.recipe.suffix p) =
        .ok (L.beside p, .file (L.bytes p)) := fun p mem made =>
    ((backup p mem).of_sameWays ways).stat_of_get? (Recipe.of_made made).2.2.1
      (L.get?_foldl_beside mem sub nodup made tree)
  -- where no change is reported, the place of a file is away from all that is settled
  have still : ∀ p ∈ ps, (L.record p).status ≠ .changed →
      (ps.foldl L.settle tree).get? (L.spot p) = tree.get? (L.spot p) := by
    intro p mem unchanged
    refine L.get?_foldl_of_away fun q mem' => ⟨fun same changed => ?_, fun same => ?_⟩
    · obtain rfl := L.apart p (sub p mem) q (sub q mem') same
      exact unchanged changed.2
    · exact absurd same (L.spot_ne_beside (sub p mem))
  have vacant : ∀ p ∈ ps, (L.record p).backup ≠ some .made →
      (ps.foldl L.settle tree).get? (L.beside p) = tree.get? (L.beside p) := by
    intro p mem unmade
    refine L.get?_foldl_of_away fun q mem' => ⟨fun same => ?_, fun same made => ?_⟩
    · exact absurd same.symm (L.spot_ne_beside (sub q mem'))
    · obtain rfl := L.beside_inj (sub p mem) (sub q mem') same
      exact unmade made
  constructor
  case here => exact ways.here
  case rest =>
    intro l away away'
    rw [List.forall_mem_map] at away away'
    refine L.get?_foldl_of_away fun p mem => ⟨?_, ?_⟩
    · rintro rfl ⟨_, changed⟩
      have stat := initial p mem (Recipe.of_changed changed).1
      exact away p mem changed _ (by rw [path_record, stat])
    · rintro rfl made
      exact away' p mem made _ (by rw [path_record, final p mem made])
  all_goals
    rw [List.forall_mem_map]
    intro p mem h
    rw [path_record]
  case changed =>
    obtain ⟨spelling, ⟨before, text, mended⟩, _⟩ := Recipe.of_changed h
    refine ⟨_, _, before, initial p mem spelling, text, ?_⟩
    rw [← mended]
    exact ((spells p mem).of_sameWays ways).stat_of_get? (pass p mem spelling)
      (L.get?_foldl_spot mem sub nodup ⟨mode, h⟩ tree)
  case backedUp =>
    obtain ⟨pass, made | ⟨b, found⟩⟩ := (Recipe.of_changed h).2.2 mode
    · exact ⟨_, _, final p mem made⟩
    · have unmade : (L.record p).backup ≠ some .made := by
        intro made
        have free := (Recipe.of_made made).2.2.2
        rw [found] at free
        cases free
      exact ⟨_, b, ((backup p mem).of_sameWays ways).stat_of_get? pass
        ((vacant p mem unmade).trans found)⟩
  case made =>
    obtain ⟨_, spelling, pass, free⟩ := Recipe.of_made h
    refine ⟨_, _, _, initial p mem spelling, ?_, final p mem h⟩
    rw [(backup p mem).stat_inspect, pass]
    simp only [beside] at free
    rw [free]
    rfl
  case same => exact (spells p mem).stat_congr ways (still p mem h)
  case unmade => exact (backup p mem).stat_congr ways (vacant p mem h)

end Lineup

/-- A writing sweep has exactly the effect that it reports, and the tree that it leaves does not depend
on the order in which the sources are mended. -/
theorem mendAll_effect {settings : Settings} {root : Path} {w : Sweep} {tree : FileTree}
    {files files' : List Path} (wn : tree.WellNamed)
    (accepted : Sweep.ofSettings settings root .write = .ok w) (found : w.sources tree = .ok files)
    (perm : files'.Perm files) :
    (w.mendAll files' tree).1.files.map (·.path) = files' ∧
    Effect settings.rules.rules settings.batch.backupSuffix tree (w.mendAll files' tree).1.files
      (w.mendAll files' tree).2 ∧
    (w.mendAll files' tree).2 = (w.mendAll files tree).2 := by
  have sound := Sweep.sound_of_ofSettings accepted
  obtain ⟨nodup, ⟨L⟩⟩ := sound.lineup wn found
  have sub : ∀ p ∈ files', p ∈ files := fun p => perm.mem_iff.1
  have nodup' : files'.Nodup := perm.nodup_iff.2 nodup
  obtain ⟨records, final'⟩ := sound.mendAll_eq L sub nodup'
  obtain ⟨_, final⟩ := sound.mendAll_eq L (fun _ mem => mem) nodup
  obtain ⟨_, rfl⟩ := Sweep.ofSettings_eq_ok.1 accepted
  refine ⟨?_, ?_, ?_⟩
  · rw [records, List.map_map]
    exact (List.map_congr_left fun p _ => L.path_record p).trans (List.map_id files')
  · rw [records, final']
    exact L.effect sound rfl sub nodup'
  · rw [final', final]
    exact perm.foldl_eq' (fun p mem q mem' t => L.settle_comm (sub p mem) (sub q mem') t) tree

/-- A directory with a source that the rules change and one that they leave alone. -/
def sampleTree : FileTree :=
  ((FileTree.empty []).put ["a.cs".toList] (.file "var t = DateTime.Now;".toUTF8)).put
    ["b.cs".toList] (.file "var t = 0;".toUTF8)

/-- The tree of the sample is well named. -/
lemma wellNamed_sampleTree : sampleTree.WellNamed := by
  have name : ∀ n ∈ ["a.cs".toList, "b.cs".toList],
      Path.IsName n ∧ Text.byteLength n ≤ FileTree.maxNameBytes := by decide
  have one := FileTree.wellNamed_empty.put [] (.file "var t = DateTime.Now;".toUTF8)
    (name "a.cs".toList (by decide)).1 (name "a.cs".toList (by decide)).2
  exact one.put [] _ (name "b.cs".toList (by decide)).1 (name "b.cs".toList (by decide)).2

/-- The sweep that default settings ask for in the working directory. -/
def sampleSweep : Sweep :=
  ⟨⟨['.']⟩, .ofSettings {}, ⟨RuleSwitches.rules {}, defaultBackupSuffix, .always, .write⟩⟩

/-- The sweep of the sample has two sources. -/
lemma sources_sampleSweep :
    sampleSweep.sources sampleTree = .ok [⟨"./a.cs".toList⟩, ⟨"./b.cs".toList⟩] := by
  cbv

/-- The sources of the sample, mended in the opposite order. -/
theorem mendAll_effect_sample :
    Effect (RuleSwitches.rules {}) defaultBackupSuffix sampleTree
      (sampleSweep.mendAll [⟨"./b.cs".toList⟩, ⟨"./a.cs".toList⟩] sampleTree).1.files
      (sampleSweep.mendAll [⟨"./b.cs".toList⟩, ⟨"./a.cs".toList⟩] sampleTree).2 :=
  have accepted : Sweep.ofSettings {} ⟨['.']⟩ .write = .ok sampleSweep := rfl
  (mendAll_effect wellNamed_sampleTree accepted sources_sampleSweep (.swap _ _ [])).2.1

end Mender
