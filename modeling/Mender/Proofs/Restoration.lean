import Mender.Command.Execute
import Mender.Proofs.Sweep.History

/-!
# Restoring what sweeps changed

Sweeps over a root change files and make backups. What they leave of a tree is kept safe: every entry is
as it was, or is a file with its first bytes in a backup beside it, and every new entry is such a backup
(`Safe`). A sweep keeps this (`Safe.run`), and restoring goes back over the same files by a walk of its
own, so that every entry is as it was before the first sweep (`restore_after_sweeps`).
-/

namespace Mender

open FileTree (Enters SameWays passable)

/-- A root that leads to a directory under which no file is named as a backup. -/
structure Ground (s : Text) (root : Path) (top : Location) (tree : FileTree) : Prop where
  named : tree.WellNamed
  directory : tree.stat .use root = .ok (top, .directory)
  clean : ∀ dir name b, top <+: dir → tree.get? (dir ++ [name]) = some (.file b) → ¬ s <:+ name

/-- What sweeps leave of a tree: every entry is as it was or has its first bytes in a backup, and every
new entry is a backup that can be found again. -/
structure Safe (s : Text) (root : Path) (top : Location) (deep : Bool) (tree t : FileTree) : Prop where
  here : t.workingDirectory = tree.workingDirectory
  entry : ∀ l e, tree.get? l = some e → t.get? l = some e ∨
    ∃ dir name b b', l = dir ++ [name] ∧ e = .file b ∧ t.get? l = some (.file b') ∧
      t.get? (dir ++ [name ++ s]) = some (.file b) ∧ tree.get? (dir ++ [name ++ s]) = none
  new : ∀ l e, tree.get? l = none → t.get? l = some e →
    ∃ dir name b level q, l = dir ++ [name ++ s] ∧ e = .file b ∧
      tree.get? (dir ++ [name]) = some (.file b) ∧
      Enters tree (fun _ => false) root top level q dir ∧ (level = 0 ∨ deep = true) ∧
      passable (q.join (name ++ s)) (name ++ s) = .ok ()

namespace Safe

variable {s : Text} {root : Path} {top : Location} {deep : Bool} {tree t : FileTree}

/-- A tree that nothing happened to is safe. -/
lemma refl (s : Text) (root : Path) (top : Location) (deep : Bool) (tree : FileTree) :
    Safe s root top deep tree tree := by
  refine ⟨rfl, fun l e get => .inl get, fun l e get get' => ?_⟩
  rw [get] at get'
  cases get'

/-- What was there is still there, or was a file and still is one. -/
lemma still (safe : Safe s root top deep tree t) {l e} (get : tree.get? l = some e) :
    t.get? l = some e ∨ ∃ b b', e = .file b ∧ t.get? l = some (.file b') := by
  obtain same | ⟨_, _, b, b', _, file, get', _⟩ := safe.entry l e get
  · exact .inl same
  · exact .inr ⟨b, b', file, get'⟩

/-- A safe tree has the same directories and links. -/
lemma sameWays (safe : Safe s root top deep tree t) : SameWays tree t := by
  refine ⟨safe.here, fun l e get way => ?_⟩
  obtain same | ⟨b, _, rfl, _⟩ := safe.still get
  · exact same
  · exact absurd rfl (way b)

/-- A safe tree has no new directories. -/
lemma directory (safe : Safe s root top deep tree t) {l} (get : t.get? l = some .directory) :
    tree.get? l = some .directory := by
  cases first : tree.get? l with
  | none =>
    obtain ⟨_, _, _, _, _, _, file, _⟩ := safe.new l _ first get
    cases file
  | some e =>
    obtain same | ⟨_, _, _, file⟩ := safe.still first
    · rw [← same, get]
    · rw [get] at file
      cases file

/-- A directory is entered in either tree, under the same path. -/
lemma enters_iff (safe : Safe s root top deep tree t) {pruned level q dir} :
    Enters t pruned root top level q dir ↔ Enters tree pruned root top level q dir := by
  constructor
  · exact fun ent => ent.mono (fun _ => safe.directory) fun _ prn => prn
  · exact fun ent => ent.mono (fun l get => safe.sameWays.keeps l _ get nofun) fun _ prn => prn

/-- The root still leads to the same directory. -/
lemma ground (safe : Safe s root top deep tree t) (grd : Ground s root top tree) :
    t.stat .use root = .ok (top, .directory) := by
  have op := FileTree.opens_of_stat grd.directory
  exact (op.of_sameWays safe.sameWays).stat_use (FileTree.stat_eq_ok.1 grd.directory).1

/-- A safe tree is well named. -/
lemma wellNamed (safe : Safe s root top deep tree t) (grd : Ground s root top tree) (ne : s ≠ [])
    (sep : '/' ∉ s) : t.WellNamed := by
  intro dir name e get
  cases first : tree.get? (dir ++ [name]) with
  | some e => exact grd.named dir name e first
  | none =>
    obtain ⟨dir', name', b, _, _, same, _, source, _, _, pass⟩ := safe.new _ _ first get
    obtain rfl := List.singleton_inj.1 (List.append_inj_right' same rfl)
    obtain ⟨nm, _⟩ := grd.named _ _ _ source
    exact ⟨nm.append ne sep, (FileTree.passable_eq_ok.1 pass).2⟩

/-- A file that is not named as a backup was there before, with the same bytes or with those of its
backup. -/
lemma first (safe : Safe s root top deep tree t) {dir name b} (plain : ¬ s <:+ name)
    (get : t.get? (dir ++ [name]) = some (.file b)) :
    tree.get? (dir ++ [name]) = some (.file b) ∨ ∃ b₀, tree.get? (dir ++ [name]) = some (.file b₀) ∧
      t.get? (dir ++ [name ++ s]) = some (.file b₀) ∧ tree.get? (dir ++ [name ++ s]) = none := by
  cases first : tree.get? (dir ++ [name]) with
  | none =>
    obtain ⟨_, _, _, _, _, same, _⟩ := safe.new _ _ first get
    have names := List.singleton_inj.1 (List.append_inj_right' same rfl)
    exact absurd (names ▸ List.suffix_append _ _) plain
  | some e =>
    obtain same | ⟨dir', name', b₀, _, at_l, rfl, _, backup, free⟩ := safe.entry _ _ first
    · left
      rw [← same, get]
    · obtain ⟨rfl, names⟩ := List.append_inj' at_l rfl
      obtain rfl := List.singleton_inj.1 names
      exact .inr ⟨b₀, rfl, backup, free⟩

/-- A file under the root that is named as a backup is one: it is new, and it holds the first bytes of
its source. -/
lemma backup (safe : Safe s root top deep tree t) (grd : Ground s root top tree) {dir name b}
    (under : top <+: dir) (get : t.get? (dir ++ [name ++ s]) = some (.file b)) :
    tree.get? (dir ++ [name ++ s]) = none ∧ tree.get? (dir ++ [name]) = some (.file b) ∧
      ∃ level q, Enters tree (fun _ => false) root top level q dir ∧ (level = 0 ∨ deep = true) ∧
        passable (q.join (name ++ s)) (name ++ s) = .ok () := by
  cases first : tree.get? (dir ++ [name ++ s]) with
  | none =>
    obtain ⟨dir', name', b', level, q, same, file, source, ent, level0, pass⟩ :=
      safe.new _ _ first get
    obtain ⟨rfl, names⟩ := List.append_inj' same rfl
    obtain rfl := List.append_cancel_right (List.singleton_inj.1 names)
    obtain rfl := Entry.file.inj file
    exact ⟨rfl, source, level, q, ent, level0, pass⟩
  | some e =>
    have file : ∃ b, e = .file b := by
      obtain same | ⟨b, _, rfl, _⟩ := safe.still first
      · exact ⟨b, Option.some.inj (same.symm.trans get)⟩
      · exact ⟨b, rfl⟩
    obtain ⟨b', rfl⟩ := file
    exact absurd (List.suffix_append name s) (grd.clean _ _ _ under first)

end Safe

namespace Sweep

/-- A source under a root that leads to a directory is in a directory that the sweep enters. -/
lemma enters_of_mem_sources {w : Sweep} {t : FileTree} {top : Location} {files : List Path} {p : Path}
    {dir name b} (wn : t.WellNamed) (use : t.stat .use w.root = .ok (top, .directory))
    (found : w.sources t = .ok files) (mem : p ∈ files) (src : t.SourceAt p dir name b) :
    ∃ level q, Enters t SourceQuery.prunedDirectories.contains w.root top level q dir ∧
      p = q.join name ∧ (level = 0 ∨ w.query.recursive = true) := by
  obtain ⟨listed, walk, rfl⟩ := sources_eq_ok.1 found
  rw [FileTree.walk_of_directory use] at walk
  obtain rfl := Except.ok.inj walk
  have mem := (List.mem_filter.1 ((Path.sort_perm _).mem_iff.1 mem)).1
  rw [FileTree.filesUnder_eq_map] at mem
  obtain ⟨⟨p, d, n⟩, located, rfl⟩ := List.mem_map.1 mem
  obtain ⟨_, src'⟩ := FileTree.sourceAt_of_mem_located wn (FileTree.opens_of_stat use) located
  obtain ⟨rfl, rfl, _⟩ := src'.unique src
  obtain ⟨level, q, _, ent, lt, eq, _⟩ := FileTree.mem_located.1 located
  refine ⟨level, q, ent, eq, ?_⟩
  cases deep : w.query.recursive with
  | true => exact .inr rfl
  | false =>
    rw [deep] at lt
    exact .inl (Nat.lt_one_iff.1 lt)

/-- A sweep over a directory runs to its end. -/
lemma exists_run {w : Sweep} {t : FileTree} {top : Location}
    (use : t.stat .use w.root = .ok (top, .directory)) :
    ∃ report t', w.run t = .ok (report, t') := by
  have found := sources_eq_ok.2 ⟨_, FileTree.walk_of_directory use _ _, rfl⟩
  exact ⟨_, _, by rw [Sweep.run, found]; rfl⟩

end Sweep

namespace Safe

variable {w : Sweep} {top : Location} {deep : Bool} {tree t t' : FileTree} {report : RunReport}

/-- A sweep keeps what the sweeps before it left safe. -/
lemma run (safe : Safe w.recipe.suffix w.root top deep tree t)
    (grd : Ground w.recipe.suffix w.root top tree) (sound : w.Sound)
    (reach : w.query.recursive = true → deep = true) (run : w.run t = .ok (report, t')) :
    Safe w.recipe.suffix w.root top deep tree t' := by
  have wn := safe.wellNamed grd sound.ne sound.sep
  obtain ⟨files, L, found, nodup, _, rfl⟩ := sound.run_eq wn run
  have sub : ∀ p ∈ files, p ∈ files := fun _ mem => mem
  have ways := (L.awaits_foldl (L.awaits files) sub nodup).ways
  have enters : ∀ p ∈ files, ∃ level q,
      Enters tree SourceQuery.prunedDirectories.contains w.root top level q (L.dir p) ∧
        p = q.join (L.name p) ∧ (level = 0 ∨ w.query.recursive = true) := by
    intro p mem
    obtain ⟨level, q, ent, eq, level0⟩ :=
      Sweep.enters_of_mem_sources wn (safe.ground grd) found mem (L.source p mem)
    exact ⟨level, q, safe.enters_iff.1 ent, eq, level0⟩
  -- a backup that was there holds what it held
  have kept : ∀ {dir name b}, t.get? (dir ++ [name ++ w.recipe.suffix]) = some (.file b) →
      (files.foldl L.settle t).get? (dir ++ [name ++ w.recipe.suffix]) = some (.file b) :=
    fun get => L.get?_foldl_of_suffix sub nodup (List.suffix_append _ _) get
  refine ⟨ways.here.trans safe.here, fun l e get => ?_, fun l e get get' => ?_⟩
  · obtain same | ⟨p, mem, rfl, mode, changed, mended⟩ | ⟨p, mem, rfl, made, _⟩ :=
      L.get?_foldl_cases sub nodup l
    · obtain first | ⟨dir, name, b, b', at_l, file, now, backup, free⟩ := safe.entry l e get
      · exact .inl (same.trans first)
      · exact .inr ⟨dir, name, b, b', at_l, file, same.trans now, kept backup, free⟩
    · right
      have src := (L.source p mem).get?
      obtain first | ⟨b₀, first, backup, free⟩ := safe.first (L.plain p mem) src
      · -- the file is as it was before all sweeps, so its backup holds its first bytes
        have eq : e = .file (L.bytes p) := Option.some.inj (get.symm.trans first)
        refine ⟨L.dir p, L.name p, L.bytes p, _, rfl, eq, mended, ?_⟩
        obtain ⟨_, made | ⟨b, found⟩⟩ := (Recipe.of_changed changed).2.2 mode
        · refine ⟨L.get?_foldl_beside mem sub nodup made t, ?_⟩
          have free := (Recipe.of_made made).2.2.2
          cases before : tree.get? (L.dir p ++ [L.name p ++ w.recipe.suffix]) with
          | none => rfl
          | some e =>
            rw [Lineup.beside] at free
            obtain same | ⟨_, _, _, now⟩ := safe.still before
            · rw [free] at same
              cases same
            · rw [free] at now
              cases now
        · obtain ⟨level, q, ent, _⟩ := enters p mem
          obtain ⟨free, source, _⟩ := safe.backup grd ent.isPrefix found
          obtain rfl := Entry.file.inj (Option.some.inj (first.symm.trans source))
          exact ⟨kept found, free⟩
      · have eq : e = .file b₀ := Option.some.inj (get.symm.trans first)
        exact ⟨L.dir p, L.name p, b₀, _, rfl, eq, mended, kept backup, free⟩
    · have free := (Recipe.of_made made).2.2.2
      obtain same | ⟨_, _, _, now⟩ := safe.still get
      · rw [free] at same
        cases same
      · rw [free] at now
        cases now
  · obtain same | ⟨p, mem, rfl, _⟩ | ⟨p, mem, rfl, made, now⟩ := L.get?_foldl_cases sub nodup l
    · exact safe.new l e get (same.symm.trans get')
    · obtain first | ⟨_, first, _⟩ := safe.first (L.plain p mem) (L.source p mem).get?
      · cases first.symm.trans get
      · cases first.symm.trans get
    · obtain ⟨level, q, ent, eq, level0⟩ := enters p mem
      obtain ⟨_, _, pass, free⟩ := Recipe.of_made made
      have source : tree.get? (L.dir p ++ [L.name p]) = some (.file (L.bytes p)) := by
        obtain first | ⟨_, _, backup, _⟩ := safe.first (L.plain p mem) (L.source p mem).get?
        · exact first
        · cases backup.symm.trans free
      refine ⟨L.dir p, L.name p, L.bytes p, level, q, rfl, ?_, source, ?_, ?_, ?_⟩
      · exact Option.some.inj (get'.symm.trans now)
      · exact ent.mono (fun _ get => get) fun _ _ => rfl
      · exact level0.imp id reach
      · have path : Backup.pathOf w.recipe.suffix p = q.join (L.name p ++ w.recipe.suffix) :=
          (congrArg (Backup.pathOf _) eq).trans (Path.append_join ..)
        rw [← path]
        exact pass

end Safe

/-- A path that restoring takes for a source: it spells a file, and the backup beside it holds the first
bytes of the file. -/
structure Restores (s : Text) (tree t : FileTree) (p : Path) (dir : Location) (name : Text)
    (b : ByteArray) : Prop where
  spells : tree.Spells p dir name
  pass : passable (Backup.pathOf s p) (name ++ s) = .ok ()
  plain : ¬ s <:+ name
  source : tree.get? (dir ++ [name]) = some (.file b)
  backup : t.get? (dir ++ [name ++ s]) = some (.file b)

section restoring

variable {s : Text} {root : Path} {top : Location} {deep : Bool} {tree t : FileTree}

/-- A backup under the root leads back to its source. -/
lemma Safe.restores (safe : Safe s root top deep tree t) (grd : Ground s root top tree) (ne : s ≠ [])
    (sep : '/' ∉ s) {level q dir name b} (ent : Enters tree (fun _ => false) root top level q dir)
    (get : t.get? (dir ++ [name ++ s]) = some (.file b)) :
    ∃ p, Backup.sourceOf? s (q.join (name ++ s)) = some p ∧ Restores s tree t p dir name b := by
  obtain ⟨_, source, _, q', ent', _, pass⟩ := safe.backup grd ent.isPrefix get
  obtain rfl := ent.path_unique ent'
  obtain ⟨nm, _⟩ := grd.named _ _ _ source
  obtain ⟨d, idles, eq, parts, idle, nil⟩ := Path.sourceOf?_join (p := q) nm ne sep
  have op := (ent.opens grd.named (FileTree.opens_of_stat grd.directory)).trim parts idle nil
  refine ⟨d.join name, eq, ⟨d, rfl, op, nm⟩, ?_, grd.clean _ _ _ ent.isPrefix source, source, get⟩
  -- the path that is spelled now is what is left of the one that the backup was made under
  obtain ⟨spelling, short⟩ := FileTree.passable_eq_ok.1 pass
  have sub : (d.join (name ++ s)).text.Sublist (q.join (name ++ s)).text := by
    rw [Path.join_text, Path.join_text, parts, Path.slashed, Path.slashed, List.flatMap_append]
    exact (List.sublist_append_left _ _).append (List.Sublist.refl _)
  have text : (d.join (name ++ s)).text ≠ [] := by simp [Path.join_text, nm.ne_nil]
  rw [Backup.pathOf, Path.append_join]
  exact FileTree.passable_eq_ok.2 ⟨FileTree.checkSpelling_of_sublist spelling sub text, short⟩

/-- Restoring writes the bytes of the backup where the source is. -/
lemma Restores.restore_eq {p dir name b} (res : Restores s tree t p dir name b)
    (safe : Safe s root top deep tree t) (grd : Ground s root top tree) (ne : s ≠ [])
    (sep : '/' ∉ s) : Backup.restore s t p = .ok (t.put (dir ++ [name]) (.file b)) := by
  obtain ⟨spelling, short⟩ := FileTree.passable_eq_ok.1 res.pass
  have backup : t.SourceAt (Backup.pathOf s p) dir (name ++ s) b :=
    ⟨(res.spells.of_sameWays safe.sameWays).pathOf ne sep, short, res.backup⟩
  have file : ∃ b', t.get? (dir ++ [name]) = some (.file b') := by
    obtain same | ⟨_, b', _, now⟩ := safe.still res.source
    · exact ⟨b, same⟩
    · exact ⟨b', now⟩
  obtain ⟨b', now⟩ := file
  have source : t.SourceAt p dir name b' :=
    ⟨res.spells.of_sameWays safe.sameWays, (grd.named _ _ _ res.source).2, now⟩
  have spelling' : FileTree.checkSpelling p = .ok () :=
    FileTree.checkSpelling_of_sublist spelling (List.sublist_append_left p.text s)
      res.spells.text_ne_nil
  rw [Backup.restore, backup.read_eq, spelling]
  simp only [Except.map]
  rw [source.write_eq, spelling']
  rfl

/-- A tree stays safe when a file gets its first bytes back. -/
lemma Safe.put (safe : Safe s root top deep tree t) {dir name b} (plain : ¬ s <:+ name)
    (source : tree.get? (dir ++ [name]) = some (.file b)) :
    Safe s root top deep tree (t.put (dir ++ [name]) (.file b)) := by
  have away : ∀ dir' name', dir' ++ [name' ++ s] ≠ dir ++ [name] := by
    intro dir' name' same
    apply plain
    rw [← List.singleton_inj.1 (List.append_inj_right' same rfl)]
    exact List.suffix_append _ _
  have put := FileTree.get?_put t (.file b) (l := dir ++ [name])
  refine ⟨safe.here, fun l e get => ?_, fun l e get get' => ?_⟩
  · rcases eq_or_ne l (dir ++ [name]) with rfl | ne
    · left
      rw [put _ (by simp), if_pos rfl, ← source, get]
    · obtain same | ⟨dir', name', b₀, b', at_l, file, now, backup, free⟩ := safe.entry l e get
      · left
        rw [put _ (by simp), if_neg ne, same]
      · right
        refine ⟨dir', name', b₀, b', at_l, file, ?_, ?_, free⟩
        · rw [put _ (by simp), if_neg ne, now]
        · rw [put _ (by simp), if_neg (away dir' name'), backup]
  · rw [put _ (by simp), if_neg] at get'
    · exact safe.new l e get get'
    · rintro rfl
      rw [source] at get
      cases get

/-- Restoring goes well for all sources that it takes, gives each its first bytes, and leaves what is
as it was. -/
lemma restoreEach_eq {ps : List Path} (report : Restoration) (safe : Safe s root top deep tree t)
    (grd : Ground s root top tree) (ne : s ≠ []) (sep : '/' ∉ s)
    (all : ∀ p ∈ ps, ∃ dir name b, Restores s tree t p dir name b) :
    (Command.restoreEach s true ps report t).1.errors = report.errors ∧
    Safe s root top deep tree (Command.restoreEach s true ps report t).2 ∧
    (∀ l e, tree.get? l = some e → t.get? l = some e →
      (Command.restoreEach s true ps report t).2.get? l = some e) ∧
    ∀ p ∈ ps, ∀ dir name b, Restores s tree t p dir name b →
      (Command.restoreEach s true ps report t).2.get? (dir ++ [name]) = some (.file b) := by
  induction ps generalizing report t with
  | nil => exact ⟨rfl, safe, fun _ _ _ get => get, nofun⟩
  | cons p ps ih =>
    obtain ⟨dir, name, b, res⟩ := all p List.mem_cons_self
    have safe' := safe.put res.plain res.source
    have put := FileTree.get?_put t (.file b) (l := dir ++ [name])
    -- what is restored later has its backup elsewhere: no source has a name that ends in the suffix
    have keep : ∀ {p dir' name' b'}, Restores s tree t p dir' name' b' →
        Restores s tree (t.put (dir ++ [name]) (.file b)) p dir' name' b' := by
      intro p dir' name' b' res'
      refine ⟨res'.spells, res'.pass, res'.plain, res'.source, ?_⟩
      rw [put _ (by simp), if_neg, res'.backup]
      intro same
      apply res.plain
      rw [← List.singleton_inj.1 (List.append_inj_right' same rfl)]
      exact List.suffix_append _ _
    have all' : ∀ q ∈ ps, ∃ dir' name' b', Restores s tree (t.put (dir ++ [name]) (.file b))
        q dir' name' b' := by
      intro q mem
      obtain ⟨dir', name', b', res'⟩ := all q (List.mem_cons_of_mem _ mem)
      exact ⟨dir', name', b', keep res'⟩
    rw [Command.restoreEach, if_pos rfl, res.restore_eq safe grd ne sep]
    obtain ⟨errors, final, same, restored⟩ :=
      ih { report with restored := report.restored ++ [p] } safe' all'
    refine ⟨errors, final, fun l e get now => ?_, fun q mem dir' name' b' res' => ?_⟩
    · apply same l e get
      rw [put _ (by simp)]
      split
      · next at_l => rw [← res.source, ← at_l, get]
      · exact now
    · rcases List.mem_cons.1 mem with rfl | mem
      · -- the head was written where its path leads, whichever way that is said
        have eq := (res.restore_eq safe grd ne sep).symm.trans (res'.restore_eq safe grd ne sep)
        apply same _ _ res'.source
        rw [Except.ok.inj eq, FileTree.get?_put t _ _ (by simp), if_pos rfl]
      · exact restored q mem dir' name' b' (keep res')

/-- What restoring takes for sources under the root are sources of backups there. -/
lemma Safe.restores_of_found (safe : Safe s root top deep tree t) (grd : Ground s root top tree)
    (ne : s ≠ []) (sep : '/' ∉ s) {depth : Nat} {q' p : Path}
    (listed : q' ∈ t.filesUnder (fun _ => false) depth root top)
    (src : Backup.sourceOf? s q' = some p) : ∃ dir name b, Restores s tree t p dir name b := by
  rw [FileTree.filesUnder_eq_map] at listed
  obtain ⟨⟨q', dir, n⟩, located, rfl⟩ := List.mem_map.1 listed
  obtain ⟨level, q, b, ent, _, rfl, get⟩ := FileTree.mem_located.1 located
  have nm := Path.fileName?_join (p := q) (safe.wellNamed grd ne sep _ _ _ get).1
  obtain ⟨name, rfl⟩ := Path.suffix_of_sourceOf? src nm
  obtain ⟨p', eq, res⟩ := safe.restores grd ne sep (safe.enters_iff.1 ent) get
  obtain rfl := Option.some.inj (src.symm.trans eq)
  exact ⟨dir, name, b, res⟩

/-- Restoring finds the backup of every file that changed. -/
lemma Safe.found_of_backup (safe : Safe s root top deep tree t) (grd : Ground s root top tree)
    (ne : s ≠ []) (sep : '/' ∉ s) {dir name b} (free : tree.get? (dir ++ [name ++ s]) = none)
    (get : t.get? (dir ++ [name ++ s]) = some (.file b)) :
    ∃ q' ∈ t.filesUnder (fun _ => false) (if deep then t.height + 1 else 1) root top,
      ∃ p, Backup.sourceOf? s q' = some p ∧ Restores s tree t p dir name b := by
  obtain ⟨dir', name', b', level, q, same, _, _, ent, level0, _⟩ := safe.new _ _ free get
  obtain ⟨rfl, names⟩ := List.append_inj' same rfl
  obtain rfl := List.append_cancel_right (List.singleton_inj.1 names)
  obtain ⟨p, eq, res⟩ := safe.restores grd ne sep ent get
  refine ⟨q.join (name ++ s), ?_, p, eq, res⟩
  rw [FileTree.filesUnder_eq_map]
  refine List.mem_map.2 ⟨(q.join (name ++ s), dir, name ++ s), FileTree.mem_located.2 ?_, rfl⟩
  refine ⟨level, q, b, safe.enters_iff.2 ent, ?_, rfl, get⟩
  -- the directory is in the tree, so it is no further down than the tree is high
  have high := FileTree.height_le_iff.1 (Nat.le_refl t.height) _ _ get
  have far := ent.length_dir
  simp only [List.length_append, List.length_singleton] at high
  rcases level0 with rfl | rfl
  · split <;> omega
  · rw [if_pos rfl]
    omega

end restoring

/-- The restore command restores the sources of all backups under its root. -/
lemma restore_eq {request : Command.RestoreRequest} {settings : Settings} {t : FileTree}
    {top : Location} (use : t.stat .use request.path = .ok (top, .directory))
    (yes : request.yes = true) (check : settings.batch.check = .ok ()) :
    ∃ ps, Command.restore request settings t =
        .ok (Command.restoreEach settings.batch.backupSuffix true ps {} t) ∧
      ∀ p, p ∈ ps ↔ ∃ q ∈ t.filesUnder (fun _ => false)
        (if request.recursive || settings.batch.recursive then t.height + 1 else 1) request.path top,
          Backup.sourceOf? settings.batch.backupSuffix q = some p := by
  have walk := FileTree.walk_of_directory use (fun _ => false)
    (request.recursive || settings.batch.recursive)
  generalize t.filesUnder _ _ _ _ = files at walk ⊢
  have restore : Command.restore request settings t = .ok (Command.restoreEach
      settings.batch.backupSuffix true ((Path.sort (files.filter fun p =>
        (Backup.sourceOf? settings.batch.backupSuffix p).isSome)).filterMap
          (Backup.sourceOf? settings.batch.backupSuffix)) {} t) := by
    rw [Command.restore, Backup.find, walk, check, yes]
    rfl
  refine ⟨_, restore, fun p => ?_⟩
  simp only [List.mem_filterMap, (Path.sort_perm _).mem_iff, List.mem_filter]
  constructor
  · rintro ⟨q, ⟨listed, _⟩, eq⟩
    exact ⟨q, listed, eq⟩
  · rintro ⟨q, listed, eq⟩
    exact ⟨q, ⟨listed, by rw [eq]; rfl⟩, eq⟩

/-- Sweeps over one root, each with its own settings and mode. -/
def sweepAll (root : Path) : List (Settings × Mode) → FileTree → Except Failure FileTree
  | [], tree => .ok tree
  | (settings, mode) :: batches, tree => do
    let w ← Sweep.ofSettings settings root mode
    let (_, tree) ← w.run tree
    sweepAll root batches tree

/-- Sweeps over a root that leads to a directory all run, and leave what was there safe. -/
lemma Safe.sweepAll {s : Text} {root : Path} {top : Location} {deep : Bool} {tree t : FileTree}
    {batches : List (Settings × Mode)} (safe : Safe s root top deep tree t)
    (grd : Ground s root top tree)
    (accepted : ∀ x ∈ batches, x.1.batch.check = .ok () ∧ x.1.batch.backupSuffix = s)
    (reach : ∀ x ∈ batches, x.1.batch.recursive = true → deep = true) :
    ∃ t', Mender.sweepAll root batches t = .ok t' ∧ Safe s root top deep tree t' := by
  induction batches generalizing t with
  | nil => exact ⟨t, rfl, safe⟩
  | cons x batches ih =>
    obtain ⟨settings, mode⟩ := x
    obtain ⟨check, suffix⟩ := accepted (settings, mode) List.mem_cons_self
    obtain ⟨w, ok⟩ : ∃ w, Sweep.ofSettings settings root mode = .ok w :=
      ⟨_, Sweep.ofSettings_eq_ok.2 ⟨check, rfl⟩⟩
    have sound := Sweep.sound_of_ofSettings ok
    obtain ⟨rfl, rfl, deep'⟩ : root = w.root ∧ s = w.recipe.suffix ∧
        w.query.recursive = settings.batch.recursive := by
      obtain ⟨_, rfl⟩ := Sweep.ofSettings_eq_ok.1 ok
      exact ⟨rfl, suffix.symm, rfl⟩
    obtain ⟨report, t', run⟩ := Sweep.exists_run (safe.ground grd)
    have safe' := safe.run grd sound
      (fun h => reach _ List.mem_cons_self (deep'.symm.trans h)) run
    obtain ⟨t'', rest, safe''⟩ := ih safe' (fun x mem => accepted x (List.mem_cons_of_mem _ mem))
      fun x mem => reach x (List.mem_cons_of_mem _ mem)
    refine ⟨t'', ?_, safe''⟩
    rw [Mender.sweepAll, ok, ok_bind, run, ok_bind]
    exact rest

/-- Restoring undoes sweeps. Whatever sweeps run over a root that leads to a directory without files
named as backups, restoring goes well, every entry is as it was before the first sweep, and all that is
new are backups. -/
theorem restore_after_sweeps {s : Text} {root : Path} {top : Location} {tree : FileTree}
    {batches : List (Settings × Mode)} {request : Command.RestoreRequest} {settings : Settings}
    (grd : Ground s root top tree)
    (accepted : ∀ x ∈ batches, x.1.batch.check = .ok () ∧ x.1.batch.backupSuffix = s)
    (path : request.path = root) (yes : request.yes = true)
    (check : settings.batch.check = .ok ()) (suffix : settings.batch.backupSuffix = s)
    (reach : (∃ x ∈ batches, x.1.batch.recursive = true) →
      (request.recursive || settings.batch.recursive) = true) :
    ∃ swept report restored, sweepAll root batches tree = .ok swept ∧
      Command.restore request settings swept = .ok (report, restored) ∧ report.errors = [] ∧
      restored.workingDirectory = tree.workingDirectory ∧
      (∀ l e, tree.get? l = some e → restored.get? l = some e) ∧
      ∀ l e, tree.get? l = none → restored.get? l = some e →
        ∃ dir name b, l = dir ++ [name ++ s] ∧ e = .file b ∧
          tree.get? (dir ++ [name]) = some (.file b) := by
  obtain ⟨ne, ⟨sep, _⟩, _⟩ := BatchSettings.check_eq_ok.1 check
  subst path suffix
  obtain ⟨t, swept, safe⟩ := (Safe.refl settings.batch.backupSuffix request.path top
    (request.recursive || settings.batch.recursive) tree).sweepAll grd accepted
      fun x mem deep => reach ⟨x, mem, deep⟩
  obtain ⟨ps, restore, mem⟩ := restore_eq (safe.ground grd) yes check
  have all : ∀ p ∈ ps, ∃ dir name b,
      Restores settings.batch.backupSuffix tree t p dir name b := by
    intro p listed
    obtain ⟨q, listed, eq⟩ := (mem p).1 listed
    exact safe.restores_of_found grd ne sep listed eq
  obtain ⟨errors, final, same, restored⟩ := restoreEach_eq {} safe grd ne sep all
  refine ⟨t, _, _, swept, restore, errors, final.here, fun l e get => ?_, fun l e get get' => ?_⟩
  · obtain now | ⟨dir, name, b, _, rfl, rfl, _, backup, free⟩ := safe.entry l e get
    · exact same l e get now
    · obtain ⟨q, listed, p, eq, res⟩ := safe.found_of_backup grd ne sep free backup
      exact restored p ((mem p).2 ⟨q, listed, eq⟩) dir name b res
  · obtain ⟨dir, name, b, _, _, at_l, file, source, _⟩ := final.new l e get get'
    exact ⟨dir, name, b, at_l, file, source⟩

/-- The root of the sample is a directory of a tree without backups. -/
lemma ground_sampleTree : Ground defaultBackupSuffix ⟨['.']⟩ [] sampleTree := by
  refine ⟨wellNamed_sampleTree, by cbv, fun dir name b _ get => ?_⟩
  rw [sampleTree, FileTree.get?_put _ _ _ (by simp)] at get
  split at get
  · next same =>
    have same : dir ++ [name] = [] ++ ["b.cs".toList] := same
    obtain rfl := List.singleton_inj.1 (List.append_inj_right' same rfl)
    decide
  · rw [FileTree.get?_put _ _ _ (by simp)] at get
    split at get
    · next same =>
      have same : dir ++ [name] = [] ++ ["a.cs".toList] := same
      obtain rfl := List.singleton_inj.1 (List.append_inj_right' same rfl)
      decide
    · simp [FileTree.get?, FileTree.empty] at get

/-- The sample is swept twice, once without writing, and restored. -/
theorem restore_after_sweeps_sample : ∃ swept report restored,
    sweepAll ⟨['.']⟩ [({}, .write), ({}, .preview)] sampleTree = .ok swept ∧
      Command.restore ⟨⟨['.']⟩, false, true⟩ {} swept = .ok (report, restored) ∧
      report.errors = [] ∧
      restored.get? ["a.cs".toList] = some (.file "var t = DateTime.Now;".toUTF8) := by
  obtain ⟨swept, report, restored, sweeps, restore, errors, _, same, _⟩ :=
    @restore_after_sweeps _ _ _ _ [({}, .write), ({}, .preview)] ⟨⟨['.']⟩, false, true⟩ {}
      ground_sampleTree (by simp; decide) rfl rfl (by decide) rfl (by simp)
  exact ⟨swept, report, restored, sweeps, restore, errors, same _ _ (by cbv)⟩

end Mender
