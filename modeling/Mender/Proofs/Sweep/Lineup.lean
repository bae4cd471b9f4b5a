import Mender.Proofs.FileTree.Listing
import Mender.Proofs.Mending
import Mender.Proofs.Path.Order

/-!
# The sources of a sweep

A sweep that settings ask for keeps backups and sources apart: the suffix of its backups is no ending
of a source (`Sweep.Sound`). Its sources line up: each has its own place in the tree, and no place is
that of another source's backup (`Lineup`). Mending one source then settles its own two places, and
mending the others finds theirs as they were (`Lineup.mendEach_eq`).
-/

namespace Mender

/-- Settings are accepted when the suffix is not empty and has no separator, and there is an extension. -/
lemma BatchSettings.check_eq_ok {b : BatchSettings} :
    b.check = .ok () ↔ b.backupSuffix ≠ [] ∧ ('/' ∉ b.backupSuffix ∧ '\\' ∉ b.backupSuffix) ∧
      b.extensions ≠ [] := by
  unfold check
  split
  · simp_all
  · split
    · simp_all
      tauto
    · simp_all

namespace Sweep

/-- A sweep is sound when its suffix makes a name of its own and is an ending of no source. -/
structure Sound (w : Sweep) : Prop where
  ne : w.recipe.suffix ≠ []
  sep : '/' ∉ w.recipe.suffix
  excluded : w.recipe.suffix ∈ w.query.excluded

/-- Settings that are accepted ask for the sweep that they describe. -/
lemma ofSettings_eq_ok {s : Settings} {root : Path} {mode : Mode} {w : Sweep} :
    ofSettings s root mode = .ok w ↔ s.batch.check = .ok () ∧ w = {
      root
      query := .ofSettings s.batch
      recipe := ⟨s.rules.rules, s.batch.backupSuffix, s.batch.backupTiming, mode⟩ } := by
  unfold ofSettings
  cases s.batch.check with
  | error e => simp
  | ok u => simp [eq_comm]

/-- Settings that are not refused ask for a sound sweep. -/
lemma sound_of_ofSettings {s : Settings} {root : Path} {mode : Mode} {w : Sweep}
    (accepted : ofSettings s root mode = .ok w) : w.Sound := by
  obtain ⟨check, rfl⟩ := ofSettings_eq_ok.1 accepted
  obtain ⟨ne, ⟨sep, _⟩, _⟩ := BatchSettings.check_eq_ok.1 check
  exact ⟨ne, sep, s.batch.backupSuffix_mem_nonSourceSuffixes⟩

/-- The sources of a sweep are the selected files that a walk lists, sorted. -/
lemma sources_eq_ok {w : Sweep} {tree : FileTree} {files : List Path} :
    w.sources tree = .ok files ↔ ∃ listed,
      tree.walk SourceQuery.prunedDirectories.contains w.query.recursive w.root = .ok listed ∧
        files = Path.sort (listed.filter w.query.selects) := by
  unfold sources SourceQuery.find SourceQuery.findBy
  rw [← FileTree.walk]
  cases tree.walk SourceQuery.prunedDirectories.contains w.query.recursive w.root with
  | error e => simp
  | ok listed => simp [eq_comm]

end Sweep

/-- The name of a file that is selected has no excluded ending. -/
lemma SourceQuery.not_suffix_of_selects {q : SourceQuery} {p : Path} {s name : Text}
    (sel : q.selects p) (nm : p.fileName? = some name) (mem : s ∈ q.excluded) : ¬ s <:+ name := by
  intro suffix
  rw [selects, nm] at sel
  split at sel
  · next h _ =>
    obtain rfl := Option.some.inj h
    simp only [Bool.and_eq_true, Bool.not_eq_true', List.any_eq_false] at sel
    exact sel.1 s mem (List.isSuffixOf_iff_suffix.2 suffix)
  · cases sel

/-- Files that line up: where each is and what it holds, each at a place of its own and none of them
under a name that ends in the suffix. -/
structure Lineup (s : Text) (tree : FileTree) (files : List Path) where
  dir : Path → Location
  name : Path → Text
  bytes : Path → ByteArray
  source : ∀ p ∈ files, tree.SourceAt p (dir p) (name p) (bytes p)
  plain : ∀ p ∈ files, ¬ s <:+ name p
  apart : ∀ p ∈ files, ∀ q ∈ files, dir p ++ [name p] = dir q ++ [name q] → p = q

/-- The sources of a sound sweep line up, and none is there twice. -/
lemma Sweep.Sound.lineup {w : Sweep} {tree : FileTree} {files : List Path} (sound : w.Sound)
    (wn : tree.WellNamed) (found : w.sources tree = .ok files) :
    files.Nodup ∧ Nonempty (Lineup w.recipe.suffix tree files) := by
  obtain ⟨listed, walk, rfl⟩ := sources_eq_ok.1 found
  obtain ⟨nodup, place, apart⟩ := FileTree.walk_files wn walk
  have perm := Path.sort_perm (listed.filter w.query.selects)
  have mem : ∀ p ∈ Path.sort (listed.filter w.query.selects), p ∈ listed ∧ w.query.selects p := by
    intro p sorted
    exact List.mem_filter.1 (perm.mem_iff.1 sorted)
  refine ⟨perm.nodup_iff.2 (nodup.filter _), ?_⟩
  have : Nonempty ByteArray := ⟨.empty⟩
  choose! dir name bytes source using place
  refine ⟨dir, name, bytes, fun p sorted => source p (mem p sorted).1, fun p sorted => ?_, ?_⟩
  · exact SourceQuery.not_suffix_of_selects (mem p sorted).2
      (source p (mem p sorted).1).spells.fileName? sound.excluded
  · intro p sorted q sorted' same
    have src := source p (mem p sorted).1
    have src' := source q (mem q sorted').1
    obtain ⟨dirs, names⟩ := List.append_inj' same rfl
    have e := src.get?
    rw [same, src'.get?] at e
    rw [dirs, List.singleton_inj.1 names, ← Entry.file.inj (Option.some.inj e)] at src
    exact apart p (mem p sorted).1 q (mem q sorted').1 _ _ _ src src'

namespace Lineup

variable {w : Sweep} {tree : FileTree} {files ps : List Path}

section places

variable {s : Text} (L : Lineup s tree files)

/-- Where a file is. -/
def spot (p : Path) : Location := L.dir p ++ [L.name p]

/-- Where the backup of a file is. -/
def beside (p : Path) : Location := L.dir p ++ [L.name p ++ s]

/-- No file is where a backup goes. -/
lemma spot_ne_beside {p q : Path} (mem : p ∈ files) : L.spot p ≠ L.beside q := by
  intro same
  obtain ⟨_, names⟩ := List.append_inj' same rfl
  apply L.plain p mem
  rw [List.singleton_inj.1 names]
  exact List.suffix_append _ _

/-- Files with the same place for their backups are the same. -/
lemma beside_inj {p q : Path} (mem : p ∈ files) (mem' : q ∈ files)
    (same : L.beside p = L.beside q) : p = q := by
  obtain ⟨dirs, names⟩ := List.append_inj' same rfl
  have names := List.append_cancel_right (List.singleton_inj.1 names)
  exact L.apart p mem q mem' (by rw [dirs, names])

end places

variable (L : Lineup w.recipe.suffix tree files)

/-- What is reported of a file, as the tree is before the sweep. -/
def record (p : Path) : FileRecord :=
  w.recipe.outcome p (L.name p) (L.bytes p) (tree.get? (L.beside p))

/-- A file is reported under its path. -/
@[simp] lemma path_record (p : Path) : (L.record p).path = p := Recipe.path_outcome ..

/-- What mending a file does to a tree. -/
def settle (t : FileTree) (p : Path) : FileTree :=
  w.recipe.settled (L.dir p) (L.name p) (L.bytes p) (L.record p) t

/-- Mending a file writes its new bytes and its backup, if it changed and the backup was made, and nothing
else. -/
lemma get?_settle (t : FileTree) (p : Path) (l : Location) :
    (L.settle t p).get? l =
      if l = L.spot p ∧ w.recipe.mode = .write ∧ (L.record p).status = .changed then
        some (.file (w.recipe.mended (L.bytes p)))
      else if l = L.beside p ∧ (L.record p).backup = some .made then some (.file (L.bytes p))
      else t.get? l := by
  unfold settle Recipe.settled spot beside
  by_cases made : (L.record p).backup = some .made
  · by_cases changed : w.recipe.mode = .write ∧ (L.record p).status = .changed
    · simp [made, changed, FileTree.get?_put]
    · simp [made, changed, FileTree.get?_put]
  · by_cases changed : w.recipe.mode = .write ∧ (L.record p).status = .changed
    · simp [made, changed, FileTree.get?_put]
    · simp [made, changed]

/-- A tree in which files are still to be mended: it has the ways of the first tree, and the places
of these files and of their backups are as they were. -/
structure Awaits (ps : List Path) (t : FileTree) : Prop where
  ways : FileTree.SameWays tree t
  spot : ∀ p ∈ ps, t.get? (L.spot p) = tree.get? (L.spot p)
  beside : ∀ p ∈ ps, t.get? (L.beside p) = tree.get? (L.beside p)

/-- Before the sweep all files are still to be mended. -/
lemma awaits (ps : List Path) : L.Awaits ps tree :=
  ⟨⟨rfl, fun _ _ get _ => get⟩, fun _ _ => rfl, fun _ _ => rfl⟩

/-- Mending a file keeps directories and links. -/
lemma sameWays_settle {t : FileTree} {p : Path} (mem : p ∈ files)
    (spot : t.get? (L.spot p) = tree.get? (L.spot p))
    (beside : t.get? (L.beside p) = tree.get? (L.beside p)) :
    FileTree.SameWays t (L.settle t p) := by
  refine ⟨?_, fun l e get way => ?_⟩
  · unfold settle Recipe.settled
    split <;> split <;> rfl
  · rw [get?_settle, if_neg, if_neg]
    · exact get
    · rintro ⟨rfl, made⟩
      have free := (Recipe.of_made made).2.2.2
      rw [beside, free] at get
      cases get
    · rintro ⟨rfl, _⟩
      rw [spot, Lineup.spot, (L.source p mem).get?] at get
      exact way _ (Option.some.inj get).symm

/-- Mending a file leaves the others to be mended. -/
lemma Awaits.settle {L : Lineup w.recipe.suffix tree files} {t : FileTree} {p : Path}
    (aw : L.Awaits (p :: ps) t) (sub : ∀ q ∈ p :: ps, q ∈ files) (new : p ∉ ps) :
    L.Awaits ps (L.settle t p) := by
  have mem := sub p List.mem_cons_self
  have others : ∀ q ∈ ps, q ∈ files ∧ q ≠ p := fun q mem' =>
    ⟨sub q (List.mem_cons_of_mem _ mem'), fun e => new (e ▸ mem')⟩
  refine ⟨aw.ways.trans (L.sameWays_settle mem (aw.spot p List.mem_cons_self)
    (aw.beside p List.mem_cons_self)), fun q mem' => ?_, fun q mem' => ?_⟩
  · rw [get?_settle, if_neg, if_neg]
    · exact aw.spot q (List.mem_cons_of_mem _ mem')
    · rintro ⟨same, _⟩
      exact L.spot_ne_beside (others q mem').1 same
    · rintro ⟨same, _⟩
      exact (others q mem').2 (L.apart q (others q mem').1 p mem same)
  · rw [get?_settle, if_neg, if_neg]
    · exact aw.beside q (List.mem_cons_of_mem _ mem')
    · rintro ⟨same, _⟩
      exact (others q mem').2 (L.beside_inj (others q mem').1 mem same)
    · rintro ⟨same, _⟩
      exact L.spot_ne_beside mem same.symm

/-- Mending files one after another reports of each what it was before, and settles one after the
other. -/
lemma mendEach_eq (sound : w.Sound) {s : Session} (aw : L.Awaits ps s.tree)
    (sub : ∀ p ∈ ps, p ∈ files) (nodup : ps.Nodup) :
    (w.mendEach ps s).1 = ps.map L.record ∧
      (w.mendEach ps s).2.tree = ps.foldl L.settle s.tree := by
  induction ps generalizing s with
  | nil => exact ⟨rfl, rfl⟩
  | cons p ps ih =>
    obtain ⟨new, nodup⟩ := List.nodup_cons.1 nodup
    have src := L.source p (sub p List.mem_cons_self)
    have src' : s.tree.SourceAt p (L.dir p) (L.name p) (L.bytes p) :=
      ⟨src.spells.of_sameWays aw.ways, src.short, (aw.spot p List.mem_cons_self).trans src.get?⟩
    have one := Sweep.mendFile_eq src' sound.ne sound.sep
    have found := aw.beside p List.mem_cons_self
    rw [Lineup.beside] at found
    simp only [found] at one
    have aw' : L.Awaits ps (w.mendFile p s).2.tree := one.2 ▸ aw.settle sub new
    have rest := ih aw' (fun q mem => sub q (List.mem_cons_of_mem _ mem)) nodup
    rw [one.2] at rest
    constructor
    · change (w.mendFile p s).1 :: (w.mendEach ps (w.mendFile p s).2).1 = _
      rw [one.1, rest.1]
      rfl
    · exact rest.2

/-- Mending files leaves what is at no place of theirs that the reports name. -/
lemma get?_foldl_of_away {t : FileTree} {l : Location}
    (away : ∀ p ∈ ps, (l = L.spot p → ¬ (w.recipe.mode = .write ∧ (L.record p).status = .changed)) ∧
      (l = L.beside p → (L.record p).backup ≠ some .made)) :
    (ps.foldl L.settle t).get? l = t.get? l := by
  induction ps generalizing t with
  | nil => rfl
  | cons p ps ih =>
    obtain ⟨spot, beside⟩ := away p List.mem_cons_self
    rw [List.foldl_cons, ih fun q mem => away q (List.mem_cons_of_mem _ mem), get?_settle,
      if_neg fun h => spot h.1 h.2, if_neg fun h => beside h.1 h.2]

/-- After files were mended each changed one holds its new bytes. -/
lemma get?_foldl_spot {p : Path} (mem : p ∈ ps) (sub : ∀ q ∈ ps, q ∈ files) (nodup : ps.Nodup)
    (changed : w.recipe.mode = .write ∧ (L.record p).status = .changed) (t : FileTree) :
    (ps.foldl L.settle t).get? (L.spot p) = some (.file (w.recipe.mended (L.bytes p))) := by
  induction ps generalizing t with
  | nil => cases mem
  | cons q ps ih =>
    obtain ⟨new, nodup⟩ := List.nodup_cons.1 nodup
    rcases List.mem_cons.1 mem with rfl | mem'
    · rw [List.foldl_cons, L.get?_foldl_of_away, get?_settle, if_pos ⟨rfl, changed⟩]
      refine fun q mem' => ⟨fun same => ?_, fun same => ?_⟩
      · obtain rfl := L.apart _ (sub _ mem) _ (sub _ (List.mem_cons_of_mem _ mem')) same
        exact absurd mem' new
      · exact absurd same (L.spot_ne_beside (sub _ mem))
    · exact ih mem' (fun q mem => sub q (List.mem_cons_of_mem _ mem)) nodup _

/-- After files were mended each backup that was made holds the old bytes. -/
lemma get?_foldl_beside {p : Path} (mem : p ∈ ps) (sub : ∀ q ∈ ps, q ∈ files) (nodup : ps.Nodup)
    (made : (L.record p).backup = some .made) (t : FileTree) :
    (ps.foldl L.settle t).get? (L.beside p) = some (.file (L.bytes p)) := by
  induction ps generalizing t with
  | nil => cases mem
  | cons q ps ih =>
    obtain ⟨new, nodup⟩ := List.nodup_cons.1 nodup
    rcases List.mem_cons.1 mem with rfl | mem'
    · rw [List.foldl_cons, L.get?_foldl_of_away, get?_settle, if_neg, if_pos ⟨rfl, made⟩]
      · exact fun h => L.spot_ne_beside (sub _ mem) h.1.symm
      refine fun q mem' => ⟨fun same => ?_, fun same => ?_⟩
      · exact absurd same.symm (L.spot_ne_beside (sub _ (List.mem_cons_of_mem _ mem')))
      · obtain rfl := L.beside_inj (sub _ mem) (sub _ (List.mem_cons_of_mem _ mem')) same
        exact absurd mem' new
    · exact ih mem' (fun q mem => sub q (List.mem_cons_of_mem _ mem)) nodup _

/-- After the files were mended no file is still to be mended, and the ways are the same. -/
lemma awaits_foldl {t : FileTree} (aw : L.Awaits ps t) (sub : ∀ q ∈ ps, q ∈ files)
    (nodup : ps.Nodup) : L.Awaits [] (ps.foldl L.settle t) := by
  induction ps generalizing t with
  | nil => exact aw
  | cons p ps ih =>
    obtain ⟨new, nodup⟩ := List.nodup_cons.1 nodup
    exact ih (aw.settle sub new) (fun q mem => sub q (List.mem_cons_of_mem _ mem)) nodup

/-- Whatever place is looked at after files were mended, it is as it was, or it is that of a changed
file, or it is that of a backup that was made. -/
lemma get?_foldl_cases (sub : ∀ q ∈ ps, q ∈ files) (nodup : ps.Nodup) (l : Location) :
    (ps.foldl L.settle tree).get? l = tree.get? l ∨
    (∃ p ∈ ps, l = L.spot p ∧ w.recipe.mode = .write ∧ (L.record p).status = .changed ∧
      (ps.foldl L.settle tree).get? l = some (.file (w.recipe.mended (L.bytes p)))) ∨
    ∃ p ∈ ps, l = L.beside p ∧ (L.record p).backup = some .made ∧
      (ps.foldl L.settle tree).get? l = some (.file (L.bytes p)) := by
  by_cases spot : ∃ p ∈ ps, l = L.spot p ∧ w.recipe.mode = .write ∧ (L.record p).status = .changed
  · obtain ⟨p, mem, rfl, changed⟩ := spot
    exact .inr (.inl ⟨p, mem, rfl, changed.1, changed.2, L.get?_foldl_spot mem sub nodup changed tree⟩)
  · by_cases beside : ∃ p ∈ ps, l = L.beside p ∧ (L.record p).backup = some .made
    · obtain ⟨p, mem, rfl, made⟩ := beside
      exact .inr (.inr ⟨p, mem, rfl, made, L.get?_foldl_beside mem sub nodup made tree⟩)
    · refine .inl (L.get?_foldl_of_away fun p mem => ⟨fun same changed => ?_, fun same made => ?_⟩)
      · exact spot ⟨p, mem, same, changed⟩
      · exact beside ⟨p, mem, same, made⟩

end Lineup

namespace Sweep

/-- Mending sources of a sound sweep in some order reports of each what it was before, and settles one
after the other. -/
lemma Sound.mendAll_eq {w : Sweep} {tree : FileTree} {files ps : List Path} (sound : w.Sound)
    (L : Lineup w.recipe.suffix tree files) (sub : ∀ p ∈ ps, p ∈ files) (nodup : ps.Nodup) :
    (w.mendAll ps tree).1.files = ps.map L.record ∧
      (w.mendAll ps tree).2 = ps.foldl L.settle tree :=
  L.mendEach_eq (s := { tree }) sound (L.awaits ps) sub nodup

/-- The run of a sound sweep mends its sources, and these line up. -/
lemma Sound.run_eq {w : Sweep} {tree tree' : FileTree} {report : RunReport} (sound : w.Sound)
    (wn : tree.WellNamed) (run : w.run tree = .ok (report, tree')) :
    ∃ (files : List Path) (L : Lineup w.recipe.suffix tree files), w.sources tree = .ok files ∧
      files.Nodup ∧ report.files = files.map L.record ∧ tree' = files.foldl L.settle tree := by
  unfold Sweep.run at run
  cases found : w.sources tree with
  | error f =>
    rw [found] at run
    cases run
  | ok files =>
    rw [found] at run
    obtain ⟨nodup, ⟨L⟩⟩ := sound.lineup wn found
    have all := sound.mendAll_eq L (fun _ mem => mem) nodup
    have eq : w.mendAll files tree = (report, tree') := Except.ok.inj run
    rw [eq] at all
    exact ⟨files, L, rfl, nodup, all⟩

end Sweep

end Mender
