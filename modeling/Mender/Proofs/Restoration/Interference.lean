import Mender.Command.Execute
import Mender.Proofs.FileTree.Refiling
import Mender.Proofs.Sweep.Lineup

/-!
# Backups that stand in each other's way

Restoring copies files, one after another: each listed backup to where its source leads. Only files are
written, so where all the copies come from and go to is settled before the first one is made
(`restored_cases`). A backup can be lost in this. When its name has the suffix twice, its source is a
backup too, and a source that is a link can lead to any file. Such a backup `Overwrites` another, or
`Competes` with it for one place. Where no backup does, all of them stay as they are, every restored path
holds what its backup held, and restoring once more changes nothing (`restore_undisturbed`).
-/

namespace Mender

open FileTree (Refiled SourceAt WellNamed checkSpelling)

variable {s : Text} {tree t : FileTree} {p q q' : Path} {l k : Location} {b : ByteArray}

namespace Backup

/-! ## Copies -/

/-- The backup of a path is a regular file, and this is where it is. -/
def Beside (s : Text) (tree : FileTree) (p : Path) (l : Location) : Prop :=
  ∃ dir name b, l = dir ++ [name] ∧ tree.SourceAt (pathOf s p) dir name b

/-- The backup of a path can be read, and its bytes can be written at a location under the path. -/
def Copies (s : Text) (tree : FileTree) (p : Path) (l : Location) : Prop :=
  checkSpelling (pathOf s p) = .ok () ∧ tree.target? p = some l

/-- The tree after restoring one path, or the same tree if that fails. -/
def restored (s : Text) (tree : FileTree) (p : Path) : FileTree := ((restore s tree p).toOption).getD tree

/-- There is still a file at the place of a backup. -/
lemma Beside.file (at_l : Beside s tree p l) (re : Refiled tree t) : ∃ b, t.get? l = some (.file b) := by
  obtain ⟨dir, name, b, rfl, src⟩ := at_l
  exact re.file _ b src.get?

/-- A path is still written where it was. -/
lemma Copies.target (copies : Copies s tree p l) (re : Refiled tree t) : t.target? p = some l :=
  (re.target?_eq p).trans copies.2

/-- Restoring a path copies its backup as it is now, or it fails, and both are known from the tree as it
was. -/
lemma restore_cases (re : Refiled tree t) (at_l : Beside s tree p l) (get : t.get? l = some (.file b)) :
    (∃ k, Copies s tree p k ∧ restore s t p = .ok (t.put k (.file b))) ∨
      (∀ k, ¬ Copies s tree p k) ∧ ∃ f, restore s t p = .error f := by
  obtain ⟨dir, name, b', rfl, src⟩ := at_l
  have read := (re.sourceAt src get).read_eq
  unfold restore
  dsimp only
  rw [read]
  cases spelling : checkSpelling (pathOf s p) with
  | error e =>
    refine .inr ⟨fun k copies => ?_, _, rfl⟩
    rw [copies.1] at spelling
    cases spelling
  | ok u =>
    rw [show (Except.ok u : Except FileError Unit).map (fun _ => b) = .ok b from rfl]
    dsimp only
    obtain ⟨k, target, write⟩ | ⟨none, e, write⟩ := FileTree.write_eq t p b
    · rw [write]
      exact .inl ⟨k, ⟨spelling, (re.target?_eq p).symm.trans target⟩, rfl⟩
    · rw [write]
      refine .inr ⟨fun k copies => ?_, _, rfl⟩
      rw [copies.target re] at none
      cases none

/-- Restoring a path puts the bytes of its backup where the path is written, or changes nothing. -/
lemma restored_cases (re : Refiled tree t) (at_l : Beside s tree p l) (get : t.get? l = some (.file b)) :
    (∃ k, Copies s tree p k ∧ restored s t p = t.put k (.file b)) ∨
      (∀ k, ¬ Copies s tree p k) ∧ restored s t p = t := by
  unfold restored
  obtain ⟨k, copies, eq⟩ | ⟨none, f, eq⟩ := restore_cases re at_l get
  · rw [eq]
    exact .inl ⟨k, copies, rfl⟩
  · rw [eq]
    exact .inr ⟨none, rfl⟩

/-- Restoring a path that is written somewhere puts the bytes of its backup there. -/
lemma restored_of_copies (re : Refiled tree t) (at_l : Beside s tree p l) (get : t.get? l = some (.file b))
    (copies : Copies s tree p k) : restored s t p = t.put k (.file b) := by
  obtain ⟨k', copies', eq⟩ | ⟨none, _⟩ := restored_cases re at_l get
  · obtain rfl := Option.some.inj (copies'.2.symm.trans copies.2)
    exact eq
  · exact absurd copies (none k)

/-- One step: a location keeps its entry, unless it is copied to. -/
lemma get?_restored (re : Refiled tree t) (at_l : Beside s tree p l) (away : ¬ Copies s tree p k) :
    (restored s t p).get? k = t.get? k := by
  obtain ⟨b, get⟩ := at_l.file re
  obtain ⟨k', copies, eq⟩ | ⟨_, eq⟩ := restored_cases re at_l get
  · rw [eq, FileTree.get?_put t _ _ (FileTree.ne_nil_of_target? copies.2), if_neg]
    rintro rfl
    exact away copies
  · rw [eq]

/-- Restoring a path refiles the tree. -/
lemma refiled_restored (re : Refiled tree t) (at_l : Beside s tree p l) : Refiled tree (restored s t p) := by
  obtain ⟨b, get⟩ := at_l.file re
  obtain ⟨k, copies, eq⟩ | ⟨_, eq⟩ := restored_cases re at_l get
  · rw [eq]
    exact re.put copies.2 b
  · rw [eq]
    exact re

/-- A tree stays well named when a path is restored. -/
lemma wellNamed_restored (re : Refiled tree t) (at_l : Beside s tree p l) (wn : t.WellNamed) :
    (restored s t p).WellNamed := by
  obtain ⟨b, get⟩ := at_l.file re
  obtain ⟨k, copies, eq⟩ | ⟨_, eq⟩ := restored_cases re at_l get
  · rw [eq]
    exact wn.put_target? (copies.target re) b
  · rw [eq]
    exact wn

/-! ## Runs of copies -/

section

variable {ps : List Path} (all : ∀ p ∈ ps, ∃ l, Beside s tree p l) (re : Refiled tree t)

include all re

/-- Restoring paths one after another refiles the tree. -/
lemma refiled_foldl : Refiled tree (ps.foldl (restored s) t) := by
  refine List.foldlRecOn ps _ re fun t re p mem => ?_
  obtain ⟨l, at_l⟩ := all p mem
  exact refiled_restored re at_l

/-- A tree stays well named while paths are restored. -/
lemma wellNamed_foldl (wn : t.WellNamed) : (ps.foldl (restored s) t).WellNamed := by
  have run : Refiled tree (ps.foldl (restored s) t) ∧ (ps.foldl (restored s) t).WellNamed := by
    refine List.foldlRecOn (motive := fun t => Refiled tree t ∧ t.WellNamed) ps _ ⟨re, wn⟩ ?_
    rintro t ⟨re, wn⟩ p mem
    obtain ⟨l, at_l⟩ := all p mem
    exact ⟨refiled_restored re at_l, wellNamed_restored re at_l wn⟩
  exact run.2

/-- A location that nothing is copied to keeps its entry. -/
lemma get?_foldl_of_away (away : ∀ p ∈ ps, ¬ Copies s tree p k) :
    (ps.foldl (restored s) t).get? k = t.get? k := by
  have run : Refiled tree (ps.foldl (restored s) t) ∧ (ps.foldl (restored s) t).get? k = t.get? k := by
    refine List.foldlRecOn (motive := fun t' => Refiled tree t' ∧ t'.get? k = t.get? k) ps _ ⟨re, rfl⟩ ?_
    rintro t' ⟨re, same⟩ p mem
    obtain ⟨l, at_l⟩ := all p mem
    exact ⟨refiled_restored re at_l, (get?_restored re at_l (away p mem)).trans same⟩
  exact run.2

/-- A backup that is copied over by none but itself keeps its bytes, also at a place that it has been
copied to before, if no other copy goes there. -/
lemma get?_foldl_of_kept (at_l : Beside s tree p l) (get : t.get? l = some (.file b))
    (alone : ∀ p' ∈ ps, Copies s tree p' l → p' = p) (get' : t.get? k = some (.file b))
    (alone' : ∀ p' ∈ ps, Copies s tree p' k → p' = p) :
    (ps.foldl (restored s) t).get? l = some (.file b) ∧
      (ps.foldl (restored s) t).get? k = some (.file b) := by
  have run : Refiled tree (ps.foldl (restored s) t) ∧ (ps.foldl (restored s) t).get? l = some (.file b) ∧
      (ps.foldl (restored s) t).get? k = some (.file b) := by
    refine List.foldlRecOn (motive := fun t => Refiled tree t ∧ t.get? l = some (.file b) ∧
      t.get? k = some (.file b)) ps _ ⟨re, get, get'⟩ ?_
    rintro t ⟨re, get, get'⟩ p' mem
    obtain ⟨l', at_l'⟩ := all p' mem
    refine ⟨refiled_restored re at_l', ?_⟩
    by_cases same : p' = p
    · -- what is copied are the bytes that are at both places already
      subst same
      obtain ⟨k', copies, eq⟩ | ⟨_, eq⟩ := restored_cases re at_l get
      · rw [eq, FileTree.get?_put t _ _ (FileTree.ne_nil_of_target? copies.2),
          FileTree.get?_put t _ _ (FileTree.ne_nil_of_target? copies.2), get, get', ite_self, ite_self]
        exact ⟨rfl, rfl⟩
      · rw [eq]
        exact ⟨get, get'⟩
    · rw [get?_restored re at_l' fun copies => same (alone p' mem copies),
        get?_restored re at_l' fun copies => same (alone' p' mem copies)]
      exact ⟨get, get'⟩
  exact run.2

/-- A backup that is copied lies at its target in the end, if no other copy goes there or to the
backup. -/
lemma get?_foldl_of_copies (at_l : Beside s tree p l) (get : t.get? l = some (.file b))
    (alone : ∀ p' ∈ ps, Copies s tree p' l → p' = p) (copies : Copies s tree p k)
    (alone' : ∀ p' ∈ ps, Copies s tree p' k → p' = p) (mem : p ∈ ps) :
    (ps.foldl (restored s) t).get? k = some (.file b) := by
  obtain ⟨before, behind, rfl⟩ := List.append_of_mem mem
  have all_before : ∀ p ∈ before, ∃ l, Beside s tree p l :=
    fun p mem => all p (List.mem_append_left _ mem)
  have all_behind : ∀ p ∈ behind, ∃ l, Beside s tree p l :=
    fun p mem => all p (List.mem_append_right _ (List.mem_cons_of_mem _ mem))
  have re := refiled_foldl all_before re
  have get := (get?_foldl_of_kept all_before ‹_› at_l get
    (fun p' mem => alone p' (List.mem_append_left _ mem)) get
    (fun p' mem => alone p' (List.mem_append_left _ mem))).1
  have put := restored_of_copies re at_l get copies
  have ne := FileTree.ne_nil_of_target? copies.2
  rw [List.foldl_append, List.foldl_cons]
  refine (get?_foldl_of_kept all_behind (refiled_restored re at_l) at_l ?_
    (fun p' mem => alone p' (List.mem_append_right _ (List.mem_cons_of_mem _ mem))) ?_
    (fun p' mem => alone' p' (List.mem_append_right _ (List.mem_cons_of_mem _ mem)))).2
  · rw [put, FileTree.get?_put _ _ _ ne, get, ite_self]
  · rw [put, FileTree.get?_put _ _ _ ne, if_pos rfl]

end

/-- Copying what lies at its target already changes nothing. -/
lemma foldl_restored_eq_self {ps : List Path} (re : Refiled tree t)
    (done : ∀ p ∈ ps, ∃ l b, Beside s tree p l ∧ t.get? l = some (.file b) ∧
      ∀ k, Copies s tree p k → t.get? k = some (.file b)) : ps.foldl (restored s) t = t := by
  refine List.foldlRecOn (motive := fun t' => t' = t) ps _ rfl ?_
  rintro t' rfl p mem
  obtain ⟨l, b, at_l, get, lies⟩ := done p mem
  obtain ⟨k, copies, eq⟩ | ⟨_, eq⟩ := restored_cases re at_l get
  · rw [eq]
    exact FileTree.put_self (FileTree.ne_nil_of_target? copies.2) (lies k copies)
  · exact eq

/-! ## Listed backups -/

section

variable {root : Path} {deep : Bool} {found : List Path} {dir : Location} {name : Text}

/-- The backups that are found are the files under the root that are backups of something. -/
lemma mem_find (find : find s tree root deep = .ok found) : ∃ files,
    tree.walk (fun _ => false) deep root = .ok files ∧
      ∀ q, q ∈ found ↔ q ∈ files ∧ ∃ p, sourceOf? s q = some p := by
  unfold Backup.find at find
  cases walk : tree.walk (fun _ => false) deep root with
  | error e =>
    rw [walk] at find
    cases find
  | ok files =>
    rw [walk] at find
    obtain rfl := Except.ok.inj find
    refine ⟨files, rfl, fun q => ?_⟩
    rw [(Path.sort_perm _).mem_iff, List.mem_filter, Option.isSome_iff_exists]

/-- A listed backup has the suffix behind the name of its source, which is in the same directory. -/
lemma named_of_mem_find (wn : tree.WellNamed) (find : find s tree root deep = .ok found) (mem : q ∈ found) :
    ∃ d dir name b, sourceOf? s q = some (d.join name) ∧ tree.Opens d dir ∧ name ≠ [] ∧
      tree.SourceAt q dir (name ++ s) b := by
  obtain ⟨files, walk, listed⟩ := mem_find find
  obtain ⟨mem, p, source⟩ := (listed q).1 mem
  obtain ⟨dir, name, b, src⟩ := (FileTree.walk_files wn walk).2.1 q mem
  obtain ⟨m, ne, rfl⟩ := Path.append_of_sourceOf? source src.spells.fileName?
  obtain ⟨d, rfl, op, nm⟩ := src.spells
  obtain ⟨d', idles, eq, parts, idle, nil⟩ := Path.sourceOf?_append (p := d) nm ne
  exact ⟨d', dir, m, b, eq, op.trim parts idle nil, ne, src⟩

/-- The path of the backup of a source spells the listed backup. -/
lemma beside_of_mem_find (wn : tree.WellNamed) (find : find s tree root deep = .ok found) (mem : q ∈ found) :
    ∃ p dir name b, sourceOf? s q = some p ∧ tree.SourceAt q dir name b ∧
      Beside s tree p (dir ++ [name]) := by
  obtain ⟨d, dir, name, b, source, op, _, src⟩ := named_of_mem_find wn find mem
  obtain ⟨_, _, _, nm⟩ := src.spells
  refine ⟨_, dir, name ++ s, b, source, src, dir, name ++ s, b, rfl, ?_, src.short, src.get?⟩
  exact ⟨d, Path.append_join d name s, op, nm⟩

/-- A refiled tree lists no backup that was not listed before, if no new file is named as a backup. -/
lemma find_of_refiled (re : Refiled tree t) (wn : t.WellNamed)
    (fresh : ∀ dir name, tree.get? (dir ++ [name]) = none → t.get? (dir ++ [name]) ≠ none →
      s <:+ name → name = s)
    (find : find s tree root deep = .ok found) :
    ∃ found', Backup.find s t root deep = .ok found' ∧ ∀ q ∈ found', q ∈ found := by
  obtain ⟨files, walk, listed⟩ := mem_find find
  obtain ⟨files', walk', old⟩ := re.walk walk
  obtain ⟨found', find'⟩ : ∃ found', Backup.find s t root deep = .ok found' :=
    ⟨_, by rw [Backup.find, walk']⟩
  obtain ⟨files'', walk'', listed'⟩ := mem_find find'
  obtain rfl := Except.ok.inj (walk'.symm.trans walk'')
  refine ⟨found', find', fun q mem => ?_⟩
  obtain ⟨mem, p, source⟩ := (listed' q).1 mem
  obtain mem | ⟨d, dir, name, rfl, free, now⟩ := old q mem
  · exact (listed q).2 ⟨mem, p, source⟩
  · obtain ⟨e, get⟩ := Option.ne_none_iff_exists'.1 now
    obtain ⟨m, ne, eq⟩ := Path.append_of_sourceOf? source (Path.fileName?_join (wn dir name e get).1)
    have same := fresh dir name free now ⟨m, eq.symm⟩
    rw [same, List.self_eq_append_left] at eq
    exact absurd eq ne

end

/-! ## Backups in the way -/

/-- Restoring from one backup writes over another: the source of the one leads to the other. -/
def Overwrites (s : Text) (tree : FileTree) (q q' : Path) : Prop :=
  ∃ p dir name b, sourceOf? s q = some p ∧ tree.SourceAt q' dir name b ∧ Copies s tree p (dir ++ [name])

/-- The sources of two backups lead to the same place. -/
def Competes (s : Text) (tree : FileTree) (q q' : Path) : Prop :=
  ∃ p p' l, sourceOf? s q = some p ∧ sourceOf? s q' = some p' ∧ Copies s tree p l ∧ Copies s tree p' l

/-- The source of a backup leads to a free name that is the name of a backup. -/
def MakesBackup (s : Text) (tree : FileTree) (q : Path) : Prop :=
  ∃ p dir name, sourceOf? s q = some p ∧ Copies s tree p (dir ++ [name]) ∧
    tree.get? (dir ++ [name]) = none ∧ s <:+ name ∧ name ≠ s

section

variable {root : Path} {deep : Bool} {found : List Path} {dir : Location} {name : Text}

/-- Every path that is restored has its backup beside it. -/
lemma beside_of_mem_sources (wn : tree.WellNamed) (find : find s tree root deep = .ok found) :
    ∀ p ∈ found.filterMap (sourceOf? s), ∃ l, Beside s tree p l := by
  intro p mem
  obtain ⟨q, mem, source⟩ := List.mem_filterMap.1 mem
  obtain ⟨p', dir, name, b, source', _, at_l⟩ := beside_of_mem_find wn find mem
  obtain rfl := Option.some.inj (source.symm.trans source')
  exact ⟨_, at_l⟩

/-- If no other path is restored over a backup, none but its own can be. -/
lemma alone_at_backup (source : sourceOf? s q = some p) (src : tree.SourceAt q dir name b)
    (alone : ∀ q' ∈ found, Overwrites s tree q' q → q' = q) :
    ∀ p' ∈ found.filterMap (sourceOf? s), Copies s tree p' (dir ++ [name]) → p' = p := by
  intro p' mem copies
  obtain ⟨q', mem, source'⟩ := List.mem_filterMap.1 mem
  obtain rfl := alone q' mem ⟨p', dir, name, b, source', src, copies⟩
  exact Option.some.inj (source'.symm.trans source)

/-- If no other backup is restored to a place, only one path is. -/
lemma alone_at_target (source : sourceOf? s q = some p) (copies : Copies s tree p k)
    (alone : ∀ q' ∈ found, Competes s tree q' q → q' = q) :
    ∀ p' ∈ found.filterMap (sourceOf? s), Copies s tree p' k → p' = p := by
  intro p' mem copies'
  obtain ⟨q', mem, source'⟩ := List.mem_filterMap.1 mem
  obtain rfl := alone q' mem ⟨p', p, k, source', source, copies', copies⟩
  exact Option.some.inj (source'.symm.trans source)

/-- A listed backup keeps its bytes when only its own source may lead to it. -/
lemma get?_backup (wn : tree.WellNamed) (find : find s tree root deep = .ok found)
    (source : sourceOf? s q = some p) (src : tree.SourceAt q dir name b)
    (at_l : Beside s tree p (dir ++ [name])) (alone : ∀ q' ∈ found, Overwrites s tree q' q → q' = q) :
    ((found.filterMap (sourceOf? s)).foldl (restored s) tree).get? (dir ++ [name]) = some (.file b) := by
  have alone := alone_at_backup source src alone
  exact (get?_foldl_of_kept (beside_of_mem_sources wn find) (.refl tree) at_l src.get? alone src.get? alone).1

/-- The bytes of a listed backup lie at its target when no other source leads to either. -/
lemma get?_target (wn : tree.WellNamed) (find : find s tree root deep = .ok found) (mem : q ∈ found)
    (source : sourceOf? s q = some p) (src : tree.SourceAt q dir name b)
    (at_l : Beside s tree p (dir ++ [name])) (copies : Copies s tree p k)
    (alone : ∀ q' ∈ found, Overwrites s tree q' q ∨ Competes s tree q' q → q' = q) :
    ((found.filterMap (sourceOf? s)).foldl (restored s) tree).get? k = some (.file b) :=
  get?_foldl_of_copies (beside_of_mem_sources wn find) (.refl tree) at_l src.get?
    (alone_at_backup source src fun q' mem leads => alone q' mem (.inl leads)) copies
    (alone_at_target source copies fun q' mem leads => alone q' mem (.inr leads))
    (List.mem_filterMap.2 ⟨q, mem, source⟩)

/-- Backups are in no other's way where no source is a link or is itself named as a backup. -/
lemma undisturbed_of_plain (wn : tree.WellNamed) (find : find s tree root deep = .ok found)
    (plain : ∀ q ∈ found, ∀ dir name b, tree.SourceAt q dir (name ++ s) b →
      ¬ s <:+ name ∧ ∀ goal, tree.get? (dir ++ [name]) ≠ some (.link goal)) :
    ∀ q ∈ found, ¬ MakesBackup s tree q ∧
      ∀ q' ∈ found, Overwrites s tree q' q ∨ Competes s tree q' q → q' = q := by
  -- every copy goes to the name that is left without the suffix
  have named : ∀ q ∈ found, ∃ dir name b, tree.SourceAt q dir (name ++ s) b ∧ ¬ s <:+ name ∧
      ∀ p l, sourceOf? s q = some p → Copies s tree p l → l = dir ++ [name] := by
    intro q mem
    obtain ⟨d, dir, name, b, source, op, ne, src⟩ := named_of_mem_find wn find mem
    obtain ⟨other, unlinked⟩ := plain q mem dir name b src
    refine ⟨dir, name, b, src, other, fun p l source' copies => ?_⟩
    obtain rfl := Option.some.inj (source.symm.trans source')
    obtain ⟨_, _, _, nm⟩ := src.spells
    exact FileTree.target?_join op ne (fun sep => nm.no_sep (List.mem_append_left _ sep)) unlinked copies.2
  intro q mem
  obtain ⟨dir, name, b, src, other, lead⟩ := named q mem
  refine ⟨?_, fun q' mem' => ?_⟩
  · rintro ⟨p, dir', name', source, copies, _, suffix, _⟩
    obtain ⟨_, names⟩ := List.append_inj' (lead p _ source copies) rfl
    obtain rfl := List.singleton_inj.1 names
    exact other suffix
  · obtain ⟨dir₁, name₁, b₁, src₁, other₁, lead₁⟩ := named q' mem'
    rintro (⟨p, dir', name', b', source, at_q, copies⟩ | ⟨p, p', l, source, source', copies, copies'⟩)
    · obtain ⟨rfl, rfl, _⟩ := src.unique at_q
      obtain ⟨_, names⟩ := List.append_inj' (lead₁ p _ source copies) rfl
      exact absurd (List.singleton_inj.1 names ▸ List.suffix_append name s) other₁
    · obtain ⟨files, walk, listed⟩ := mem_find find
      have same := (lead₁ p l source copies).symm.trans (lead p' l source' copies')
      obtain ⟨rfl, names⟩ := List.append_inj' same rfl
      obtain rfl := List.singleton_inj.1 names
      obtain rfl := Entry.file.inj (Option.some.inj (src₁.get?.symm.trans src.get?))
      exact (FileTree.walk_files wn walk).2.2 q' ((listed q').1 mem').1 q ((listed q).1 mem).1 _ _ _ src₁ src

end

end Backup

open Backup

/-! ## The command -/

/-- Restoring goes through its paths in order, whatever becomes of each. -/
lemma tree_restoreEach (s : Text) (ps : List Path) (report : Restoration) (t : FileTree) :
    (Command.restoreEach s true ps report t).2 = ps.foldl (restored s) t := by
  induction ps generalizing report t with
  | nil => rfl
  | cons p ps ih =>
    rw [Command.restoreEach, if_pos rfl, List.foldl_cons, restored]
    cases restore s t p with
    | ok t' => exact ih _ _
    | error f => exact ih _ _

/-- The paths that are reported as restored are those that could be copied. -/
lemma mem_restored_restoreEach {ps : List Path} (all : ∀ p ∈ ps, ∃ l, Beside s tree p l)
    (re : Refiled tree t) (report : Restoration) :
    p ∈ (Command.restoreEach s true ps report t).1.restored ↔
      p ∈ report.restored ∨ p ∈ ps ∧ ∃ k, Copies s tree p k := by
  induction ps generalizing report t with
  | nil => simp [Command.restoreEach]
  | cons p' ps ih =>
    obtain ⟨l, at_l⟩ := all p' List.mem_cons_self
    have all : ∀ p ∈ ps, ∃ l, Beside s tree p l := fun p mem => all p (List.mem_cons_of_mem _ mem)
    obtain ⟨b, get⟩ := at_l.file re
    rw [Command.restoreEach, if_pos rfl, List.mem_cons]
    -- whether a path can be copied is the same before and after the others were
    obtain ⟨k, copies, eq⟩ | ⟨none, f, eq⟩ := restore_cases re at_l get
    · rw [eq]
      dsimp only
      rw [ih all (re.put copies.2 b), List.mem_append, List.mem_singleton]
      constructor
      · rintro ((mem | rfl) | ⟨mem, copied⟩)
        · exact .inl mem
        · exact .inr ⟨.inl rfl, k, copies⟩
        · exact .inr ⟨.inr mem, copied⟩
      · rintro (mem | ⟨rfl | mem, copied⟩)
        · exact .inl (.inl mem)
        · exact .inl (.inr rfl)
        · exact .inr ⟨mem, copied⟩
    · rw [eq]
      dsimp only
      rw [ih all re]
      constructor
      · rintro (mem | ⟨mem, copied⟩)
        · exact .inl mem
        · exact .inr ⟨.inr mem, copied⟩
      · rintro (mem | ⟨rfl | mem, k, copied⟩)
        · exact .inl mem
        · exact absurd copied (none k)
        · exact .inr ⟨mem, k, copied⟩

/-- What restoring does to a tree, said of the paths that it goes through. -/
lemma restore_foldl {request : Command.RestoreRequest} {settings : Settings} {found : List Path}
    (suffix : settings.batch.backupSuffix = s) (yes : request.yes = true)
    (check : settings.batch.check = .ok ())
    (find : Backup.find s tree request.path (request.recursive || settings.batch.recursive) = .ok found) :
    ∃ report, Command.restore request settings tree =
        .ok (report, (found.filterMap (sourceOf? s)).foldl (restored s) tree) ∧
      report = (Command.restoreEach s true (found.filterMap (sourceOf? s)) {} tree).1 := by
  subst suffix
  refine ⟨_, ?_, rfl⟩
  rw [← tree_restoreEach settings.batch.backupSuffix _ {} tree, Command.restore, check, find, yes]
  rfl

/-- Restoring under a root that can be searched for backups does what it can. A listed backup keeps its
bytes, unless the source of another listed backup leads to it. A path that is reported as restored is the
source of a listed backup and holds what that backup held, unless the source of another leads to the same
place or to the backup. If no source leads to the place or the backup of another, or makes a new backup, then
restoring once more changes nothing. -/
theorem restore_undisturbed {request : Command.RestoreRequest} {settings : Settings} {found : List Path}
    (suffix : settings.batch.backupSuffix = s) (wn : tree.WellNamed) (yes : request.yes = true)
    (check : settings.batch.check = .ok ())
    (find : Backup.find s tree request.path (request.recursive || settings.batch.recursive) = .ok found) :
    ∃ report final, Command.restore request settings tree = .ok (report, final) ∧
      (∀ q ∈ found, (∀ q' ∈ found, Overwrites s tree q' q → q' = q) →
        ∀ dir name b, tree.SourceAt q dir name b → final.SourceAt q dir name b) ∧
      (∀ p ∈ report.restored, ∃ q ∈ found, sourceOf? s q = some p ∧
        ((∀ q' ∈ found, Overwrites s tree q' q ∨ Competes s tree q' q → q' = q) →
          ∀ dir name b, tree.SourceAt q dir name b → final.read p = .ok b)) ∧
      ((∀ q ∈ found, ¬ MakesBackup s tree q ∧
          ∀ q' ∈ found, Overwrites s tree q' q ∨ Competes s tree q' q → q' = q) →
        ∃ again, Command.restore request settings final = .ok (again, final)) := by
  have all := beside_of_mem_sources wn find
  have re := refiled_foldl all (.refl tree)
  have wn' := wellNamed_foldl all (.refl tree) wn
  obtain ⟨report, run, listed⟩ := restore_foldl suffix yes check find
  refine ⟨report, _, run, ?_, ?_, ?_⟩
  · intro q mem alone dir name b src
    obtain ⟨p, dir', name', b', source, src', at_l⟩ := beside_of_mem_find wn find mem
    obtain ⟨rfl, rfl, rfl⟩ := src.unique src'
    exact re.sourceAt src (get?_backup wn find source src at_l alone)
  · intro p mem
    rw [listed, mem_restored_restoreEach all (.refl tree)] at mem
    obtain ⟨mem, k, copies⟩ := mem.resolve_left List.not_mem_nil
    obtain ⟨q, mem, source⟩ := List.mem_filterMap.1 mem
    refine ⟨q, mem, source, fun alone dir name b src => ?_⟩
    obtain ⟨p', dir', name', b', source', src', at_l⟩ := beside_of_mem_find wn find mem
    obtain rfl := Option.some.inj (source.symm.trans source')
    obtain ⟨rfl, rfl, rfl⟩ := src.unique src'
    exact FileTree.read_of_target? (copies.target re) (get?_target wn find mem source src at_l copies alone)
  · intro apart
    -- what is new was copied to, and no copy makes a backup
    have fresh : ∀ dir name, tree.get? (dir ++ [name]) = none →
        ((found.filterMap (sourceOf? s)).foldl (restored s) tree).get? (dir ++ [name]) ≠ none →
        s <:+ name → name = s := by
      intro dir name free now suffix
      by_contra other
      rw [get?_foldl_of_away all (.refl tree)] at now
      · exact now free
      · intro p mem copies
        obtain ⟨q, mem, source⟩ := List.mem_filterMap.1 mem
        exact (apart q mem).1 ⟨p, dir, name, source, copies, free, suffix, other⟩
    obtain ⟨found', find', old⟩ := find_of_refiled re wn' fresh find
    obtain ⟨again, run', _⟩ := restore_foldl suffix yes check find'
    refine ⟨again, ?_⟩
    rw [run', foldl_restored_eq_self re]
    intro p mem
    obtain ⟨q, mem, source⟩ := List.mem_filterMap.1 mem
    have mem := old q mem
    obtain ⟨p', dir, name, b, source', src, at_l⟩ := beside_of_mem_find wn find mem
    obtain rfl := Option.some.inj (source.symm.trans source')
    have alone := (apart q mem).2
    refine ⟨_, b, at_l, ?_, fun k copies => get?_target wn find mem source src at_l copies alone⟩
    exact get?_backup wn find source src at_l fun q' mem leads => alone q' mem (.inl leads)

/-- A source with its backup. -/
def backedTree : FileTree :=
  ((FileTree.empty []).put ["a.cs".toList] (.file "now".toUTF8)).put
    ["a.cs.backup_critical".toList] (.file "one".toUTF8)

/-- A source with its backup and a backup of that. -/
def stackedTree : FileTree :=
  backedTree.put ["a.cs.backup_critical.backup_critical".toList] (.file "two".toUTF8)

/-- The tree of the sample is well named. -/
lemma wellNamed_backedTree : backedTree.WellNamed := by
  have named : ∀ n ∈ ["a.cs".toList, "a.cs.backup_critical".toList],
      Path.IsName n ∧ Text.byteLength n ≤ FileTree.maxNameBytes := by decide
  obtain ⟨nm, short⟩ := named "a.cs".toList (by decide)
  obtain ⟨nm', short'⟩ := named "a.cs.backup_critical".toList (by decide)
  exact (FileTree.wellNamed_empty.put [] _ nm short).put [] _ nm' short'

/-- One backup is found in the sample. -/
lemma find_backedTree : Backup.find defaultBackupSuffix backedTree ⟨['.']⟩ false =
    .ok [⟨"./a.cs.backup_critical".toList⟩] := by
  cbv

/-- A source with one backup is restored, the backup stays, and restoring again changes nothing. -/
theorem restore_undisturbed_backed : ∃ report final again,
    Command.restore ⟨⟨['.']⟩, false, true⟩ {} backedTree = .ok (report, final) ∧
      final.read ⟨"./a.cs.backup_critical".toList⟩ = .ok "one".toUTF8 ∧
      (∀ p ∈ report.restored, final.read p = .ok "one".toUTF8) ∧
      Command.restore ⟨⟨['.']⟩, false, true⟩ {} final = .ok (again, final) := by
  have stat : backedTree.stat .inspect ⟨"./a.cs.backup_critical".toList⟩ =
      .ok (["a.cs.backup_critical".toList], .file "one".toUTF8) := by cbv
  obtain ⟨dir, name, eq, src⟩ := FileTree.sourceAt_of_stat stat
  have plain : ∀ q ∈ [(⟨"./a.cs.backup_critical".toList⟩ : Path)], ∀ dir name b,
      backedTree.SourceAt q dir (name ++ defaultBackupSuffix) b →
        ¬ defaultBackupSuffix <:+ name ∧ ∀ goal, backedTree.get? (dir ++ [name]) ≠ some (.link goal) := by
    intro q mem dir' name' b src'
    obtain rfl := List.mem_singleton.1 mem
    obtain ⟨rfl, rfl, _⟩ := src.unique src'
    have parts : [] ++ ["a.cs".toList ++ defaultBackupSuffix] = dir ++ [name' ++ defaultBackupSuffix] := eq
    obtain ⟨rfl, names⟩ := List.append_inj' parts rfl
    obtain rfl := List.append_cancel_right (List.singleton_inj.1 names)
    have get : backedTree.get? ([] ++ ["a.cs".toList]) = some (.file "now".toUTF8) := by cbv
    rw [get]
    exact ⟨by decide, by simp⟩
  have apart := undisturbed_of_plain wellNamed_backedTree find_backedTree plain
  obtain ⟨report, final, run, kept, holds, twice⟩ :=
    @restore_undisturbed _ _ ⟨⟨['.']⟩, false, true⟩ {} _ rfl wellNamed_backedTree rfl (by decide)
      find_backedTree
  obtain ⟨again, run'⟩ := twice apart
  refine ⟨report, final, again, run, ?_, fun p mem => ?_, run'⟩
  · have alone := (apart _ List.mem_cons_self).2
    have src' := kept _ List.mem_cons_self (fun q' mem leads => alone q' mem (.inl leads)) dir name _ src
    rw [src'.read_eq]
    rfl
  · obtain ⟨q, mem, _, holds⟩ := holds p mem
    obtain rfl := List.mem_singleton.1 mem
    exact holds (apart _ List.mem_cons_self).2 dir name _ src

/-- A backup of a backup is copied over it. -/
theorem backup_overwritten : ∃ found report final,
    Backup.find defaultBackupSuffix stackedTree ⟨['.']⟩ false = .ok found ∧
      ⟨"./a.cs.backup_critical".toList⟩ ∈ found ∧
      stackedTree.read ⟨"./a.cs.backup_critical".toList⟩ = .ok "one".toUTF8 ∧
      Command.restore ⟨⟨['.']⟩, false, true⟩ {} stackedTree = .ok (report, final) ∧
      final.read ⟨"./a.cs.backup_critical".toList⟩ = .ok "two".toUTF8 := by
  have find : Backup.find defaultBackupSuffix stackedTree ⟨['.']⟩ false =
      .ok [⟨"./a.cs.backup_critical".toList⟩, ⟨"./a.cs.backup_critical.backup_critical".toList⟩] := by
    cbv
  obtain ⟨report, run, _⟩ : ∃ report, Command.restore ⟨⟨['.']⟩, false, true⟩ {} stackedTree =
      .ok (report, _) ∧ _ := restore_foldl rfl rfl (by decide) find
  exact ⟨_, report, _, find, List.mem_cons_self, by cbv, run, by cbv⟩

end Mender
