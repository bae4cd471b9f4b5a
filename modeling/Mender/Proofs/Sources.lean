import Mender.Proofs.FileTree.Listing
import Mender.Proofs.Path.Order
import Mender.Sources

/-!
# Which files are sources

A regular file is sighted from a root along the names of the directories between them (`Sights`), and a
query admits it by these names and its own (`Admits`). The sources that are found are the files that are
sighted and admitted and whose directories have paths short enough to be opened, each strictly before the
next, and they do not depend on the order in which directories list their entries (`find_exact`).
-/

namespace Mender

namespace FileTree

variable {tree : FileTree} {pruned : Text → Bool} {root p q : Path} {top : Location}
  {dirs dirs' : List Text} {name name' : Text}

/-! ## Files in sight -/

/-- A regular file is seen from a root: its path, the directories between them, and its name. A link is
followed at the root only. -/
inductive Sights (tree : FileTree) (root : Path) : Path → List Text → Text → Prop where
  | root {dir name b} :
    tree.stat .inspect root = .ok (dir ++ [name], .file b) →
    Sights tree root root [] name
  | below {top dirs name b} :
    tree.stat .use root = .ok (top, .directory) →
    (∀ d, d ≠ [] → d <+: dirs → tree.get? (top ++ d) = some .directory) →
    tree.get? (top ++ dirs ++ [name]) = some (.file b) →
    Sights tree root (root.joinAll (dirs ++ [name])) dirs name

/-- The paths of all directories on a way are short enough to be opened. -/
def Openable (root : Path) (dirs : List Text) : Prop :=
  ∀ d, d ≠ [] → d <+: dirs → isTooLong (root.joinAll d) = false

/-- A file in sight has the name under which it is. -/
lemma Sights.fileName? (wn : tree.WellNamed) (sights : Sights tree root p dirs name) :
    p.fileName? = some name := by
  cases sights with
  | root stat =>
    obtain ⟨dir, name', eq, src⟩ := sourceAt_of_stat stat
    obtain ⟨_, same⟩ := List.append_inj' eq rfl
    rw [src.spells.fileName?, List.singleton_inj.1 same]
  | below _ _ get =>
    rw [Path.joinAll_concat]
    exact Path.fileName?_join (wn _ _ _ get).1

/-- A path that names a file does not lead to a directory. -/
lemma not_directory_of_file {l l' : Location} {b : ByteArray}
    (stat : tree.stat .inspect root = .ok (l, .file b)) : tree.stat .use root ≠ .ok (l', .directory) := by
  intro use
  obtain ⟨dir, name, _, src⟩ := sourceAt_of_stat stat
  rw [FileTree.stat, src.resolve_eq, (stat_eq_ok.1 stat).1] at use
  cases use

/-- The names on the way to a file are names. -/
lemma isName_of_way {b : ByteArray} (wn : tree.WellNamed)
    (way : ∀ d, d ≠ [] → d <+: dirs → tree.get? (top ++ d) = some .directory)
    (get : tree.get? (top ++ dirs ++ [name]) = some (.file b)) : ∀ n ∈ dirs ++ [name], Path.IsName n := by
  refine List.forall_mem_append.2 ⟨fun n mem => ?_, fun n mem => ?_⟩
  · obtain ⟨above, below, rfl⟩ := List.append_of_mem mem
    have get := way (above ++ [n]) (by simp) ⟨below, by simp⟩
    rw [← List.append_assoc] at get
    exact (wn _ _ _ get).1
  · rw [List.mem_singleton.1 mem]
    exact (wn _ _ _ get).1

/-- What is seen from a root is told apart by the components of its path. -/
lemma Sights.inj (wn : tree.WellNamed) (sights : Sights tree root p dirs name)
    (sights' : Sights tree root q dirs' name') (same : p.components = q.components) :
    p = q ∧ dirs = dirs' := by
  cases sights with
  | root stat =>
    cases sights' with
    | root _ => exact ⟨rfl, rfl⟩
    | below use _ _ => exact absurd use (not_directory_of_file stat)
  | below use way get =>
    cases sights' with
    | root stat => exact absurd use (not_directory_of_file stat)
    | below use' way' get' =>
      have names := Path.joinAll_inj (isName_of_way wn way get) (isName_of_way wn way' get') same
      rw [names]
      exact ⟨rfl, (List.append_inj' names rfl).1⟩

/-- The path that is a single dot leads to the working directory. -/
lemma stat_dot (tree : FileTree) : tree.stat .use ⟨['.']⟩ = .ok (tree.workingDirectory, .directory) := by
  refine stat_eq_ok.2 ⟨rfl, ?_⟩
  change tree.follow .use maxLinks [['.']] tree.workingDirectory = _
  rw [follow.eq_2, if_pos (.inr rfl), follow.eq_1]

/-- The working directory exists. -/
lemma pathExists_dot (tree : FileTree) : tree.pathExists ⟨['.']⟩ = true := by
  rw [pathExists, stat_dot]
  rfl

/-! ## What a walk lists -/

/-- The directories that are entered are those on a way without pruned names and long paths. -/
lemma enters_iff {level : Nat} {path : Path} {dir : Location} :
    Enters tree pruned root top level path dir ↔ ∃ dirs, level = dirs.length ∧
      path = root.joinAll dirs ∧ dir = top ++ dirs ∧
      (∀ d, d ≠ [] → d <+: dirs → tree.get? (top ++ d) = some .directory) ∧
      (∀ n ∈ dirs, pruned n = false) ∧ Openable root dirs := by
  constructor
  · intro enters
    induction enters with
    | top =>
      refine ⟨[], rfl, rfl, (List.append_nil _).symm, ?_, nofun, ?_⟩
      · exact fun d ne pre => absurd (List.prefix_nil.1 pre) ne
      · exact fun d ne pre => absurd (List.prefix_nil.1 pre) ne
    | @down level path dir name _ get kept short ih =>
      obtain ⟨dirs, rfl, rfl, rfl, way, free, open_⟩ := ih
      rw [List.append_assoc] at get
      refine ⟨dirs ++ [name], by simp, (Path.joinAll_concat ..).symm, List.append_assoc .., ?_, ?_, ?_⟩
      · intro d ne pre
        -- a way that goes one level further is the new directory or a way that was there
        rcases List.prefix_concat_iff.1 pre with rfl | pre
        · exact get
        · exact way d ne pre
      · refine List.forall_mem_append.2 ⟨free, fun n mem => ?_⟩
        rw [List.mem_singleton.1 mem]
        exact kept
      · intro d ne pre
        rcases List.prefix_concat_iff.1 pre with rfl | pre
        · rw [Path.joinAll_concat]
          exact short
        · exact open_ d ne pre
  · rintro ⟨dirs, rfl, rfl, rfl, way, free, open_⟩
    -- from the last directory up, since a walk enters a directory from its parent
    induction dirs using List.reverseRecOn with
    | nil =>
      rw [List.append_nil]
      exact .top
    | append_singleton dirs n ih =>
      have sub : ∀ {d : List Text}, d <+: dirs → d <+: dirs ++ [n] :=
        fun pre => pre.trans (List.prefix_append _ _)
      have enters := ih (fun d ne pre => way d ne (sub pre))
        (fun m mem => free m (List.mem_append_left _ mem)) fun d ne pre => open_ d ne (sub pre)
      have get := way (dirs ++ [n]) (by simp) List.prefix_rfl
      have short := open_ (dirs ++ [n]) (by simp) List.prefix_rfl
      rw [Path.joinAll_concat] at short ⊢
      rw [← List.append_assoc] at get ⊢
      rw [List.length_append]
      exact .down enters get (free n (by simp)) short

/-- The files under a directory are those that can be reached over directories that are searched and can be
opened. -/
lemma mem_filesUnder {depth : Nat} :
    p ∈ tree.filesUnder pruned depth root top ↔ ∃ dirs name b, dirs.length < depth ∧
      p = root.joinAll (dirs ++ [name]) ∧
      (∀ d, d ≠ [] → d <+: dirs → tree.get? (top ++ d) = some .directory) ∧
      tree.get? (top ++ dirs ++ [name]) = some (.file b) ∧
      (∀ n ∈ dirs, pruned n = false) ∧ Openable root dirs := by
  rw [filesUnder_eq_map, List.mem_map]
  constructor
  · rintro ⟨⟨p, d, n⟩, mem, rfl⟩
    obtain ⟨level, q, b, enters, lt, rfl, get⟩ := mem_located.1 mem
    obtain ⟨dirs, rfl, rfl, rfl, way, free, open_⟩ := enters_iff.1 enters
    exact ⟨dirs, n, b, lt, (Path.joinAll_concat ..).symm, way, get, free, open_⟩
  · rintro ⟨dirs, name, b, lt, rfl, way, get, free, open_⟩
    refine ⟨(_, top ++ dirs, name), mem_located.2 ⟨dirs.length, root.joinAll dirs, b, ?_, lt, ?_, get⟩, rfl⟩
    · exact enters_iff.2 ⟨dirs, rfl, rfl, rfl, way, free, open_⟩
    · exact Path.joinAll_concat ..

/-- The files under a directory are those in sight from it, as far down as the walk goes. -/
lemma mem_filesUnder_iff_sights (use : tree.stat .use root = .ok (top, .directory)) (recursive : Bool) :
    p ∈ tree.filesUnder pruned (if recursive then tree.height + 1 else 1) root top ↔
      ∃ dirs name, Sights tree root p dirs name ∧ (recursive = false → dirs = []) ∧
        (∀ n ∈ dirs, pruned n = false) ∧ Openable root dirs := by
  rw [mem_filesUnder]
  constructor
  · rintro ⟨dirs, name, b, lt, rfl, way, get, free, short⟩
    refine ⟨dirs, name, .below use way get, ?_, free, short⟩
    rintro rfl
    exact List.length_eq_zero_iff.1 (Nat.lt_one_iff.1 lt)
  · rintro ⟨dirs, name, sights, flat, free, short⟩
    cases sights with
    | root stat => exact absurd use (not_directory_of_file stat)
    | below use' way get =>
      obtain ⟨rfl, -⟩ := Prod.mk.inj (Except.ok.inj (use'.symm.trans use))
      refine ⟨dirs, name, _, ?_, rfl, way, get, free, short⟩
      cases recursive with
      | false =>
        rw [flat rfl]
        exact Nat.one_pos
      | true =>
        have le := height_le_iff.1 (Nat.le_refl _) _ _ get
        simp only [List.length_append, List.length_singleton] at le
        simp only [if_true]
        omega

/-- A walk from a path that leads somewhere lists the files in sight, as far down as it goes. -/
lemma walk_of_pathExists (readable : tree.pathExists root = true) (pruned : Text → Bool)
    (recursive : Bool) : ∃ files, tree.walk pruned recursive root = .ok files ∧
      ∀ p, p ∈ files ↔ ∃ dirs name, Sights tree root p dirs name ∧ (recursive = false → dirs = []) ∧
        (∀ n ∈ dirs, pruned n = false) ∧ Openable root dirs := by
  obtain ⟨⟨l, e⟩, use⟩ : ∃ found, tree.stat .use root = .ok found := by
    rw [pathExists] at readable
    cases use : tree.stat .use root with
    | ok found => exact ⟨found, rfl⟩
    | error e =>
      rw [use] at readable
      cases readable
  by_cases directory : e = .directory
  · subst directory
    exact ⟨_, walk_of_directory use pruned recursive, fun p => mem_filesUnder_iff_sights use recursive⟩
  -- nothing is below the root, and the root itself is in sight unless it is a link
  obtain ⟨spelling, follow⟩ := stat_eq_ok.1 use
  obtain ⟨l', e', inspect⟩ := follow_inspect_of_use follow
  have stat := stat_eq_ok.2 ⟨spelling, inspect⟩
  have none : ∀ {top}, tree.stat .use root ≠ .ok (top, .directory) := by
    intro top use'
    exact directory (Prod.mk.inj (Except.ok.inj (use.symm.trans use'))).2
  cases e' with
  | directory => exact absurd ((opens_of_stat stat).stat_use spelling) none
  | file b =>
    refine ⟨_, walk_eq_ok.2 (.inl ⟨l', b, stat, rfl⟩), fun p => ⟨fun mem => ?_, ?_⟩⟩
    · obtain ⟨dir, name, rfl, -⟩ := sourceAt_of_stat stat
      obtain rfl := List.mem_singleton.1 mem
      refine ⟨[], name, .root stat, fun _ => rfl, nofun, fun d ne pre => ?_⟩
      exact absurd (List.prefix_nil.1 pre) ne
    · rintro ⟨dirs, name, sights, -⟩
      cases sights with
      | root _ => exact List.mem_singleton_self _
      | below use' _ _ => exact absurd use' none
  | link t =>
    refine ⟨_, walk_eq_ok.2 (.inr (.inr (.inr ⟨l', t, l, e, stat, use, directory, rfl⟩))), fun p => ?_⟩
    refine ⟨nofun, ?_⟩
    rintro ⟨dirs, name, sights, -⟩
    cases sights with
    | root stat' => cases stat.symm.trans stat'
    | below use' _ _ => exact absurd use' none

/-! ## Other orders of entries -/

/-- Listings with the same entries give the same files, in another order. -/
lemma filesBy_perm {list : Location → List (Text × Entry)}
    (lists : ∀ dir, (list dir).Perm (tree.children dir)) (pruned : Text → Bool) (depth : Nat)
    (path : Path) (dir : Location) :
    (filesBy list pruned depth path dir).Perm (tree.filesUnder pruned depth path dir) := by
  induction depth generalizing path dir with
  | zero => exact .refl _
  | succ depth ih =>
    refine ((lists dir).flatMap_right _).trans (List.Perm.flatMap_left _ fun x _ => ?_)
    obtain ⟨name, e⟩ := x
    cases e with
    | file b => exact .refl _
    | link t => exact .refl _
    | directory =>
      dsimp only
      split
      · exact .refl _
      · exact ih _ _

/-- A walk over other listings of the same entries lists the same files, in another order. -/
lemma walkBy_perm {list : Location → List (Text × Entry)}
    (lists : ∀ dir, (list dir).Perm (tree.children dir)) {recursive : Bool} {files : List Path}
    (walk : tree.walk pruned recursive root = .ok files) :
    ∃ files', tree.walkBy list pruned recursive root = .ok files' ∧ files'.Perm files := by
  have under := filesBy_perm lists pruned (if recursive then tree.height + 1 else 1) root
  obtain ⟨l, b, stat, rfl⟩ | ⟨l, stat, rfl⟩ | ⟨l, t, l', stat, use, rfl⟩ |
    ⟨l, t, l', e, stat, use, ne, rfl⟩ := walk_eq_ok.1 walk
  · exact ⟨_, walkBy_eq_ok.2 (.inl ⟨l, b, stat, rfl⟩), .refl _⟩
  · exact ⟨_, walkBy_eq_ok.2 (.inr (.inl ⟨l, stat, rfl⟩)), under l⟩
  · exact ⟨_, walkBy_eq_ok.2 (.inr (.inr (.inl ⟨l, t, l', stat, use, rfl⟩))), under l'⟩
  · exact ⟨_, walkBy_eq_ok.2 (.inr (.inr (.inr ⟨l, t, l', e, stat, use, ne, rfl⟩))), .refl _⟩

end FileTree

namespace SourceQuery

variable {q : SourceQuery} {tree : FileTree} {root p : Path} {name : Text} {dirs : List Text}

/-- A query admits a file by the directories on the way to it and by its name. -/
structure Admits (q : SourceQuery) (dirs : List Text) (name : Text) : Prop where
  depth : q.recursive = false → dirs = []
  searched : ∀ d ∈ dirs, d ∉ prunedDirectories
  kept : ∀ s ∈ q.excluded, ¬ s <:+ name
  wanted : ∃ stem ext, stem ≠ [] ∧ name = stem ++ '.' :: ext ∧ '.' ∉ ext ∧
    ∃ w ∈ q.extensions, sameIgnoringCase ext w

/-- What a text has behind its last dot, if it has one. -/
lemma takeWhile_dot {ext rest : Text} : name.reverse.takeWhile (· ≠ '.') = ext.reverse ∧
    name.reverse.dropWhile (· ≠ '.') = '.' :: rest.reverse ↔ name = rest ++ '.' :: ext ∧ '.' ∉ ext := by
  constructor
  · rintro ⟨front, back⟩
    have whole := List.takeWhile_append_dropWhile (p := (· ≠ '.')) (l := name.reverse)
    rw [front, back] at whole
    refine ⟨List.reverse_injective (by rw [← whole]; simp), fun mem => ?_⟩
    have kept := List.mem_takeWhile_imp (front ▸ List.mem_reverse.2 mem)
    simp at kept
  · rintro ⟨rfl, free⟩
    have pass : ∀ c ∈ ext.reverse, decide (c ≠ '.') = true := by
      intro c mem
      refine decide_eq_true fun eq => free ?_
      rw [← eq]
      exact List.mem_reverse.1 mem
    have text : (rest ++ '.' :: ext).reverse = ext.reverse ++ '.' :: rest.reverse := by simp
    rw [text, List.takeWhile_append_of_pos pass, List.dropWhile_append_of_pos pass]
    simp

/-- The extension of a path is what its name has behind the last dot, if the name does not begin with
that dot. -/
lemma extension?_eq_some_iff {ext : Text} (nm : p.fileName? = some name) :
    p.extension? = some ext ↔ ∃ stem, stem ≠ [] ∧ name = stem ++ '.' :: ext ∧ '.' ∉ ext := by
  have eq : p.extension? =
      if (name.reverse.takeWhile (· ≠ '.')).reverse.length + 1 < name.length then
        some (name.reverse.takeWhile (· ≠ '.')).reverse else none := by
    rw [Path.extension?, nm]
    rfl
  rw [eq]
  constructor
  · intro found
    split at found
    · next long =>
      obtain rfl := Option.some.inj found
      have whole := congrArg List.length
        (List.takeWhile_append_dropWhile (p := (· ≠ '.')) (l := name.reverse))
      have stop := List.head?_dropWhile_not (· ≠ '.') name.reverse
      rw [List.length_append, List.length_reverse] at whole
      rw [List.length_reverse] at long
      -- a name without dot is all extension, and too short for one
      cases rest : name.reverse.dropWhile (· ≠ '.') with
      | nil =>
        rw [rest, List.length_nil] at whole
        omega
      | cons c front =>
        rw [rest] at stop whole
        obtain rfl : c = '.' := by simpa using stop
        refine ⟨front.reverse, ?_, takeWhile_dot.1 ⟨(List.reverse_reverse _).symm, ?_⟩⟩
        · rintro none
          rw [List.reverse_eq_nil_iff.1 none] at whole
          simp only [List.length_cons, List.length_nil] at whole
          omega
        · rw [rest, List.reverse_reverse]
    · cases found
  · rintro ⟨stem, ne, name_eq⟩
    have long : ext.length + 1 < name.length := by
      have pos := List.length_pos_iff.2 ne
      rw [name_eq.1, List.length_append, List.length_cons]
      omega
    rw [(takeWhile_dot.2 name_eq).1, List.reverse_reverse, if_pos long]

/-- A name is selected when it has no excluded ending and, behind its last dot, a wanted extension. -/
lemma selects_iff (nm : p.fileName? = some name) : q.selects p = true ↔
    (∀ s ∈ q.excluded, ¬ s <:+ name) ∧ ∃ stem ext, stem ≠ [] ∧ name = stem ++ '.' :: ext ∧ '.' ∉ ext ∧
      ∃ w ∈ q.extensions, sameIgnoringCase ext w := by
  have named : ∀ ext, p.extension? = some ext ↔ _ := fun ext => extension?_eq_some_iff nm
  rw [selects, nm]
  cases found : p.extension? with
  | none =>
    refine ⟨nofun, ?_⟩
    rintro ⟨-, stem, ext, ne, eq, free, -⟩
    cases found.symm.trans ((named ext).2 ⟨stem, ne, eq, free⟩)
  | some ext =>
    obtain ⟨stem, ne, eq, free⟩ := (named ext).1 found
    simp only [Bool.and_eq_true, Bool.not_eq_true', List.any_eq_false, List.isSuffixOf_iff_suffix,
      List.any_eq_true]
    refine and_congr_right fun _ => ⟨fun wanted => ⟨stem, ext, ne, eq, free, wanted⟩, ?_⟩
    rintro ⟨stem', ext', ne', eq', free', wanted⟩
    obtain rfl := Option.some.inj (found.symm.trans ((named ext').2 ⟨stem', ne', eq', free'⟩))
    exact wanted

/-- What is found are the selected files that a walk lists, sorted. -/
lemma findBy_of_walkBy {list : Location → List (Text × Entry)} {listed : List Path}
    (walk : tree.walkBy list prunedDirectories.contains q.recursive root = .ok listed) :
    q.findBy tree list root = .ok (Path.sort (listed.filter q.selects)) := by
  rw [findBy, walk]

/-- The files that are listed are told apart by their components. -/
lemma distinct_listed (wn : tree.WellNamed) {files : List Path}
    (mem : ∀ p ∈ files, ∃ dirs name, tree.Sights root p dirs name) : Path.Distinct files := by
  intro p listed p' listed' same
  obtain ⟨_, _, sights⟩ := mem p listed
  obtain ⟨_, _, sights'⟩ := mem p' listed'
  exact (sights.inj wn sights' same).1

/-- What is found are the files in sight that the query admits, as far as the directories on the way can be
opened. -/
lemma mem_find (wn : tree.WellNamed) (readable : tree.pathExists root = true) {files : List Path}
    (found : q.find tree root = .ok files) : p ∈ files ↔ ∃ dirs name, tree.Sights root p dirs name ∧
      q.Admits dirs name ∧ FileTree.Openable root dirs := by
  obtain ⟨listed, walk, mem⟩ := FileTree.walk_of_pathExists readable prunedDirectories.contains q.recursive
  obtain rfl := Except.ok.inj ((findBy_of_walkBy walk).symm.trans found)
  rw [(Path.sort_perm _).mem_iff, List.mem_filter, mem]
  constructor
  · rintro ⟨⟨dirs, name, sights, flat, free, short⟩, selected⟩
    obtain ⟨kept, wanted⟩ := (selects_iff (sights.fileName? wn)).1 selected
    refine ⟨dirs, name, sights, ⟨flat, fun d mem => ?_, kept, wanted⟩, short⟩
    simpa using free d mem
  · rintro ⟨dirs, name, sights, ⟨flat, free, kept, wanted⟩, short⟩
    refine ⟨⟨dirs, name, sights, flat, fun d mem => ?_, short⟩, ?_⟩
    · simpa using free d mem
    · exact (selects_iff (sights.fileName? wn)).2 ⟨kept, wanted⟩

/-- From a root that leads somewhere exactly the sources are found: the regular files in sight that the
query admits and whose directories have paths short enough to be opened. Each of them is strictly before the
next, and in whatever order directories list their entries, the same is found. -/
theorem find_exact (q : SourceQuery) {tree : FileTree} {root : Path} (wn : tree.WellNamed)
    (readable : tree.pathExists root = true) : ∃ files, q.find tree root = .ok files ∧
      files.Pairwise (fun p p' => compare p p' = .lt) ∧
      (∀ p, p ∈ files ↔ ∃ dirs name, tree.Sights root p dirs name ∧ q.Admits dirs name ∧
        FileTree.Openable root dirs) ∧
      ∀ list : Location → List (Text × Entry), (∀ dir, (list dir).Perm (tree.children dir)) →
        q.findBy tree list root = .ok files := by
  obtain ⟨listed, walk, mem⟩ := FileTree.walk_of_pathExists readable prunedDirectories.contains q.recursive
  have found : q.find tree root = .ok (Path.sort (listed.filter q.selects)) := findBy_of_walkBy walk
  have nodup : (listed.filter q.selects).Nodup := (FileTree.walk_files wn walk).1.filter _
  have sighted : ∀ p ∈ listed.filter q.selects, ∃ dirs name, tree.Sights root p dirs name := by
    intro p kept
    obtain ⟨dirs, name, sights, -⟩ := (mem p).1 (List.mem_filter.1 kept).1
    exact ⟨dirs, name, sights⟩
  have distinct := distinct_listed wn sighted
  refine ⟨_, found, Path.sort_strict nodup distinct, fun p => mem_find wn readable found, ?_⟩
  intro list lists
  obtain ⟨listed', walk', perm⟩ := FileTree.walkBy_perm lists walk
  rw [findBy_of_walkBy walk']
  exact congrArg Except.ok (Path.sort_eq_of_perm nodup distinct (perm.filter _))

/-- A tree in which the order of paths is not that of their texts, with a directory that is not searched. -/
def shelvedTree : FileTree :=
  let source := Entry.file "class A { }".toUTF8
  ((((FileTree.empty []).put ([] ++ ["a".toList]) .directory).put (["a".toList] ++ ["z.CS".toList]) source
    |>.put ([] ++ ["a.cs".toList]) source).put ([] ++ ["bin".toList]) .directory).put
      (["bin".toList] ++ ["b.cs".toList]) source

/-- The tree of the shelves is well named. -/
lemma wellNamed_shelvedTree : shelvedTree.WellNamed := by
  refine .put (.put (.put (.put (.put FileTree.wellNamed_empty _ _ ?_ ?_) _ _ ?_ ?_) _ _ ?_ ?_) _ _ ?_ ?_)
    _ _ ?_ ?_
  all_goals decide

/-- Both sources of the tree are found, also if every directory lists its entries backwards. -/
theorem find_exact_shelved : findBy ⟨["cs".toList], [], true⟩ shelvedTree
    (fun dir => (shelvedTree.children dir).reverse) ⟨['.']⟩ =
      .ok [⟨"./a/z.CS".toList⟩, ⟨"./a.cs".toList⟩] := by
  obtain ⟨files, found, -, -, same⟩ :=
    find_exact ⟨["cs".toList], [], true⟩ wellNamed_shelvedTree (FileTree.pathExists_dot shelvedTree)
  have listed : shelvedTree.filesUnder prunedDirectories.contains (2 + 1) ⟨['.']⟩
      shelvedTree.workingDirectory = [⟨"./a/z.CS".toList⟩, ⟨"./a.cs".toList⟩] := by decide +kernel
  have height : shelvedTree.height = 2 := by decide +kernel
  have walk := FileTree.walk_of_directory (FileTree.stat_dot shelvedTree) prunedDirectories.contains true
  rw [if_pos rfl, height, listed] at walk
  rw [same _ fun dir => List.reverse_perm _, ← found]
  refine (findBy_of_walkBy (q := ⟨["cs".toList], [], true⟩) walk).trans ?_
  cbv

end SourceQuery

/-! ## Ways that are too long -/

namespace FileTree

/-- The tree with nothing but a way has directories along it. -/
lemma get?_empty (way l : Location) :
    (FileTree.empty way).get? l = if l <+: way then some .directory else none := by
  have fold : ∀ (ls : List Location) (m : Std.ExtTreeMap Location Entry),
      (ls.foldl (fun m l => m.insert l .directory) m)[l]? =
        if l ∈ ls then some Entry.directory else m[l]? := by
    intro ls
    induction ls with
    | nil => simp
    | cons k ls ih =>
      intro m
      rw [List.foldl_cons, ih, Std.ExtTreeMap.getElem?_insert]
      by_cases mem : l ∈ ls
      · simp [mem]
      · by_cases same : k = l
        · simp [same]
        · simp [mem, same, Ne.symm same]
  have mem : l ≠ [] → (l ∈ (List.range way.length).map (fun i => way.take (i + 1)) ↔ l <+: way) := by
    intro ne
    rw [List.mem_map]
    constructor
    · rintro ⟨i, -, rfl⟩
      exact List.take_prefix _ _
    · intro pre
      have pos := List.length_pos_iff.2 ne
      have le := pre.length_le
      refine ⟨l.length - 1, List.mem_range.2 (by omega), ?_⟩
      rw [Nat.sub_add_cancel pos]
      exact (List.prefix_iff_eq_take.1 pre).symm
  unfold get? FileTree.empty
  by_cases ne : l = []
  · simp [ne]
  · simp only [ne, if_false, fold, mem ne]
    simp

/-- Such a tree is well named, if the names on the way are. -/
lemma wellNamed_of_way {way : Location}
    (names : ∀ n ∈ way, Path.IsName n ∧ Text.byteLength n ≤ maxNameBytes) :
    (FileTree.empty way).WellNamed := by
  intro dir name e get
  rw [get?_empty] at get
  split at get
  · next pre => exact names name (pre.subset (by simp))
  · cases get

end FileTree

namespace SourceQuery

/-- Seventeen directories, each in the one before it, with names of two hundred and fifty bytes. -/
def longWay : List Text := List.replicate 17 (List.replicate 250 'n')

/-- A tree with a source at the end of the long way. -/
def deepTree : FileTree :=
  { FileTree.empty longWay with workingDirectory := [] }.put (longWay ++ ["x.cs".toList])
    (.file "class A { }".toUTF8)

/-- The deep tree has directories along one way and a file at its end. -/
lemma get?_deepTree (l : Location) : deepTree.get? l =
    if l = longWay ++ ["x.cs".toList] then some (.file "class A { }".toUTF8)
    else if l <+: longWay then some .directory else none := by
  rw [deepTree, FileTree.get?_put _ _ _ (by simp)]
  exact congrArg _ (FileTree.get?_empty longWay l)

/-- The deep tree is well named. -/
lemma wellNamed_deepTree : deepTree.WellNamed := by
  have way : (FileTree.empty longWay).WellNamed := by
    refine FileTree.wellNamed_of_way fun n mem => ?_
    rw [List.eq_of_mem_replicate mem]
    decide +kernel
  have top : FileTree.WellNamed { FileTree.empty longWay with workingDirectory := [] } := way
  exact top.put _ _ (by decide) (by decide)

/-- A regular file that the query admits is not found, if the path of a directory on the way to it is too
long to be opened. -/
theorem source_beyond_long_way : ∃ p dirs name files, deepTree.Sights ⟨['.']⟩ p dirs name ∧
    Admits ⟨["cs".toList], [], true⟩ dirs name ∧ deepTree.pathExists ⟨['.']⟩ = true ∧
    find ⟨["cs".toList], [], true⟩ deepTree ⟨['.']⟩ = .ok files ∧ p ∉ files := by
  have readable := FileTree.pathExists_dot deepTree
  have sights : deepTree.Sights ⟨['.']⟩ (Path.joinAll ⟨['.']⟩ (longWay ++ ["x.cs".toList])) longWay
      "x.cs".toList := by
    have here : deepTree.stat .use ⟨['.']⟩ = .ok ([], .directory) := FileTree.stat_dot deepTree
    have file : deepTree.get? ([] ++ longWay ++ ["x.cs".toList]) = some (.file "class A { }".toUTF8) := by
      rw [List.nil_append, get?_deepTree, if_pos rfl]
    refine .below here (fun d _ pre => ?_) file
    have short : d ≠ longWay ++ ["x.cs".toList] := by
      rintro rfl
      have le := pre.length_le
      rw [List.length_append] at le
      exact Nat.not_succ_le_self _ le
    rw [List.nil_append, get?_deepTree, if_neg short, if_pos pre]
  have admits : Admits ⟨["cs".toList], [], true⟩ longWay "x.cs".toList := by
    refine ⟨nofun, fun d mem => ?_, nofun, "x".toList, "cs".toList, by decide, rfl, by decide, ?_⟩
    · rw [List.eq_of_mem_replicate mem]
      decide +kernel
    · exact ⟨_, List.mem_singleton_self _, by decide⟩
  obtain ⟨listed, walk, -⟩ :=
    FileTree.walk_of_pathExists readable prunedDirectories.contains true
  have found : find ⟨["cs".toList], [], true⟩ deepTree ⟨['.']⟩ =
      .ok (Path.sort (listed.filter (selects ⟨["cs".toList], [], true⟩))) := findBy_of_walkBy walk
  refine ⟨_, _, _, _, sights, admits, readable, found, fun mem => ?_⟩
  obtain ⟨dirs, name, sights', -, short⟩ := (mem_find wellNamed_deepTree readable found).1 mem
  obtain ⟨-, rfl⟩ := sights'.inj wellNamed_deepTree sights rfl
  have long : FileTree.isTooLong (Path.joinAll ⟨['.']⟩ longWay) = true := by decide +kernel
  cases long.symm.trans (short longWay (by decide) List.prefix_rfl)

end SourceQuery

end Mender
