import Mender.Proofs.FileTree.Entries

/-!
# Listings

The names in a directory are those for which the tree has an entry, in an order that depends on the
names alone (`names_filter_eq`). A walk enters the directories of `Enters` and lists the regular files
in them (`mem_located`): each file once (`located_nodup`), under a path that spells it
(`Enters.opens`). Two trees that differ in the bytes of files and in files that are not wanted give
the same listing of the wanted files (`Grows.filesUnder_filter` of `Growth`).
-/

namespace Mender.FileTree

/-! ## The names in a directory -/

/-- An entry with a name is one of the entries that the tree holds. -/
lemma get?_append_singleton (tree : FileTree) (dir : Location) (name : Text) :
    tree.get? (dir ++ [name]) = tree.entries[dir ++ [name]]? := by
  rw [get?, if_neg (by simp)]

/-- A directory lists a name with an entry when the entry is there. -/
lemma mem_children {tree : FileTree} {dir name e} :
    (name, e) ∈ tree.children dir ↔ tree.get? (dir ++ [name]) = some e := by
  rw [get?_append_singleton, ← Std.ExtTreeMap.mem_toList_iff_getElem?_eq_some]
  simp only [children, below, toList, List.mem_filterMap, Prod.exists]
  constructor
  · rintro ⟨way, e', ⟨k, e'', mem, cut⟩, eq⟩
    split at cut
    · next under =>
      simp only [Bool.and_eq_true, List.isPrefixOf_iff_prefix, decide_eq_true_eq] at under
      obtain ⟨⟨rest, rfl⟩, _⟩ := under
      simp only [List.drop_left, Option.some.injEq, Prod.mk.injEq] at cut
      obtain ⟨rfl, rfl⟩ := cut
      split at eq
      · next h =>
        simp only [Option.some.injEq, Prod.mk.injEq] at eq h
        obtain ⟨rfl, rfl⟩ := eq
        obtain ⟨rfl, rfl⟩ := h
        exact mem
      · cases eq
    · cases cut
  · intro mem
    refine ⟨[name], e, ⟨dir ++ [name], e, mem, ?_⟩, rfl⟩
    rw [if_pos (by simp), List.drop_left]

/-- The names in a directory. -/
def names (tree : FileTree) (dir : Location) : List Text := (tree.children dir).map Prod.fst

/-- A name is in a directory when an entry is there. -/
lemma mem_names {tree : FileTree} {dir name} :
    name ∈ tree.names dir ↔ ∃ e, tree.get? (dir ++ [name]) = some e := by
  simp [names, mem_children]

/-- The name in a location of one part. -/
def onlyName? : Location × Entry → Option (Text × Entry)
  | ([name], e) => some (name, e)
  | _ => none

/-- A directory lists what is below it under one name only. -/
lemma children_eq (tree : FileTree) (dir : Location) :
    tree.children dir = (tree.below dir).filterMap onlyName? := rfl

/-- The names in a directory are ordered as their locations are. -/
lemma names_ordered (tree : FileTree) (dir : Location) :
    (tree.names dir).Pairwise fun a b => compare (dir ++ [a]) (dir ++ [b]) = .lt := by
  have keys : tree.toList.Pairwise fun a b => compare a.1 b.1 = .lt :=
    Std.ExtTreeMap.ordered_keys_toList
  rw [names, List.pairwise_map, children_eq, List.pairwise_filterMap, below, List.pairwise_filterMap]
  refine keys.imp ?_
  rintro ⟨k, e⟩ ⟨k', e'⟩ lt ⟨way, f⟩ cut ⟨way', f'⟩ cut' ⟨n, g⟩ eq ⟨n', g'⟩ eq'
  -- what was cut off the two locations is the directory, and what is left is one name each
  have whole : ∀ {k : Location} {e : Entry} {way f n g},
      (if dir.isPrefixOf k && decide (dir.length < k.length) then some (k.drop dir.length, e)
        else none) = some (way, f) → onlyName? (way, f) = some (n, g) → k = dir ++ [n] := by
    intro k e way f n g cut eq
    unfold onlyName? at eq
    split at cut
    · next under =>
      simp only [Bool.and_eq_true, List.isPrefixOf_iff_prefix] at under
      obtain ⟨⟨rest, rfl⟩, _⟩ := under
      simp only [List.drop_left, Option.some.injEq, Prod.mk.injEq] at cut
      obtain ⟨rfl, rfl⟩ := cut
      split at eq
      · next h => simp_all
      · cases eq
    · cases cut
  have e1 := whole cut eq
  have e2 := whole cut' eq'
  simpa [e1, e2] using lt

/-- No name is twice in a directory. -/
lemma names_nodup (tree : FileTree) (dir : Location) : (tree.names dir).Nodup := by
  refine (names_ordered tree dir).imp ?_
  rintro a b lt rfl
  simp at lt

/-- Of the names in a directory, those that are in it in another tree too come in the same order
there. -/
lemma names_filter_eq {tree tree' : FileTree} {dir : Location}
    (sub : ∀ n ∈ tree.names dir, n ∈ tree'.names dir) :
    (tree'.names dir).filter (· ∈ tree.names dir) = tree.names dir := by
  have ordered := (names_ordered tree' dir).filter fun n => decide (n ∈ tree.names dir)
  refine List.Perm.eq_of_pairwise ?_ ordered (names_ordered tree dir) ?_
  · intro a b _ _ lt gt
    exact absurd gt (Std.OrientedCmp.not_lt_of_lt lt)
  · rw [List.perm_ext_iff_of_nodup ((names_nodup tree' dir).filter _) (names_nodup tree dir)]
    intro n
    simp only [List.mem_filter, decide_eq_true_eq]
    exact ⟨fun h => h.2, fun h => ⟨sub n h, h⟩⟩

/-! ## What a walk lists -/

/-- What is found for one name of a directory: the file itself, or what is below the directory. -/
def findAt {α : Type} (tree : FileTree) (pruned : Text → Bool) (file : Path → Location → Text → α)
    (below : Path → Location → List α) (path : Path) (dir : Location) (name : Text) : List α :=
  match tree.get? (dir ++ [name]) with
  | some (.file _) => [file path dir name]
  | some .directory =>
    if pruned name || isTooLong (path.join name) then [] else below (path.join name) (dir ++ [name])
  | _ => []

/-- The regular files that a walk lists, each with its directory and its name. -/
def located (tree : FileTree) (pruned : Text → Bool) :
    (depth : Nat) → (path : Path) → (dir : Location) → List (Path × Location × Text)
  | 0, _, _ => []
  | depth + 1, path, dir => (tree.names dir).flatMap <|
    tree.findAt pruned (fun path dir name => (path.join name, dir, name))
      (located tree pruned depth) path dir

/-- Going through the entries of a directory is going through its names. -/
lemma flatMap_children {α : Type} (tree : FileTree) (dir : Location) (f : Text × Entry → List α) :
    (tree.children dir).flatMap f =
      (tree.names dir).flatMap fun n => ((tree.get? (dir ++ [n])).map fun e => f (n, e)).getD [] := by
  rw [names, List.flatMap_map]
  apply List.flatMap_congr
  rintro ⟨n, e⟩ mem
  simp [mem_children.1 mem]

/-- The files under a directory are found name by name. -/
lemma filesUnder_succ (tree : FileTree) (pruned : Text → Bool) (depth : Nat) (path : Path)
    (dir : Location) :
    tree.filesUnder pruned (depth + 1) path dir = (tree.names dir).flatMap
      (tree.findAt pruned (fun path _ name => path.join name) (tree.filesUnder pruned depth)
        path dir) := by
  rw [filesUnder, filesBy]
  refine (flatMap_children tree dir _).trans (List.flatMap_congr fun n _ => ?_)
  rw [findAt]
  cases tree.get? (dir ++ [n]) with
  | none => rfl
  | some e => cases e <;> rfl

/-- The files under a directory are the paths of those that are located there. -/
lemma filesUnder_eq_map (tree : FileTree) (pruned : Text → Bool) (depth : Nat) (path : Path)
    (dir : Location) :
    tree.filesUnder pruned depth path dir = (tree.located pruned depth path dir).map (·.1) := by
  induction depth generalizing path dir with
  | zero => rfl
  | succ depth ih =>
    rw [filesUnder_succ, located, List.map_flatMap]
    refine List.flatMap_congr fun n _ => ?_
    unfold findAt
    split
    · rfl
    · split
      · rfl
      · exact ih _ _
    · rfl

/-- The directories that a walk from a root enters: how many levels down, under which path, and
where. -/
inductive Enters (tree : FileTree) (pruned : Text → Bool) (root : Path) (top : Location) :
    Nat → Path → Location → Prop where
  | top :
    Enters tree pruned root top 0 root top
  | down {level path dir name} :
    Enters tree pruned root top level path dir →
    tree.get? (dir ++ [name]) = some .directory →
    pruned name = false →
    isTooLong (path.join name) = false →
    Enters tree pruned root top (level + 1) (path.join name) (dir ++ [name])

namespace Enters

variable {tree : FileTree} {pruned : Text → Bool} {root : Path} {top : Location}

/-- What is entered from a directory that is entered is entered from the root. -/
lemma trans {level level' mid path way dir} (fst : Enters tree pruned root top level mid way)
    (snd : Enters tree pruned mid way level' path dir) :
    Enters tree pruned root top (level + level') path dir := by
  induction snd with
  | top => exact fst
  | down _ get prn long ih => exact .down ih get prn long

/-- What is entered is the root, or is entered from a directory in the root. -/
lemma cases_head {level path dir} (ent : Enters tree pruned root top level path dir) :
    (level = 0 ∧ path = root ∧ dir = top) ∨
    ∃ name level', level = level' + 1 ∧ tree.get? (top ++ [name]) = some .directory ∧
      pruned name = false ∧ isTooLong (root.join name) = false ∧
      Enters tree pruned (root.join name) (top ++ [name]) level' path dir := by
  induction ent with
  | top => exact .inl ⟨rfl, rfl, rfl⟩
  | @down level path dir name ent get prn long ih =>
    right
    rcases ih with ⟨rfl, rfl, rfl⟩ | ⟨name', level', rfl, get', prn', long', ent'⟩
    · exact ⟨name, 0, rfl, get, prn, long, .top⟩
    · exact ⟨name', level' + 1, rfl, get', prn', long', .down ent' get prn long⟩

/-- A directory that is entered is so many levels down. -/
lemma length_dir {level path dir} (ent : Enters tree pruned root top level path dir) :
    dir.length = top.length + level := by
  induction ent with
  | top => rfl
  | down _ _ _ _ ih => simp [ih, Nat.add_assoc]

/-- A directory is entered under one path only. -/
lemma path_unique {level level' path path' dir} (ent : Enters tree pruned root top level path dir)
    (ent' : Enters tree pruned root top level' path' dir) : path = path' := by
  induction ent generalizing level' path' with
  | top =>
    cases ent' with
    | top => rfl
    | down ent' _ _ _ =>
      have := ent'.length_dir
      simp only [List.length_append, List.length_singleton] at this
      omega
  | @down level path dir name ent get prn long ih =>
    generalize e : dir ++ [name] = d at ent'
    cases ent' with
    | top =>
      have := ent.length_dir
      simp only [← e, List.length_append, List.length_singleton] at this
      omega
    | down ent' _ _ _ =>
      obtain ⟨rfl, same⟩ := List.append_inj' e rfl
      rw [ih ent', List.singleton_inj.1 same]

/-- A directory is entered in any tree with the same directories, if nothing more is pruned. -/
lemma mono {tree' : FileTree} {pruned' : Text → Bool} {level path dir}
    (ent : Enters tree pruned root top level path dir)
    (same : ∀ l, tree.get? l = some .directory → tree'.get? l = some .directory)
    (less : ∀ n, pruned n = false → pruned' n = false) :
    Enters tree' pruned' root top level path dir := by
  induction ent with
  | top => exact .top
  | down _ get prn long ih => exact .down ih (same _ get) (less _ prn) long

/-- The path under which a directory is entered opens it. -/
lemma opens {level path dir} (ent : Enters tree pruned root top level path dir)
    (wn : tree.WellNamed) (op : tree.Opens root top) : tree.Opens path dir := by
  induction ent with
  | top => exact op
  | down _ get _ _ ih =>
    obtain ⟨nm, short⟩ := wn _ _ _ get
    exact ih.join nm short get

end Enters

/-- A directory that is entered is below the top. -/
lemma Enters.isPrefix {tree : FileTree} {pruned root top level path dir}
    (ent : Enters tree pruned root top level path dir) : top <+: dir := by
  induction ent with
  | top => exact List.prefix_rfl
  | down _ _ _ _ ih => exact ih.trans (List.prefix_append _ _)

/-- What is located are the files in the directories that are entered. -/
lemma mem_located {tree : FileTree} {pruned depth path dir p d n} :
    (p, d, n) ∈ tree.located pruned depth path dir ↔
      ∃ level q b, Enters tree pruned path dir level q d ∧ level < depth ∧ p = q.join n ∧
        tree.get? (d ++ [n]) = some (.file b) := by
  induction depth generalizing path dir with
  | zero => simp [located]
  | succ depth ih =>
    simp only [located, List.mem_flatMap, mem_names, findAt]
    constructor
    · rintro ⟨name, -, mem⟩
      split at mem
      · next b get =>
        simp only [List.mem_singleton, Prod.mk.injEq] at mem
        obtain ⟨rfl, rfl, rfl⟩ := mem
        exact ⟨0, path, b, .top, Nat.succ_pos _, rfl, get⟩
      · next get =>
        split at mem
        · cases mem
        · next enter =>
          simp only [Bool.or_eq_true, not_or, Bool.not_eq_true] at enter
          obtain ⟨level, q, b, ent, lt, e, get'⟩ := ih.1 mem
          have ent' := (Enters.down .top get enter.1 enter.2).trans ent
          exact ⟨_, q, b, ent', by omega, e, get'⟩
      · cases mem
    -- conversely, the way to the file's directory is empty, or its first step is a name that is found here
    · rintro ⟨level, q, b, ent, lt, rfl, get⟩
      obtain ⟨rfl, rfl, rfl⟩ | ⟨name, level', rfl, get', prn, long, ent'⟩ := ent.cases_head
      · exact ⟨n, ⟨_, get⟩, by simp [get]⟩
      · refine ⟨name, ⟨_, get'⟩, ?_⟩
        simp only [get', prn, long, Bool.or_self, Bool.false_eq_true, if_false]
        exact ih.2 ⟨level', q, b, ent', by omega, rfl, get⟩

/-- What is found for a name is at that name or below it. -/
lemma isPrefix_of_mem_findAt {tree : FileTree} {pruned depth path dir name} {x : Path × Location × Text}
    (mem : x ∈ tree.findAt pruned (fun path dir name => (path.join name, dir, name))
      (tree.located pruned depth) path dir name) : dir ++ [name] <+: x.2.1 ++ [x.2.2] := by
  unfold findAt at mem
  split at mem
  · obtain rfl := List.mem_singleton.1 mem
    exact List.prefix_rfl
  · split at mem
    · cases mem
    · obtain ⟨_, _, _, ent, _⟩ := mem_located.1 mem
      exact ent.isPrefix.trans (List.prefix_append _ _)
  · cases mem

/-- No file is located twice. -/
lemma located_nodup (tree : FileTree) (pruned : Text → Bool) (depth : Nat) (path : Path)
    (dir : Location) :
    ((tree.located pruned depth path dir).map fun x => x.2.1 ++ [x.2.2]).Nodup := by
  induction depth generalizing path dir with
  | zero => exact List.nodup_nil
  | succ depth ih =>
    rw [located, List.map_flatMap, List.nodup_flatMap]
    constructor
    · intro n _
      unfold findAt
      split
      · exact List.nodup_singleton _
      · split
        · exact List.nodup_nil
        · exact ih _ _
      · exact List.nodup_nil
    · refine (names_nodup tree dir).imp ?_
      intro a b ne l mem mem'
      obtain ⟨x, found, e⟩ := List.mem_map.1 mem
      obtain ⟨y, found', e'⟩ := List.mem_map.1 mem'
      have pre : dir ++ [a] <+: l := e ▸ isPrefix_of_mem_findAt found
      have pre' : dir ++ [b] <+: l := e' ▸ isPrefix_of_mem_findAt found'
      have same := (List.prefix_of_prefix_length_le pre pre' (by simp)).eq_of_length (by simp)
      exact ne (by simpa using same)

/-! ## The height of a tree -/

/-- A tree is at most so high when all its locations are at most so long. -/
lemma height_le_iff {tree : FileTree} {h : Nat} :
    tree.height ≤ h ↔ ∀ l e, tree.get? l = some e → l.length ≤ h := by
  have fold : ∀ (xs : List (Location × Entry)) (m : Nat),
      xs.foldl (fun h x => max h x.1.length) m ≤ h ↔ m ≤ h ∧ ∀ x ∈ xs, x.1.length ≤ h := by
    intro xs
    induction xs with
    | nil => simp
    | cons x xs ih =>
      intro m
      rw [List.foldl_cons, ih, Nat.max_le, List.forall_mem_cons, and_assoc]
  have mem : ∀ l e, (l, e) ∈ tree.toList ↔ tree.entries[l]? = some e := fun l e =>
    Std.ExtTreeMap.mem_toList_iff_getElem?_eq_some
  unfold height
  refine (fold tree.toList 0).trans ⟨fun ⟨_, le⟩ l e get => ?_, fun le => ⟨Nat.zero_le _, ?_⟩⟩
  · rcases l with _ | ⟨n, l⟩
    · exact Nat.zero_le _
    · exact le (n :: l, e) ((mem _ _).2 (by simpa [get?] using get))
  · rintro ⟨l, e⟩ m
    rcases l with _ | ⟨n, l⟩
    · exact Nat.zero_le _
    · exact le (n :: l) e (by simpa [get?] using (mem _ _).1 m)

/-! ## Walks -/

/-- When a walk over a listing succeeds, the root is a file, a directory, a link to a directory or a link to
something else. -/
lemma walkBy_eq_ok {tree : FileTree} {list : Location → List (Text × Entry)} {pruned recursive root files} :
    tree.walkBy list pruned recursive root = .ok files ↔
      (∃ l b, tree.stat .inspect root = .ok (l, .file b) ∧ files = [root]) ∨
      (∃ l, tree.stat .inspect root = .ok (l, .directory) ∧
        files = filesBy list pruned (if recursive then tree.height + 1 else 1) root l) ∨
      (∃ l t l', tree.stat .inspect root = .ok (l, .link t) ∧
        tree.stat .use root = .ok (l', .directory) ∧
        files = filesBy list pruned (if recursive then tree.height + 1 else 1) root l') ∨
      (∃ l t l' e, tree.stat .inspect root = .ok (l, .link t) ∧ tree.stat .use root = .ok (l', e) ∧
        e ≠ .directory ∧ files = []) := by
  unfold walkBy
  cases tree.stat .inspect root with
  | error e => simp
  | ok found =>
    obtain ⟨l, e⟩ := found
    cases e with
    | file b => simp [eq_comm]
    | directory => simp [eq_comm]
    | link t =>
      cases tree.stat .use root with
      | error e => simp
      | ok found =>
        obtain ⟨l', e'⟩ := found
        cases e' <;> simp [eq_comm]

/-- The same for the listing of the tree itself. -/
lemma walk_eq_ok {tree : FileTree} {pruned recursive root files} :
    tree.walk pruned recursive root = .ok files ↔
      (∃ l b, tree.stat .inspect root = .ok (l, .file b) ∧ files = [root]) ∨
      (∃ l, tree.stat .inspect root = .ok (l, .directory) ∧
        files = tree.filesUnder pruned (if recursive then tree.height + 1 else 1) root l) ∨
      (∃ l t l', tree.stat .inspect root = .ok (l, .link t) ∧
        tree.stat .use root = .ok (l', .directory) ∧
        files = tree.filesUnder pruned (if recursive then tree.height + 1 else 1) root l') ∨
      (∃ l t l' e, tree.stat .inspect root = .ok (l, .link t) ∧ tree.stat .use root = .ok (l', e) ∧
        e ≠ .directory ∧ files = []) :=
  walkBy_eq_ok

/-- A walk from a path that leads to a directory lists the files under it. -/
lemma walk_of_directory {tree : FileTree} {root top} (use : tree.stat .use root = .ok (top, .directory))
    (pruned : Text → Bool) (recursive : Bool) :
    tree.walk pruned recursive root =
      .ok (tree.filesUnder pruned (if recursive then tree.height + 1 else 1) root top) := by
  obtain ⟨spelling, follow⟩ := stat_eq_ok.1 use
  obtain ⟨left, rch⟩ := reaches_of_follow follow
  obtain ⟨l, e, inspect⟩ := rch.follow_inspect
  have stat := stat_eq_ok.2 ⟨spelling, inspect⟩
  cases e with
  | file b =>
    -- a path that names a file leads to it for every purpose
    obtain ⟨dir, name, rfl, src⟩ := sourceAt_of_stat stat
    rw [FileTree.stat, src.resolve_eq, spelling] at use
    cases use
  | directory =>
    rw [(opens_of_stat stat).stat_use spelling] at use
    obtain ⟨rfl, _⟩ := Prod.mk.inj (Except.ok.inj use)
    exact walk_eq_ok.2 (.inr (.inl ⟨l, stat, rfl⟩))
  | link t => exact walk_eq_ok.2 (.inr (.inr (.inl ⟨l, t, top, stat, use, rfl⟩)))

/-- The files that are located have paths that spell them. -/
lemma sourceAt_of_mem_located {tree : FileTree} {pruned depth root top p d n} (wn : tree.WellNamed)
    (op : tree.Opens root top) (mem : (p, d, n) ∈ tree.located pruned depth root top) :
    ∃ b, tree.SourceAt p d n b := by
  obtain ⟨level, q, b, ent, _, rfl, get⟩ := mem_located.1 mem
  obtain ⟨nm, short⟩ := wn _ _ _ get
  exact ⟨b, ⟨q, rfl, ent.opens wn op, nm⟩, short, get⟩

/-- A walk lists no path twice, every path that it lists spells a regular file, and no two of them
spell the same. -/
lemma walk_files {tree : FileTree} {pruned recursive root files} (wn : tree.WellNamed)
    (walk : tree.walk pruned recursive root = .ok files) :
    files.Nodup ∧ (∀ p ∈ files, ∃ dir name b, tree.SourceAt p dir name b) ∧
      ∀ p ∈ files, ∀ q ∈ files, ∀ dir name b, tree.SourceAt p dir name b →
        tree.SourceAt q dir name b → p = q := by
  have under : ∀ depth l, tree.Opens root l →
      files = tree.filesUnder pruned depth root l →
      files.Nodup ∧ (∀ p ∈ files, ∃ dir name b, tree.SourceAt p dir name b) ∧
        ∀ p ∈ files, ∀ q ∈ files, ∀ dir name b, tree.SourceAt p dir name b →
          tree.SourceAt q dir name b → p = q := by
    intro depth l op eq
    have place : ∀ p ∈ files, ∃ d n b, (p, d, n) ∈ tree.located pruned depth root l ∧
        tree.SourceAt p d n b := by
      intro p listed
      rw [eq, filesUnder_eq_map] at listed
      obtain ⟨⟨p, d, n⟩, mem, rfl⟩ := List.mem_map.1 listed
      obtain ⟨b, src⟩ := sourceAt_of_mem_located wn op mem
      exact ⟨d, n, b, mem, src⟩
    refine ⟨?_, fun p listed => ?_, fun p listed q listed' dir name b src src' => ?_⟩
    · rw [eq, filesUnder_eq_map]
      refine List.Nodup.map_on ?_ (List.Nodup.of_map _ (located_nodup tree pruned depth root l))
      rintro ⟨p, d, n⟩ mem ⟨q, d', n'⟩ mem' rfl
      obtain ⟨b, src⟩ := sourceAt_of_mem_located wn op mem
      obtain ⟨b', src'⟩ := sourceAt_of_mem_located wn op mem'
      obtain ⟨rfl, rfl, _⟩ := src.unique src'
      rfl
    · obtain ⟨d, n, b, _, src⟩ := place p listed
      exact ⟨d, n, b, src⟩
    · obtain ⟨d, n, _, mem, at_p⟩ := place p listed
      obtain ⟨d', n', _, mem', at_q⟩ := place q listed'
      obtain ⟨rfl, rfl, _⟩ := at_p.unique src
      obtain ⟨rfl, rfl, _⟩ := at_q.unique src'
      have same := List.inj_on_of_nodup_map (located_nodup tree pruned depth root l) mem mem' rfl
      exact congrArg Prod.fst same
  obtain ⟨l, b, stat, rfl⟩ | ⟨l, stat, eq⟩ | ⟨l, t, l', _, use, eq⟩ | ⟨_, _, _, _, _, _, _, rfl⟩ :=
    walk_eq_ok.1 walk
  · obtain ⟨dir, name, _, src⟩ := sourceAt_of_stat stat
    refine ⟨List.nodup_singleton _, fun p mem => ?_, fun p mem q mem' _ _ _ _ _ => ?_⟩
    · obtain rfl := List.mem_singleton.1 mem
      exact ⟨dir, name, b, src⟩
    · rw [List.mem_singleton.1 mem, List.mem_singleton.1 mem']
  · exact under _ _ (opens_of_stat stat) eq
  · exact under _ _ (opens_of_stat use) eq
  · exact ⟨List.nodup_nil, nofun, nofun⟩

end Mender.FileTree
