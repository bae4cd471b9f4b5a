import Mender.Proofs.FileTree.Listing

/-!
# Trees with other files

A tree is refiled when its directories and links stay as they are, and its files may get other bytes or be
joined by new ones (`Refiled`). Every path that led to an entry still leads to one of its kind
(`Refiled.stat`), and a file is written at the same location under the same path (`Refiled.target?_eq`). So
where all the files of a batch go is known before the first one is written.
-/

namespace Mender.FileTree

/-- Two entries are of one kind when they are equal or both are files. -/
def SameKind (e e' : Entry) : Prop := e' = e ∨ ∃ b b', e = .file b ∧ e' = .file b'

/-- The later tree has the same directories and links, keeps every file as a file, and is larger by files
only. -/
structure Refiled (tree tree' : FileTree) : Prop extends SameWays tree tree' where
  file : ∀ l b, tree.get? l = some (.file b) → ∃ b', tree'.get? l = some (.file b')
  fresh : ∀ l e, tree.get? l = none → tree'.get? l = some e → ∃ b, e = .file b

/-- A path ends in the name of an entry that only the later tree has. -/
def NewAt (tree tree' : FileTree) (p : Path) : Prop :=
  ∃ (d : Path) (dir : Location) (name : Text), p = d.join name ∧ tree.get? (dir ++ [name]) = none ∧
    tree'.get? (dir ++ [name]) ≠ none

/-- The location at which a file is written, at the place where a path leads. -/
def Place.target? : Place → Option Location
  | .present l (.file _) => some l
  | .present _ _ => none
  | .vacant l => some l

/-- The location at which a file is written under a path, if it can be. -/
def target? (tree : FileTree) (p : Path) : Option Location :=
  (tree.resolve .write p).toOption.bind Place.target?

/-- Putting an entry where it is changes nothing. -/
lemma put_self {tree : FileTree} {l e} (ne : l ≠ []) (get : tree.get? l = some e) : tree.put l e = tree := by
  have entries : tree.entries.insert l e = tree.entries := by
    apply Std.ExtTreeMap.ext_getElem?
    intro k
    rw [Std.ExtTreeMap.getElem?_insert]
    split
    · next same =>
      rw [get?, if_neg ne] at get
      rw [← Std.LawfulEqCmp.eq_of_compare same, get]
    · rfl
  rw [put, entries]

/-- Of two entries that are put at one location, the second stays. -/
lemma put_put (tree : FileTree) (l : Location) (e e' : Entry) : (tree.put l e).put l e' = tree.put l e' := by
  have entries : (tree.entries.insert l e).insert l e' = tree.entries.insert l e' := by
    apply Std.ExtTreeMap.ext_getElem?
    intro k
    simp only [Std.ExtTreeMap.getElem?_insert]
    split
    · rfl
    · rfl
  simp only [put, entries]

/-! ## Targets -/

section

variable {tree : FileTree} {links : Nat} {parts : List Text} {dir l : Location}

/-- A file that parts lead to is in the tree. -/
lemma get?_of_follow_file {purpose b} (h : tree.follow purpose links parts dir = .ok (.present l (.file b))) :
    tree.get? l = some (.file b) := by
  fun_induction FileTree.follow tree purpose links parts dir with
  | case2 _ _ _ _ _ ih => exact ih h
  | case3 _ _ _ _ ih => exact ih h
  | case8 _ _ _ _ _ _ _ _ _ _ ih => exact ih h
  | case9 _ _ _ _ _ _ _ _ get _ =>
    obtain ⟨rfl, same⟩ := Place.present.inj (Except.ok.inj h)
    rw [get, same]
  | case13 _ _ _ _ _ _ _ _ _ _ _ _ ih => exact ih h
  | _ => simp at h

/-- What is followed to a file for writing it is followed to the same file for its use. -/
lemma follow_use_of_write {b} (h : tree.follow .write links parts dir = .ok (.present l (.file b))) :
    tree.follow .use links parts dir = .ok (.present l (.file b)) := by
  have use : ∀ parts : List Text, ¬ (Purpose.use.mayMake ∧ parts = [[]]) := by simp [Purpose.mayMake]
  fun_induction FileTree.follow tree .write links parts dir with
  | case2 _ _ _ _ idle ih =>
    rw [FileTree.follow, if_pos idle]
    exact ih h
  | case3 _ _ _ idle ih =>
    rw [FileTree.follow, if_neg idle, if_pos rfl]
    exact ih h
  | case8 _ _ _ _ idle dots _ short _ get ih =>
    rw [follow_cons (.of_follow idle dots short) (use _), get]
    exact ih h
  | case9 _ _ _ idle dots short _ _ get _ =>
    rw [follow_cons (.of_follow idle dots short) (use _), get]
    exact h
  | case13 _ _ _ idle dots _ short _ _ get last _ ih =>
    rw [follow_cons (.of_follow idle dots short) (use _), get]
    exact (if_neg last).trans (ih h)
  | _ => simp at h

/-- The steps of a path have no separator. -/
lemma no_sep_of_mem_steps {t part : Text} (mem : part ∈ steps t) : '/' ∉ part := by
  rcases List.mem_append.1 mem with mem | mem
  · exact Path.no_sep_of_mem_split (List.mem_filter.1 mem).1
  · split at mem
    · rw [List.mem_singleton.1 mem]
      exact List.not_mem_nil
    · cases mem

/-- A free name that parts lead to can be spelled, if all parts come from a path. -/
lemma isName_of_vacant {purpose} (sep : ∀ p ∈ parts, '/' ∉ p)
    (h : tree.follow purpose links parts dir = .ok (.vacant l)) :
    ∃ d n, l = d ++ [n] ∧ Path.IsName n ∧ Text.byteLength n ≤ maxNameBytes := by
  fun_induction FileTree.follow tree purpose links parts dir with
  | case2 _ _ _ _ _ ih => exact ih (fun p mem => sep p (List.mem_cons_of_mem _ mem)) h
  | case3 _ _ _ _ ih => exact ih (fun p mem => sep p (List.mem_cons_of_mem _ mem)) h
  | case6 _ part dir idle dots short _ _ _ =>
    obtain rfl := Place.vacant.inj (Except.ok.inj h)
    refine ⟨dir, part, rfl, ⟨?_, ?_, dots, sep part List.mem_cons_self⟩, Nat.not_lt.1 short⟩
    · exact fun nil => idle (.inl nil)
    · exact fun dot => idle (.inr dot)
  | case8 _ _ _ _ _ _ _ _ _ _ ih => exact ih (fun p mem => sep p (List.mem_cons_of_mem _ mem)) h
  | case13 _ _ _ _ _ _ _ _ target _ _ _ ih =>
    refine ih (fun p mem => ?_) h
    rcases List.mem_append.1 mem with mem | mem
    · exact no_sep_of_mem_steps mem
    · exact sep p (List.mem_cons_of_mem _ mem)
  | _ => simp at h

end

section

variable {tree : FileTree} {p : Path} {l : Location}

/-- A path leads to where a file is written when it can be spelled and its steps are followed there. -/
lemma target?_eq_some_iff : tree.target? p = some l ↔ ∃ place, checkSpelling p = .ok () ∧
    tree.follow .write maxLinks (steps p.text) (origin p.text tree.workingDirectory) = .ok place ∧
    place.target? = some l := by
  unfold target?
  constructor
  · intro target
    cases led : tree.resolve .write p with
    | error e =>
      rw [led] at target
      cases target
    | ok place =>
      rw [led] at target
      obtain ⟨spelling, follow⟩ := resolve_eq_ok.1 led
      exact ⟨place, spelling, follow, target⟩
  · rintro ⟨place, spelling, follow, target⟩
    rw [resolve_eq_ok.2 ⟨spelling, follow⟩]
    exact target

/-- A file is written at the target of its path, and nowhere if it has none. -/
lemma write_eq (tree : FileTree) (p : Path) (bytes : ByteArray) :
    (∃ l, tree.target? p = some l ∧ tree.write p bytes = .ok (tree.put l (.file bytes))) ∨
      (tree.target? p = none ∧ ∃ e, tree.write p bytes = .error e) := by
  unfold target? write
  cases tree.resolve .write p with
  | error e => exact .inr ⟨rfl, e, rfl⟩
  | ok place =>
    cases place with
    | vacant l => exact .inl ⟨l, rfl, rfl⟩
    | present l e =>
      cases e with
      | file b => exact .inl ⟨l, rfl, rfl⟩
      | directory => exact .inr ⟨rfl, _, rfl⟩
      | link t => exact .inr ⟨rfl, _, rfl⟩

/-- A target is a file or a free name that can be spelled. -/
lemma of_target? (target : tree.target? p = some l) :
    (∃ b, tree.get? l = some (.file b)) ∨
      (tree.get? l = none ∧ ∃ d n, l = d ++ [n] ∧ Path.IsName n ∧ Text.byteLength n ≤ maxNameBytes) := by
  obtain ⟨place, _, follow, eq⟩ := target?_eq_some_iff.1 target
  cases place with
  | vacant l' =>
    obtain rfl := Option.some.inj eq
    exact .inr ⟨(get?_of_vacant follow).1, isName_of_vacant (fun _ => no_sep_of_mem_steps) follow⟩
  | present l' e =>
    cases e with
    | file b =>
      obtain rfl := Option.some.inj eq
      exact .inl ⟨b, get?_of_follow_file follow⟩
    | directory => cases eq
    | link t => cases eq

/-- No file is written at the top of the tree. -/
lemma ne_nil_of_target? (target : tree.target? p = some l) : l ≠ [] := by
  rintro rfl
  obtain ⟨b, get⟩ | ⟨free, _⟩ := of_target? target
  · cases get
  · cases free

/-- A path leads to the file at its target. -/
lemma stat_of_target? {b : ByteArray} (target : tree.target? p = some l)
    (get : tree.get? l = some (.file b)) : tree.stat .use p = .ok (l, .file b) := by
  obtain ⟨place, spelling, follow, eq⟩ := target?_eq_some_iff.1 target
  cases place with
  | vacant l' =>
    obtain rfl := Option.some.inj eq
    rw [(get?_of_vacant follow).1] at get
    cases get
  | present l' e =>
    cases e with
    | file b' =>
      obtain rfl := Option.some.inj eq
      obtain rfl := Entry.file.inj (Option.some.inj ((get?_of_follow_file follow).symm.trans get))
      exact stat_eq_ok.2 ⟨spelling, follow_use_of_write follow⟩
    | directory => cases eq
    | link t => cases eq

/-- A file at the target of a path is read under the path. -/
lemma read_of_target? {b : ByteArray} (target : tree.target? p = some l)
    (get : tree.get? l = some (.file b)) : tree.read p = .ok b := by
  rw [read, stat_of_target? target get]
  rfl

/-- The target of a path to a file is that file. -/
lemma target?_of_stat {b : ByteArray} (stat : tree.stat .use p = .ok (l, .file b)) :
    tree.target? p = some l ∧ tree.get? l = some (.file b) := by
  obtain ⟨spelling, follow⟩ := stat_eq_ok.1 stat
  have write := follow_write (fun _ _ get => get) follow
  exact ⟨target?_eq_some_iff.2 ⟨_, spelling, write, rfl⟩, get?_of_follow_file follow⟩

end

/-- Under a name that is not that of a link, a file is written at that name. -/
lemma target?_join {tree : FileTree} {d : Path} {dir l : Location} {name : Text} (op : tree.Opens d dir)
    (ne : name ≠ []) (sep : '/' ∉ name) (unlinked : ∀ t, tree.get? (dir ++ [name]) ≠ some (.link t))
    (target : tree.target? (d.join name) = some l) : l = dir ++ [name] := by
  obtain ⟨place, _, follow, eq⟩ := target?_eq_some_iff.1 target
  obtain ⟨left, rch⟩ := op
  have last : [name] ≠ [[]] := by simp [ne]
  rw [steps_join ne sep, origin_join ne sep, ← origin_text,
    (reaches_filter.2 rch).follow_eq (List.cons_ne_nil _ _) last] at follow
  -- a last part that is no name leads to a directory or to an error
  by_cases idle : name = [] ∨ name = ['.']
  · rw [FileTree.follow, if_pos idle, FileTree.follow] at follow
    obtain rfl := Except.ok.inj follow
    cases eq
  by_cases dots : name = ['.', '.']
  · rw [FileTree.follow, if_neg idle, if_pos dots, FileTree.follow] at follow
    obtain rfl := Except.ok.inj follow
    cases eq
  by_cases long : maxNameBytes < Text.byteLength name
  · rw [FileTree.follow, if_neg idle, if_neg dots, if_neg (by simp), if_pos long] at follow
    cases follow
  rw [follow_cons (.of_follow idle dots long) (by simp)] at follow
  cases get : tree.get? (dir ++ [name]) with
  | none =>
    rw [get] at follow
    obtain rfl := Except.ok.inj follow
    exact (Option.some.inj eq).symm
  | some e =>
    rw [get] at follow
    cases e with
    | file b =>
      obtain rfl := Except.ok.inj follow
      exact (Option.some.inj eq).symm
    | directory =>
      dsimp only at follow
      rw [FileTree.follow] at follow
      obtain rfl := Except.ok.inj follow
      cases eq
    | link t => exact absurd get (unlinked t)

/-! ## Refiled trees -/

namespace Refiled

variable {tree tree' tree'' : FileTree}

/-- A tree is refiled by leaving it as it is. -/
lemma refl (tree : FileTree) : Refiled tree tree := by
  refine ⟨⟨rfl, fun l e get _ => get⟩, fun l b get => ⟨b, get⟩, fun l e get get' => ?_⟩
  rw [get] at get'
  cases get'

/-- An entry stays an entry of its kind. -/
lemma entry (re : Refiled tree tree') {l e} (get : tree.get? l = some e) :
    ∃ e', tree'.get? l = some e' ∧ SameKind e e' := by
  cases e with
  | file b =>
    obtain ⟨b', get'⟩ := re.file l b get
    exact ⟨_, get', .inr ⟨b, b', rfl, rfl⟩⟩
  | directory => exact ⟨_, re.keeps l _ get (by simp), .inl rfl⟩
  | link t => exact ⟨_, re.keeps l _ get (by simp), .inl rfl⟩

/-- A free name stays free or becomes a file. -/
lemma free (re : Refiled tree tree') {l} (get : tree.get? l = none) :
    tree'.get? l = none ∨ ∃ b, tree'.get? l = some (.file b) := by
  cases get' : tree'.get? l with
  | none => exact .inl rfl
  | some e =>
    obtain ⟨b, rfl⟩ := re.fresh l e get get'
    exact .inr ⟨b, rfl⟩

/-- A directory of the later tree was there before. -/
lemma directory (re : Refiled tree tree') {l} (get : tree'.get? l = some .directory) :
    tree.get? l = some .directory := by
  cases first : tree.get? l with
  | none =>
    obtain ⟨b, file⟩ := re.fresh l _ first get
    cases file
  | some e =>
    obtain ⟨e', get', rfl | ⟨_, _, _, rfl⟩⟩ := re.entry first
    · rw [← get', get]
    · rw [get] at get'
      cases get'

/-- A path that leads to an entry leads to one of its kind in the later tree. -/
lemma follow (re : Refiled tree tree') {purpose links parts dir l e}
    (h : tree.follow purpose links parts dir = .ok (.present l e)) :
    ∃ e', tree'.follow purpose links parts dir = .ok (.present l e') ∧ SameKind e e' := by
  fun_induction FileTree.follow tree purpose links parts dir with
  | case1 =>
    cases h
    exact ⟨_, by rw [FileTree.follow], .inl rfl⟩
  | case2 _ _ _ _ idle ih =>
    obtain ⟨e', h', kind⟩ := ih h
    exact ⟨e', by rw [FileTree.follow, if_pos idle, h'], kind⟩
  | case3 _ _ _ idle ih =>
    obtain ⟨e', h', kind⟩ := ih h
    exact ⟨e', by rw [FileTree.follow, if_neg idle, if_pos rfl, h'], kind⟩
  | case8 _ _ _ _ idle dots make short _ get ih =>
    obtain ⟨e', h', kind⟩ := ih h
    refine ⟨e', ?_, kind⟩
    rw [follow_cons (.of_follow idle dots short) make, re.keeps _ _ get (by simp)]
    exact h'
  -- a file is still a file; all other entries on the way are the same
  | case9 _ _ _ idle dots short _ b get make =>
    obtain ⟨b', get'⟩ := re.file _ _ get
    simp only [Except.ok.injEq, Place.present.injEq] at h
    obtain ⟨rfl, rfl⟩ := h
    refine ⟨_, ?_, .inr ⟨b, b', rfl, rfl⟩⟩
    rw [follow_cons (.of_follow idle dots short) make, get']
    exact if_pos rfl
  | case11 _ _ _ _ idle dots make short _ _ get last =>
    simp only [Except.ok.injEq, Place.present.injEq] at h
    obtain ⟨rfl, rfl⟩ := h
    refine ⟨_, ?_, .inl rfl⟩
    rw [follow_cons (.of_follow idle dots short) make, re.keeps _ _ get (by simp)]
    exact if_pos last
  | case13 _ _ _ idle dots make short _ _ get last _ ih =>
    obtain ⟨e', h', kind⟩ := ih h
    refine ⟨e', ?_, kind⟩
    rw [follow_cons (.of_follow idle dots short) make, re.keeps _ _ get (by simp)]
    exact (if_neg last).trans h'
  | _ => simp at h

/-- A path leads to the same location, and to an entry of the same kind. -/
lemma stat (re : Refiled tree tree') {purpose p l e} (h : tree.stat purpose p = .ok (l, e)) :
    ∃ e', tree'.stat purpose p = .ok (l, e') ∧ SameKind e e' := by
  obtain ⟨spelling, follow⟩ := stat_eq_ok.1 h
  obtain ⟨e', follow', kind⟩ := re.follow follow
  exact ⟨e', stat_eq_ok.2 ⟨spelling, re.here ▸ follow'⟩, kind⟩

/-- Parts lead to the same target in both trees: a free name may have become a file, and no other place
changes its kind. -/
lemma target?_follow (re : Refiled tree tree') (links : Nat) (parts : List Text) (dir : Location) :
    (tree'.follow .write links parts dir).toOption.bind Place.target? =
      (tree.follow .write links parts dir).toOption.bind Place.target? := by
  fun_induction FileTree.follow tree .write links parts dir with
  | case1 => rw [FileTree.follow]
  | case2 _ _ _ _ idle ih => rw [FileTree.follow, if_pos idle, ih]
  | case3 _ _ _ idle ih => rw [FileTree.follow, if_neg idle, if_pos rfl, ih]
  | case4 _ _ _ _ idle dots make => rw [FileTree.follow, if_neg idle, if_neg dots, if_pos make]
  | case5 _ _ _ _ idle dots make long =>
    rw [FileTree.follow, if_neg idle, if_neg dots, if_neg make, if_pos long]
  -- a free name at the end: a file may stand there now, and is written at the same location
  | case6 _ _ _ idle dots short _ get make =>
    rw [follow_cons (.of_follow idle dots short) make]
    obtain get' | ⟨b, get'⟩ := re.free get
    · rw [get']
      rfl
    · rw [get']
      rfl
  | case7 _ _ _ _ idle dots make short _ get last =>
    rw [follow_cons (.of_follow idle dots short) make]
    obtain get' | ⟨b, get'⟩ := re.free get
    · rw [get']
      dsimp only
      rw [if_neg last]
    · rw [get']
      dsimp only
      rw [if_neg last]
      rfl
  | case8 _ _ _ _ idle dots make short _ get ih =>
    rw [follow_cons (.of_follow idle dots short) make, re.keeps _ _ get (by simp)]
    exact ih
  -- a file at the end may hold other bytes now
  | case9 _ _ _ idle dots short _ b get make =>
    obtain ⟨b', get'⟩ := re.file _ _ get
    rw [follow_cons (.of_follow idle dots short) make, get']
    rfl
  | case10 _ _ _ _ idle dots make short _ b get last =>
    obtain ⟨b', get'⟩ := re.file _ _ get
    rw [follow_cons (.of_follow idle dots short) make, get']
    dsimp only
    rw [if_neg last]
  -- writing follows the last link, so it never stops at one
  | case11 _ _ _ _ _ _ _ _ _ _ _ last => exact absurd last.2 (by decide)
  | case12 _ _ _ idle dots make short _ _ get last =>
    rw [follow_cons (.of_follow idle dots short) make, re.keeps _ _ get (by simp)]
    dsimp only
    rw [if_neg last]
  | case13 _ _ _ idle dots make short _ _ get last _ ih =>
    rw [follow_cons (.of_follow idle dots short) make, re.keeps _ _ get (by simp)]
    dsimp only
    rw [if_neg last]
    exact ih

/-- A file is written at the same location in both trees. -/
lemma target?_eq (re : Refiled tree tree') (p : Path) : tree'.target? p = tree.target? p := by
  unfold target? resolve
  rw [re.here]
  cases checkSpelling p with
  | error e => rfl
  | ok u => exact re.target?_follow _ _ _

/-- A tree stays refiled when a file is written at a target. -/
lemma put (re : Refiled tree tree') {p l} (target : tree.target? p = some l) (b : ByteArray) :
    Refiled tree (tree'.put l (.file b)) := by
  have ne := ne_nil_of_target? target
  have get := get?_put tree' (.file b) (h := ne)
  refine ⟨⟨re.here, fun l' e first way => ?_⟩, fun l' b' first => ?_, fun l' e first now => ?_⟩
  · rw [get, if_neg, re.keeps l' e first way]
    rintro rfl
    obtain ⟨b', file⟩ | ⟨free, _⟩ := of_target? target
    · exact way b' (Option.some.inj (first.symm.trans file))
    · rw [free] at first
      cases first
  · rw [get]
    split
    · exact ⟨b, rfl⟩
    · exact re.file l' b' first
  · rw [get] at now
    split at now
    · exact ⟨b, (Option.some.inj now).symm⟩
    · exact re.fresh l' e first now

/-- A path that spells a regular file of a tree spells the file that is there later. -/
lemma sourceAt (re : Refiled tree tree') {p dir name b b'} (src : tree.SourceAt p dir name b)
    (get : tree'.get? (dir ++ [name]) = some (.file b')) : tree'.SourceAt p dir name b' :=
  ⟨src.spells.of_sameWays re.toSameWays, src.short, get⟩

/-- What a walk over the later tree lists below a directory was listed before, or is the path of a new
file. -/
lemma filesUnder (re : Refiled tree tree') {pruned : Text → Bool} {recursive : Bool} {root top} {q : Path}
    (mem : q ∈ tree'.filesUnder pruned (if recursive then tree'.height + 1 else 1) root top) :
    q ∈ tree.filesUnder pruned (if recursive then tree.height + 1 else 1) root top ∨ NewAt tree tree' q := by
  rw [filesUnder_eq_map] at mem ⊢
  obtain ⟨⟨q, dir, name⟩, located, rfl⟩ := List.mem_map.1 mem
  obtain ⟨level, d, b, ent, lt, rfl, get⟩ := mem_located.1 located
  cases first : tree.get? (dir ++ [name]) with
  | none =>
    refine .inr ⟨d, dir, name, rfl, first, ?_⟩
    rw [get]
    exact Option.some_ne_none _
  | some e =>
    left
    have file : ∃ b, e = .file b := by
      obtain ⟨e', get', rfl | ⟨b, _, rfl, _⟩⟩ := re.entry first
      · exact ⟨b, Option.some.inj (get'.symm.trans get)⟩
      · exact ⟨b, rfl⟩
    obtain ⟨b, rfl⟩ := file
    refine List.mem_map.2 ⟨(d.join name, dir, name), mem_located.2 ?_, rfl⟩
    refine ⟨level, d, b, ent.mono (fun _ => re.directory) fun _ keep => keep, ?_, rfl, first⟩
    -- the file was there, so it is no further down than the tree was high
    have high := height_le_iff.1 (Nat.le_refl tree.height) _ _ first
    rw [List.length_append, List.length_singleton, ent.length_dir] at high
    cases recursive with
    | true =>
      rw [if_pos rfl]
      omega
    | false => exact lt

/-- A root that could be walked still can be, and all that is listed now was listed before or is new. -/
lemma walk (re : Refiled tree tree') {pruned recursive root files}
    (walk : tree.walk pruned recursive root = .ok files) :
    ∃ files', tree'.walk pruned recursive root = .ok files' ∧
      ∀ q ∈ files', q ∈ files ∨ NewAt tree tree' q := by
  have under : ∀ top, tree.stat .use root = .ok (top, .directory) →
      files = tree.filesUnder pruned (if recursive then tree.height + 1 else 1) root top →
      ∃ files', tree'.walk pruned recursive root = .ok files' ∧
        ∀ q ∈ files', q ∈ files ∨ NewAt tree tree' q := by
    intro top use eq
    have use' := ((opens_of_stat use).of_sameWays re.toSameWays).stat_use (stat_eq_ok.1 use).1
    refine ⟨_, walk_of_directory use' pruned recursive, fun q mem => ?_⟩
    rw [eq]
    exact re.filesUnder mem
  obtain ⟨l, b, stat, rfl⟩ | ⟨l, stat, eq⟩ | ⟨l, t, l', stat, use, eq⟩ |
    ⟨l, t, l', e, stat, use, ne, rfl⟩ := walk_eq_ok.1 walk
  · obtain ⟨e', stat', rfl | ⟨_, b', _, rfl⟩⟩ := re.stat stat
    · exact ⟨_, walk_eq_ok.2 (.inl ⟨l, b, stat', rfl⟩), fun q mem => .inl mem⟩
    · exact ⟨_, walk_eq_ok.2 (.inl ⟨l, b', stat', rfl⟩), fun q mem => .inl mem⟩
  · exact under l ((opens_of_stat stat).stat_use (stat_eq_ok.1 stat).1) eq
  · exact under l' use eq
  · obtain ⟨e', stat', rfl | ⟨_, _, h, _⟩⟩ := re.stat stat
    · obtain ⟨e', use', kind⟩ := re.stat use
      have ne' : e' ≠ .directory := by
        rcases kind with rfl | ⟨_, _, _, rfl⟩
        · exact ne
        · rintro ⟨⟩
      exact ⟨_, walk_eq_ok.2 (.inr (.inr (.inr ⟨l, t, l', e', stat', use', ne', rfl⟩))), by simp⟩
    · cases h

end Refiled

/-- A tree stays well named when a file is written. -/
lemma WellNamed.put_target? {tree : FileTree} {p l} (wn : tree.WellNamed)
    (target : tree.target? p = some l) (b : ByteArray) : (tree.put l (.file b)).WellNamed := by
  obtain ⟨b', get⟩ | ⟨_, d, n, rfl, nm, short⟩ := of_target? target
  · intro dir name e get'
    rw [get?_put tree _ _ (ne_nil_of_target? target)] at get'
    split at get'
    · next same => exact wn dir name _ (same ▸ get)
    · exact wn dir name e get'
  · exact wn.put d (.file b) nm short

end Mender.FileTree
