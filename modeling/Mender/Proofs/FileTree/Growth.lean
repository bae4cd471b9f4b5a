import Mender.Proofs.FileTree.Refiling

/-!
# Trees that grow by backups

A tree grows by backups when directories and links stay as they are, files stay files, and whatever is
new is a file beside a file, under its name with a suffix. Such a tree has the same ways
(`Grows.refiled`), the same height (`Grows.height_eq`), and a walk over it lists the same files apart
from those whose name ends in the suffix (`Grows.walk_filter`).
-/

namespace Mender.FileTree

/-- The later tree has the same directories and links, keeps every file as a file, and is larger by
files that stand beside a file under its name with the suffix behind it. -/
structure Grows (s : Text) (tree tree' : FileTree) : Prop extends SameWays tree tree' where
  file : ∀ l b, tree.get? l = some (.file b) → ∃ b', tree'.get? l = some (.file b')
  fresh : ∀ l e, tree.get? l = none → tree'.get? l = some e →
    ∃ dir name b b', l = dir ++ [name ++ s] ∧ e = .file b' ∧
      tree.get? (dir ++ [name]) = some (.file b)

/-- What contributes nothing can be left out. -/
lemma flatMap_filter_of_nil {α β : Type} {xs : List α} {f : α → List β} (p : α → Bool)
    (nil : ∀ x ∈ xs, p x = false → f x = []) : xs.flatMap f = (xs.filter p).flatMap f := by
  induction xs with
  | nil => rfl
  | cons x xs ih =>
    have ih := ih fun y mem => nil y (List.mem_cons_of_mem _ mem)
    cases h : p x with
    | true => rw [List.filter_cons_of_pos h, List.flatMap_cons, List.flatMap_cons, ih]
    | false =>
      rw [List.filter_cons_of_neg (by simp [h]), List.flatMap_cons, nil x List.mem_cons_self h, ih]
      rfl

namespace Grows

variable {s : Text} {tree tree' : FileTree}

/-- A tree that grows by backups is refiled. -/
lemma refiled (grw : Grows s tree tree') : Refiled tree tree' := by
  refine ⟨grw.toSameWays, grw.file, fun l e get get' => ?_⟩
  obtain ⟨_, _, _, b', _, rfl, _⟩ := grw.fresh l e get get'
  exact ⟨b', rfl⟩

/-- A tree that grows by backups does not grow in height. -/
lemma height_eq (grw : Grows s tree tree') : tree'.height = tree.height := by
  apply Nat.le_antisymm
  · refine height_le_iff.2 fun l e get' => ?_
    cases get : tree.get? l with
    | some e => exact height_le_iff.1 (Nat.le_refl _) l e get
    | none =>
      obtain ⟨dir, name, b, _, rfl, _, get⟩ := grw.fresh l e get get'
      simpa using height_le_iff.1 (Nat.le_refl _) _ _ get
  · refine height_le_iff.2 fun l e get => ?_
    obtain ⟨e', get', _⟩ := grw.refiled.entry get
    exact height_le_iff.1 (Nat.le_refl _) l e' get'

/-- What is found for a name that both trees have is the same, as far as it is wanted. -/
lemma findAt_filter (grw : Grows s tree tree') {wanted : Path → Bool} {pruned : Text → Bool}
    {below below' : Path → Location → List Path} {path : Path} {dir : Location} {n : Text} {e : Entry}
    (get : tree.get? (dir ++ [n]) = some e)
    (ih : ∀ path dir, (below' path dir).filter wanted = (below path dir).filter wanted) :
    (tree'.findAt pruned (fun path _ name => path.join name) below' path dir n).filter wanted =
      (tree.findAt pruned (fun path _ name => path.join name) below path dir n).filter wanted := by
  unfold findAt
  obtain ⟨e', get', rfl | ⟨b, b', rfl, rfl⟩⟩ := grw.refiled.entry get
  · rw [get, get']
    cases e' with
    | file b => rfl
    | link t => rfl
    | directory =>
      simp only
      split
      · rfl
      · exact ih _ _
  · rw [get, get']

/-- A walk over the later tree lists the same wanted files, if no file whose name ends in the suffix
is wanted. -/
lemma filesUnder_filter (grw : Grows s tree tree') {wanted : Path → Bool}
    (unwanted : ∀ (path : Path) dir name b, tree'.get? (dir ++ [name]) = some (.file b) →
      s <:+ name → wanted (path.join name) = false)
    (pruned : Text → Bool) (depth : Nat) (path : Path) (dir : Location) :
    (tree'.filesUnder pruned depth path dir).filter wanted =
      (tree.filesUnder pruned depth path dir).filter wanted := by
  induction depth generalizing path dir with
  | zero => rfl
  | succ depth ih =>
    have sub : ∀ n ∈ tree.names dir, n ∈ tree'.names dir := by
      intro n mem
      obtain ⟨e, get⟩ := mem_names.1 mem
      obtain ⟨e', get', _⟩ := grw.refiled.entry get
      exact mem_names.2 ⟨e', get'⟩
    rw [filesUnder_succ, filesUnder_succ, List.filter_flatMap, List.filter_flatMap]
    refine (flatMap_filter_of_nil (fun n => decide (n ∈ tree.names dir)) fun n mem new => ?_).trans ?_
    · -- a name that is new is that of a file with the suffix
      obtain ⟨e', get'⟩ := mem_names.1 mem
      have get : tree.get? (dir ++ [n]) = none := by
        rw [Option.eq_none_iff_forall_ne_some]
        intro e get
        exact absurd (mem_names.2 ⟨e, get⟩) (of_decide_eq_false new)
      obtain ⟨dir', name, b, b', eq, rfl, _⟩ := grw.fresh _ _ get get'
      obtain ⟨_, same⟩ := List.append_inj' eq rfl
      have suffix : s <:+ n := List.singleton_inj.1 same ▸ List.suffix_append name s
      simp [findAt, get', unwanted path dir n b' get' suffix]
    · rw [names_filter_eq sub]
      refine List.flatMap_congr fun n mem => ?_
      obtain ⟨e, get⟩ := mem_names.1 mem
      exact grw.findAt_filter get ih

end Grows

/-- A walk over a tree that grew lists the same wanted files, if no file whose name ends in the suffix
is wanted. -/
lemma Grows.walk_filter {s : Text} {tree tree' : FileTree} (grw : Grows s tree tree')
    {wanted : Path → Bool}
    (unwanted : ∀ (path : Path) dir name b, tree'.get? (dir ++ [name]) = some (.file b) →
      s <:+ name → wanted (path.join name) = false)
    {pruned recursive root files} (walk : tree.walk pruned recursive root = .ok files) :
    ∃ files', tree'.walk pruned recursive root = .ok files' ∧
      files'.filter wanted = files.filter wanted := by
  have under := grw.filesUnder_filter unwanted pruned (if recursive then tree.height + 1 else 1) root
  obtain ⟨l, b, stat, rfl⟩ | ⟨l, stat, rfl⟩ | ⟨l, t, l', stat, use, rfl⟩ |
    ⟨l, t, l', e, stat, use, ne, rfl⟩ := walk_eq_ok.1 walk
  · obtain ⟨e', stat', rfl | ⟨_, b', _, rfl⟩⟩ := grw.refiled.stat stat
    · exact ⟨_, walk_eq_ok.2 (.inl ⟨l, b, stat', rfl⟩), rfl⟩
    · exact ⟨_, walk_eq_ok.2 (.inl ⟨l, b', stat', rfl⟩), rfl⟩
  · obtain ⟨e', stat', rfl | ⟨_, _, h, _⟩⟩ := grw.refiled.stat stat
    · exact ⟨_, walk_eq_ok.2 (.inr (.inl ⟨l, stat', rfl⟩)), by rw [grw.height_eq]; exact under l⟩
    · cases h
  · obtain ⟨e', stat', rfl | ⟨_, _, h, _⟩⟩ := grw.refiled.stat stat
    · obtain ⟨e', use', rfl | ⟨_, _, h, _⟩⟩ := grw.refiled.stat use
      · exact ⟨_, walk_eq_ok.2 (.inr (.inr (.inl ⟨l, t, l', stat', use', rfl⟩))),
          by rw [grw.height_eq]; exact under l'⟩
      · cases h
    · cases h
  · obtain ⟨e', stat', rfl | ⟨_, _, h, _⟩⟩ := grw.refiled.stat stat
    · obtain ⟨e', use', kind⟩ := grw.refiled.stat use
      have ne' : e' ≠ .directory := by
        rcases kind with rfl | ⟨_, _, _, rfl⟩
        · exact ne
        · intro h
          cases h
      exact ⟨_, walk_eq_ok.2 (.inr (.inr (.inr ⟨l, t, l', e', stat', use', ne', rfl⟩))), rfl⟩
    · cases h

end Mender.FileTree
