import Mathlib.Data.List.Basic
import Mathlib.Tactic.Common
import Mender.Proofs.Path.Join

/-!
# The order of paths

Joining a name to a path adds one component to it (`components_join`), so the paths joined from one root
are told apart by the names (`joinAll_inj`). Paths with the same components are neither before nor behind
each other. Where the components tell paths apart, sorting puts each path strictly before the next
(`sort_strict`), and the order that the paths came in makes no difference (`sort_eq_of_perm`).
-/

namespace Mender.Path

/-! ## Components of joined paths -/

/-- The components of a path are read off its parts one by one. Only the first part can be a lead, and
only an empty path has nothing but an empty part. -/
lemma components_of_split {p : Path} {a : Text} {ps : List Text} (parts : split p.text = a :: ps)
    (more : a = [] → ps ≠ []) : p.components =
      (if a = [] then .root else if a = ['.'] then .current else ofPart a) ::
        (ps.filter (!isIdle ·)).map ofPart := by
  by_cases empty : a = []
  · obtain ⟨b, ps, rfl⟩ := List.exists_cons_of_ne_nil (more empty)
    subst empty
    have lead : p.lead = some .root := by rw [lead, parts]
    simp only [components, body, lead, parts, if_true]
    rfl
  by_cases dot : a = ['.']
  · subst dot
    have lead : p.lead = some .current := by
      rw [lead, parts]
      rfl
    simp only [components, body, lead, parts]
    rfl
  · have lead : p.lead = none := by
      rw [lead, parts]
      split
      · next eq => exact absurd (List.cons.inj eq).1 empty
      · next eq => exact absurd (List.cons.inj eq).1 dot
      · rfl
    have busy : isIdle a = false := by simp [isIdle, empty, dot]
    simp [components, body, lead, parts, busy, empty, dot]

/-- Behind the directory parts of a path stands at most an empty part. -/
lemma split_eq_dirParts (p : Path) :
    split p.text = p.dirParts ∨ split p.text = p.dirParts ++ [[]] := by
  unfold dirParts
  split
  · next none =>
    rw [none]
    exact .inr rfl
  · split
    · next last =>
      obtain ⟨pre, eq⟩ := List.getLast?_eq_some_iff.1 last
      have parts : split p.text = split pre ++ [[]] := by
        rw [eq]
        exact split_append_sep pre []
      rw [parts, List.dropLast_concat]
      exact .inr rfl
    · exact .inl rfl

/-- A path without directory parts is empty. -/
lemma dirParts_eq_nil_iff {p : Path} : p.dirParts = [] ↔ split p.text = [[]] := by
  constructor
  · intro none
    rcases split_eq_dirParts p with parts | parts
    · exact absurd (parts.trans none) (split_ne_nil _)
    · rw [parts, none, List.nil_append]
  · intro parts
    have text := slashed_split p.text
    rw [parts] at text
    rw [dirParts, if_pos (List.append_left_eq_self.1 text.symm)]

/-- The components of a path are those of its directory parts. -/
lemma components_of_dirParts {p : Path} {a : Text} {ps : List Text} (dirs : p.dirParts = a :: ps) :
    p.components = (if a = [] then .root else if a = ['.'] then .current else ofPart a) ::
      (ps.filter (!isIdle ·)).map ofPart := by
  have more : ∀ qs, split p.text = a :: qs → a = [] → qs ≠ [] := by
    rintro qs parts rfl rfl
    cases dirs.symm.trans (dirParts_eq_nil_iff.2 parts)
  rcases split_eq_dirParts p with parts | parts
  · rw [dirs] at parts
    exact components_of_split parts (more _ parts)
  · rw [dirs, List.cons_append] at parts
    rw [components_of_split parts (more _ parts), List.filter_append]
    exact congrArg _ (congrArg _ (List.append_nil _))

/-- A path without directory parts has no components. -/
lemma components_of_dirParts_nil {p : Path} (dirs : p.dirParts = []) : p.components = [] := by
  simp only [components, lead, body, dirParts_eq_nil_iff.1 dirs]
  rfl

/-- Joining a name adds it as the last component. -/
lemma components_join (p : Path) {n : Text} (nm : IsName n) :
    (p.join n).components = p.components ++ [.normal n] := by
  have joined := split_join (p := p) nm.no_sep
  have name : ofPart n = .normal n := if_neg nm.ne_dots
  cases dirs : p.dirParts with
  | nil =>
    rw [dirs] at joined
    rw [components_of_dirParts_nil dirs, components_of_split joined fun eq => absurd eq nm.ne_nil,
      if_neg nm.ne_nil, if_neg nm.ne_dot, name]
    rfl
  | cons a ps =>
    rw [dirs, List.cons_append] at joined
    have behind := components_of_split joined fun _ =>
      List.append_ne_nil_of_right_ne_nil ps (List.cons_ne_nil n [])
    rw [behind, components_of_dirParts dirs, List.filter_append, List.map_append, List.cons_append]
    simp [nm.not_idle, name]

/-- The path of what is found along some names, from a root. -/
def joinAll (root : Path) (names : List Text) : Path := names.foldl join root

/-- Another name is joined at the end. -/
lemma joinAll_concat (root : Path) (names : List Text) (n : Text) :
    root.joinAll (names ++ [n]) = (root.joinAll names).join n := by
  rw [joinAll, List.foldl_append]
  rfl

/-- Joined names are the last components of a path. -/
lemma components_joinAll (root : Path) {names : List Text} (nms : ∀ n ∈ names, IsName n) :
    (root.joinAll names).components = root.components ++ names.map .normal := by
  induction names generalizing root with
  | nil => exact (List.append_nil _).symm
  | cons n names ih =>
    obtain ⟨nm, nms⟩ := List.forall_mem_cons.1 nms
    rw [joinAll, List.foldl_cons, ← joinAll, ih _ nms, components_join root nm, List.append_assoc]
    rfl

/-- Paths from one root are told apart by the names on the way. -/
lemma joinAll_inj {root : Path} {names names' : List Text} (nms : ∀ n ∈ names, IsName n)
    (nms' : ∀ n ∈ names', IsName n)
    (same : (root.joinAll names).components = (root.joinAll names').components) : names = names' := by
  rw [components_joinAll root nms, components_joinAll root nms'] at same
  exact List.map_injective_iff.2 (fun _ _ => Component.normal.inj) (List.append_cancel_left same)

/-! ## Comparing and sorting -/

instance : Std.TransOrd Component :=
  inferInstanceAs (Std.TransCmp (compareLex (compareOn Component.rank) (compareOn Component.name)))

instance : Std.LawfulEqOrd Component where
  compare_self := Std.ReflCmp.compare_self
  eq_of_compare {a b} same := by
    obtain ⟨ranks, names⟩ := compareLex_eq_eq.1 same
    have rank : a.rank = b.rank := Std.LawfulEqCmp.eq_of_compare ranks
    have name : a.name = b.name := Std.LawfulEqCmp.eq_of_compare names
    cases a <;> cases b <;> simp_all [Component.rank, Component.name]

instance : Std.TransOrd Path := inferInstanceAs (Std.TransCmp (compareOn components))

/-- Paths that are equal in order have the same components. -/
lemma compare_eq_iff {p q : Path} : compare p q = .eq ↔ p.components = q.components := by
  change compare p.components q.components = .eq ↔ _
  exact Std.LawfulEqCmp.compare_eq_iff_eq

/-- Components tell the paths of a list apart. -/
def Distinct (ps : List Path) : Prop := ∀ p ∈ ps, ∀ q ∈ ps, p.components = q.components → p = q

variable {ps qs : List Path}

/-- Sorting keeps the paths. -/
lemma sort_perm (ps : List Path) : (sort ps).Perm ps := List.mergeSort_perm _ _

/-- Sorting paths that are told apart puts each of them strictly before the next. -/
lemma sort_strict (nodup : ps.Nodup) (distinct : Distinct ps) :
    (sort ps).Pairwise fun p q => compare p q = .lt := by
  have sorted : (sort ps).Pairwise fun p q => (compare p q).isLE := by
    refine List.pairwise_mergeSort (fun _ _ _ => Std.TransCmp.isLE_trans) (fun p q => ?_) ps
    have swap : compare q p = (compare p q).swap := Std.OrientedCmp.eq_swap
    rw [swap]
    cases compare p q <;> rfl
  have apart : (sort ps).Nodup := (sort_perm ps).nodup_iff.2 nodup
  refine (sorted.and apart).imp_of_mem fun {p q} mem mem' ⟨le, ne⟩ => ?_
  rcases Ordering.isLE_iff_eq_lt_or_eq_eq.1 le with lt | eq
  · exact lt
  · exact absurd (distinct p ((sort_perm ps).mem_iff.1 mem) q ((sort_perm ps).mem_iff.1 mem')
      (compare_eq_iff.1 eq)) ne

/-- The order in which paths come makes no difference to sorting them, if they are told apart. -/
lemma sort_eq_of_perm (nodup : ps.Nodup) (distinct : Distinct ps) (perm : qs.Perm ps) :
    sort qs = sort ps := by
  have distinct' : Distinct qs := fun p mem q mem' => distinct p (perm.mem_iff.1 mem) q (perm.mem_iff.1 mem')
  refine List.Perm.eq_of_pairwise ?_ (sort_strict (perm.nodup_iff.2 nodup) distinct')
    (sort_strict nodup distinct) ((sort_perm qs).trans (perm.trans (sort_perm ps).symm))
  intro p q _ _ lt gt
  exact absurd gt (Std.OrientedCmp.not_lt_of_lt lt)

end Mender.Path
