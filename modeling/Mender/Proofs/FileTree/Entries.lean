import Mender.Proofs.FileTree.Resolution

/-!
# Entries at spelled paths

What the operations on files do at a path that spells an entry is read off the entry itself. A path
is admitted for a name when its own length and that of the name allow it to be followed; the rest is
decided by what the tree holds at the location. `SourceAt` says that a path spells a regular file.
-/

namespace Mender.FileTree

/-- The names of a tree are names that its paths can spell. -/
def WellNamed (tree : FileTree) : Prop :=
  ∀ dir name e, tree.get? (dir ++ [name]) = some e →
    Path.IsName name ∧ Text.byteLength name ≤ maxNameBytes

/-- A tree stays well named when an entry gets a name that a path can spell. -/
lemma WellNamed.put {tree : FileTree} (wn : tree.WellNamed) (dir : Location) {name : Text} (e : Entry)
    (nm : Path.IsName name) (short : Text.byteLength name ≤ maxNameBytes) :
    (tree.put (dir ++ [name]) e).WellNamed := by
  intro dir' name' e' get
  rw [get?_put tree _ _ (by simp)] at get
  split at get
  · next same =>
    obtain rfl := List.singleton_inj.1 (List.append_inj_right' same rfl)
    exact ⟨nm, short⟩
  · exact wn _ _ _ get

/-- The empty tree is well named. -/
lemma wellNamed_empty : (FileTree.empty []).WellNamed := by
  intro dir name e get
  simp [get?, FileTree.empty] at get

/-- Whether a path that ends in a name can be followed to its end. -/
def passable (p : Path) (name : Text) : Except FileError Unit := do
  checkSpelling p
  if maxNameBytes < Text.byteLength name then .error .nameTooLong else .ok ()

/-- A path that is not empty is not refused as one that is missing. -/
lemma passable_ne_notFound {p : Path} {name : Text} (ne : p.text ≠ []) :
    passable p name ≠ .error .notFound := by
  unfold passable checkSpelling
  split
  · simp
  · split
    · simp
    · rw [ok_bind]
      split <;> simp

/-- A path that ends in a name can be followed when it can be spelled and the name is not too long. -/
lemma passable_eq_ok {p : Path} {name : Text} :
    passable p name = .ok () ↔ checkSpelling p = .ok () ∧ Text.byteLength name ≤ maxNameBytes := by
  unfold passable
  cases checkSpelling p with
  | error e => simp
  | ok u => simp

/-- A text with characters left out has no more bytes. -/
lemma byteLength_le_of_sublist {a b : Text} (sub : a.Sublist b) :
    Text.byteLength a ≤ Text.byteLength b := by
  induction sub with
  | slnil => exact Nat.le_refl _
  | cons c _ ih => exact Nat.le_trans ih (Nat.le_add_left _ _)
  | cons_cons c _ ih => exact Nat.add_le_add_left ih _

/-- A path with characters left out can still be spelled, unless nothing is left. -/
lemma checkSpelling_of_sublist {p q : Path} (ok : checkSpelling p = .ok ())
    (sub : q.text.Sublist p.text) (ne : q.text ≠ []) : checkSpelling q = .ok () := by
  unfold checkSpelling at ok ⊢
  split at ok
  · cases ok
  · next nul =>
    split at ok
    · cases ok
    · split at ok
      · cases ok
      · next long =>
        have nul' : '\x00' ∉ q.text := fun mem => nul (sub.subset mem)
        have long' : isTooLong q = false := by
          have := byteLength_le_of_sublist sub
          simp only [isTooLong, decide_eq_true_eq, Nat.not_lt] at long
          simpa [isTooLong] using Nat.le_trans this long
        simp [nul', ne, long']

/-- A path that spells an entry is not empty. -/
lemma Spells.text_ne_nil {tree : FileTree} {p dir name} (sp : tree.Spells p dir name) :
    p.text ≠ [] := by
  obtain ⟨d, rfl, _, nm⟩ := sp
  simp [Path.join_text, nm.ne_nil]

/-- A path that spells an entry and does not follow it leads to what the tree has there. -/
lemma Spells.resolve_unlinked {tree : FileTree} {p dir name} (sp : tree.Spells p dir name)
    {purpose : Purpose} (unlinked : purpose.followsLast = false) :
    tree.resolve purpose p = (passable p name).bind fun _ =>
      match tree.get? (dir ++ [name]) with
      | none => .ok (.vacant (dir ++ [name]))
      | some e => .ok (.present (dir ++ [name]) e) := by
  obtain ⟨left, eq⟩ := sp.resolve_eq
  obtain ⟨_, _, _, nm⟩ := sp
  rw [eq, passable]
  cases checkSpelling p with
  | error e => rfl
  | ok u =>
    rcases Nat.lt_or_ge maxNameBytes (Text.byteLength name) with long | short
    · rw [ok_bind, if_pos long]
      exact follow_name_long nm long
    · rw [ok_bind, if_neg (Nat.not_lt.2 short)]
      obtain ⟨vacant, _, present⟩ := @follow_name tree purpose left name dir nm short
      cases get : tree.get? (dir ++ [name]) with
      | none => exact vacant get
      | some e => exact present e unlinked get

/-- What a path spells is looked up in its directory, if the path can be followed. -/
lemma Spells.stat_inspect {tree : FileTree} {p dir name} (sp : tree.Spells p dir name) :
    tree.stat .inspect p = (passable p name).bind fun _ =>
      match tree.get? (dir ++ [name]) with
      | none => .error .notFound
      | some e => .ok (dir ++ [name], e) := by
  rw [stat, sp.resolve_unlinked rfl]
  cases passable p name with
  | error e => rfl
  | ok u => cases tree.get? (dir ++ [name]) <;> rfl

/-- A path that can be followed leads to the entry that it spells. -/
lemma Spells.stat_of_get? {tree : FileTree} {p dir name e} (sp : tree.Spells p dir name)
    (pass : passable p name = .ok ()) (get : tree.get? (dir ++ [name]) = some e) :
    tree.stat .inspect p = .ok (dir ++ [name], e) := by
  rw [sp.stat_inspect, pass, get]
  rfl

/-- A path leads to the same if the ways and the entry are the same. -/
lemma Spells.stat_congr {tree tree' : FileTree} {p dir name} (sp : tree.Spells p dir name)
    (same : SameWays tree tree') (get : tree'.get? (dir ++ [name]) = tree.get? (dir ++ [name])) :
    tree'.stat .inspect p = tree.stat .inspect p := by
  rw [sp.stat_inspect, (sp.of_sameWays same).stat_inspect, get]

/-- A file is created where a path spells it, if the path can be followed and nothing is there. -/
lemma Spells.create_eq {tree : FileTree} {p dir name} (sp : tree.Spells p dir name)
    (bytes : ByteArray) :
    tree.create p bytes = (passable p name).bind fun _ =>
      match tree.get? (dir ++ [name]) with
      | none => .ok (tree.put (dir ++ [name]) (.file bytes))
      | some _ => .error .alreadyExists := by
  rw [create, sp.resolve_unlinked rfl]
  cases passable p name with
  | error e => rfl
  | ok u => cases tree.get? (dir ++ [name]) <;> rfl

/-- Putting a file where no directory or link is leaves all ways as they are. -/
lemma sameWays_put {tree : FileTree} {l : Location} (b : ByteArray) (ne : l ≠ [])
    (free : ∀ e, tree.get? l = some e → ∃ b, e = .file b) :
    SameWays tree (tree.put l (.file b)) := by
  refine ⟨rfl, fun l' e get way => ?_⟩
  rw [get?_put tree _ l' ne]
  split
  · next same =>
    obtain ⟨b', rfl⟩ := free e (same ▸ get)
    exact absurd rfl (way b')
  · exact get

/-- Trees that agree on ways with a third one agree with each other. -/
lemma SameWays.trans {tree tree' tree'' : FileTree} (fst : SameWays tree tree')
    (snd : SameWays tree' tree'') : SameWays tree tree'' :=
  ⟨snd.here.trans fst.here, fun l e get way => snd.keeps l e (fst.keeps l e get way) way⟩

/-- Entries at different locations can be put in either order. -/
lemma put_comm (tree : FileTree) {l l' : Location} (e e' : Entry) (ne : l ≠ l') :
    (tree.put l e).put l' e' = (tree.put l' e').put l e := by
  have entries : (tree.entries.insert l e).insert l' e' = (tree.entries.insert l' e').insert l e := by
    apply Std.ExtTreeMap.ext_getElem?
    intro k
    simp only [Std.ExtTreeMap.getElem?_insert, Std.LawfulEqCmp.compare_eq_iff_eq]
    split
    · next same =>
      rw [if_neg fun same' => ne (same'.trans same.symm)]
    · rfl
  simp only [put, entries]

/-- A path spells a regular file that holds the given bytes. -/
structure SourceAt (tree : FileTree) (p : Path) (dir : Location) (name : Text)
    (bytes : ByteArray) : Prop where
  spells : tree.Spells p dir name
  short : Text.byteLength name ≤ maxNameBytes
  get? : tree.get? (dir ++ [name]) = some (.file bytes)

namespace SourceAt

variable {tree : FileTree} {p : Path} {dir : Location} {name : Text} {bytes : ByteArray}

/-- The path of a regular file leads to it, whatever it is followed for. -/
lemma resolve_eq (src : tree.SourceAt p dir name bytes) (purpose : Purpose) :
    tree.resolve purpose p =
      (checkSpelling p).map fun _ => .present (dir ++ [name]) (.file bytes) := by
  obtain ⟨left, eq⟩ := src.spells.resolve_eq
  obtain ⟨_, _, _, nm⟩ := src.spells
  rw [eq, (follow_name nm src.short).2.1 _ src.get?]
  cases checkSpelling p <;> rfl

/-- The bytes of a file are read, if its path can be spelled. -/
lemma read_eq (src : tree.SourceAt p dir name bytes) :
    tree.read p = (checkSpelling p).map fun _ => bytes := by
  unfold read stat
  rw [src.resolve_eq]
  cases checkSpelling p <;> rfl

/-- A file is written where its path spells it, if the path can be spelled. -/
lemma write_eq (src : tree.SourceAt p dir name bytes) (bytes' : ByteArray) :
    tree.write p bytes' =
      (checkSpelling p).map fun _ => tree.put (dir ++ [name]) (.file bytes') := by
  unfold write
  rw [src.resolve_eq]
  cases checkSpelling p <;> rfl

/-- A file that is put where nothing was leaves other files where they are. -/
lemma put {l : Location} {b : ByteArray} (src : tree.SourceAt p dir name bytes) (ne : l ≠ [])
    (free : tree.get? l = none) : (tree.put l (.file b)).SourceAt p dir name bytes := by
  refine ⟨src.spells.of_sameWays (sameWays_put b ne ?_), src.short, ?_⟩
  · intro e get
    rw [free] at get
    cases get
  · have away : dir ++ [name] ≠ l := by
      rintro rfl
      rw [src.get?] at free
      cases free
    rw [get?_put tree _ _ ne, if_neg away, src.get?]

/-- A path spells at most one file. -/
lemma unique {dir' : Location} {name' : Text} {bytes' : ByteArray}
    (src : tree.SourceAt p dir name bytes) (src' : tree.SourceAt p dir' name' bytes') :
    dir = dir' ∧ name = name' ∧ bytes = bytes' := by
  obtain ⟨⟨d, rfl, ⟨left, rch⟩, nm⟩, short, get⟩ := src
  obtain ⟨⟨d', e, ⟨left', rch'⟩, nm'⟩, short', get'⟩ := src'
  have split := Path.split_join (p := d) nm.no_sep
  rw [e, Path.split_join nm'.no_sep] at split
  obtain ⟨parts, same⟩ := List.append_inj' split rfl
  obtain rfl := List.singleton_inj.1 same
  -- both directories are where the same parts lead, so the same file is found behind them
  rw [origin_text, parts, ← origin_text] at rch'
  have ne : [name'] ≠ [[]] := by simp [nm.ne_nil]
  have follow : tree.follow .inspect _ _ _ = _ := rch.follow_eq (List.cons_ne_nil name' []) ne
  rw [rch'.follow_eq (List.cons_ne_nil name' []) ne, (follow_name nm short).2.1 _ get,
    (follow_name nm' short').2.1 _ get'] at follow
  simp only [Except.ok.injEq, Place.present.injEq, Entry.file.injEq] at follow
  exact ⟨(List.append_inj_left' follow.1 rfl).symm, rfl, follow.2.symm⟩

end SourceAt

/-- The path of a regular file spells it, if no link at its end has to be followed. -/
lemma sourceAt_of_stat {tree : FileTree} {p l bytes}
    (h : tree.stat .inspect p = .ok (l, .file bytes)) :
    ∃ dir name, l = dir ++ [name] ∧ tree.SourceAt p dir name bytes := by
  obtain ⟨spelling, follow⟩ := stat_eq_ok.1 h
  obtain ⟨init, name, left, dir, e, rch, look, rfl, get⟩ := reaches_of_follow_file follow
  obtain ⟨d, n, rfl, sep⟩ := Path.exists_join p
  have ne : n ≠ [] := by
    rintro rfl
    -- the path would end in a separator, and what is followed last would be an empty part
    have text := Path.join_text d []
    rcases List.eq_nil_or_concat d.dirParts with nil | ⟨ps, a, parts⟩
    · simp [checkSpelling, text, nil, Path.slashed] at spelling
    · have last : (d.join []).text.getLast? = some '/' := by simp [text, parts, Path.slashed]
      rw [steps, if_pos last] at e
      have := List.singleton_inj.1 (List.append_inj_right' e rfl)
      exact absurd look.not_idle (by simp [← this, Path.isIdle])
  rw [steps_join ne sep] at e
  obtain ⟨rfl, same⟩ := List.append_inj' e rfl
  obtain rfl := List.singleton_inj.1 same
  have nm : Path.IsName n := by
    refine ⟨ne, ?_, look.ne_dots, sep⟩
    rintro rfl
    exact absurd look.not_idle (by decide)
  rw [origin_join ne sep, ← origin_text] at rch
  exact ⟨dir, n, rfl, ⟨d, rfl, ⟨left, reaches_filter.1 rch⟩, nm⟩, look.short, get⟩

/-- Parts that end in a separator lead to no file. -/
lemma follow_ne_file {tree : FileTree} {purpose links parts dir l b}
    (last : parts.getLast? = some []) :
    tree.follow purpose links parts dir ≠ .ok (.present l (.file b)) := by
  intro h
  fun_induction FileTree.follow tree purpose links parts dir with
  | case1 => cases last
  | case2 _ _ parts _ _ ih =>
    cases parts with
    | nil =>
      rw [FileTree.follow] at h
      cases h
    | cons part parts => exact ih (by simpa using last) h
  | case3 _ parts _ _ ih =>
    cases parts with
    | nil => cases last
    | cons part parts => exact ih (by simpa using last) h
  | case8 _ _ parts _ idle _ _ _ _ _ ih =>
    cases parts with
    | nil => exact idle (.inl (Option.some.inj last))
    | cons part parts => exact ih (by simpa using last) h
  | case9 _ _ _ idle _ _ _ _ _ _ => exact idle (.inl (Option.some.inj last))
  | case13 _ parts _ idle _ _ _ _ _ _ _ _ ih =>
    cases parts with
    | nil => exact idle (.inl (Option.some.inj last))
    | cons part parts => exact ih (by simpa using last) h
  | _ => simp at h

/-- What is followed to a file for its use is followed to the same file for writing it. -/
lemma follow_write {tree tree' : FileTree} {links parts dir l b}
    (keeps : ∀ l e, tree.get? l = some e → tree'.get? l = some e)
    (h : tree.follow .use links parts dir = .ok (.present l (.file b))) :
    tree'.follow .write links parts dir = .ok (.present l (.file b)) := by
  fun_induction FileTree.follow tree .use links parts dir with
  | case2 _ _ _ _ idle ih =>
    rw [FileTree.follow, if_pos idle]
    exact ih h
  | case3 _ _ _ idle ih =>
    rw [FileTree.follow, if_neg idle, if_pos rfl]
    exact ih h
  | case8 _ _ parts _ idle dots _ short _ get ih =>
    have make : ¬ (Purpose.write.mayMake ∧ parts = [[]]) := by
      rintro ⟨_, rfl⟩
      exact follow_ne_file rfl h
    rw [follow_cons (.of_follow idle dots short) make, keeps _ _ get]
    exact ih h
  | case9 _ _ _ idle dots short _ _ get _ =>
    rw [follow_cons (.of_follow idle dots short) (by simp), keeps _ _ get]
    exact h
  | case13 _ parts _ idle dots _ short _ _ get _ _ ih =>
    have make : ¬ (Purpose.write.mayMake ∧ parts = [[]]) := by
      rintro ⟨_, rfl⟩
      exact follow_ne_file (by simp) h
    rw [follow_cons (.of_follow idle dots short) make, keeps _ _ get]
    exact (if_neg (by simp [Purpose.followsLast])).trans (ih h)
  | _ => simp at h

/-- A file that can be read can be written, also in a tree that has more in it. -/
lemma write_of_read {tree tree' : FileTree} {p : Path} {bytes : ByteArray}
    (here : tree'.workingDirectory = tree.workingDirectory)
    (keeps : ∀ l e, tree.get? l = some e → tree'.get? l = some e)
    (read : tree.read p = .ok bytes) (bytes' : ByteArray) :
    ∃ l, tree'.write p bytes' = .ok (tree'.put l (.file bytes')) := by
  unfold FileTree.read at read
  cases stat : tree.stat .use p with
  | error e =>
    rw [stat] at read
    cases read
  | ok found =>
    obtain ⟨l, e⟩ := found
    obtain ⟨spelling, follow⟩ := stat_eq_ok.1 stat
    rw [stat] at read
    cases e with
    | file b =>
      refine ⟨l, ?_⟩
      unfold write resolve
      rw [spelling, here, ok_bind, follow_write keeps follow]
      rfl
    | directory => cases read
    | link t => cases read

/-- A path that leads to a free name leads to a place where nothing is. -/
lemma get?_of_vacant {tree : FileTree} {purpose links parts dir l}
    (h : tree.follow purpose links parts dir = .ok (.vacant l)) : tree.get? l = none ∧ l ≠ [] := by
  fun_induction FileTree.follow tree purpose links parts dir with
  | case2 _ _ _ _ _ ih => exact ih h
  | case3 _ _ _ _ ih => exact ih h
  | case6 _ _ _ _ _ _ _ free _ =>
    obtain rfl := Place.vacant.inj (Except.ok.inj h)
    exact ⟨free, List.append_ne_nil_of_right_ne_nil _ (List.cons_ne_nil _ _)⟩
  | case8 _ _ _ _ _ _ _ _ _ _ ih => exact ih h
  | case13 _ _ _ _ _ _ _ _ _ _ _ _ ih => exact ih h
  | _ => simp at h

/-- A file is created where its path leads to a free place. -/
lemma create_eq_ok_iff {tree tree' : FileTree} {p : Path} {bytes : ByteArray} :
    tree.create p bytes = .ok tree' ↔
      ∃ l, tree.resolve .make p = .ok (.vacant l) ∧ tree.put l (.file bytes) = tree' := by
  unfold create
  cases tree.resolve .make p with
  | error e => simp
  | ok place => cases place <;> simp

end Mender.FileTree
