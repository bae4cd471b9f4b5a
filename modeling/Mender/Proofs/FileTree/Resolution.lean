import Mender.Proofs.Path.Join
import Mender.Proofs.Results
import Mender.FileTree.Walk

/-!
# Resolution of joined paths

Following the parts of a path to a directory is the relation `Reaches`, which keeps count of the
symbolic links that are left. `Reaches.follow_eq` says that what comes behind such parts is followed
from the directory they reach, and `reaches_of_follow` that every path to a directory is of this
kind. A path `Spells` the entry of a directory when it is joined from a path that opens the directory
and the name of the entry: this depends on the directories and links of a tree only
(`Spells.of_sameWays`), and it settles what reading, writing and making a file do.
-/

namespace Mender

namespace FileTree

/-! ## Reaching directories -/

/-- A part of a path that is looked up in a directory. -/
structure LooksUp (part : Text) : Prop where
  not_idle : Path.isIdle part = false
  ne_dots : part ≠ ['.', '.']
  short : Text.byteLength part ≤ maxNameBytes

/-- Following `parts` from a directory with so many links left ends in a directory with so many links
left. -/
inductive Reaches (tree : FileTree) : Nat → List Text → Location → Nat → Location → Prop where
  | nil {links dir} :
    Reaches tree links [] dir links dir
  | idle {links left part parts dir l} :
    Path.isIdle part →
    Reaches tree links parts dir left l →
    Reaches tree links (part :: parts) dir left l
  | up {links left parts dir l} :
    Reaches tree links parts dir.dropLast left l →
    Reaches tree links (['.', '.'] :: parts) dir left l
  | down {links left part parts dir l} :
    LooksUp part →
    tree.get? (dir ++ [part]) = some .directory →
    Reaches tree links parts (dir ++ [part]) left l →
    Reaches tree links (part :: parts) dir left l
  | link {links left part parts dir l target} :
    LooksUp part →
    tree.get? (dir ++ [part]) = some (.link target) →
    Reaches tree links (steps target ++ parts) (origin target dir) left l →
    Reaches tree (links + 1) (part :: parts) dir left l

/-- A part of a path is idle when it is empty or a dot. -/
lemma isIdle_iff {part : Text} : Path.isIdle part ↔ part = [] ∨ part = ['.'] := by
  simp [Path.isIdle]

/-- Parts that reach a directory, and parts from there on, reach what the latter do. -/
lemma Reaches.append {tree links mid left ps qs dir m l} (fst : Reaches tree links ps dir mid m)
    (snd : Reaches tree mid qs m left l) : Reaches tree links (ps ++ qs) dir left l := by
  induction fst with
  | nil => exact snd
  | idle idle _ ih => exact .idle idle (ih snd)
  | up _ ih => exact .up (ih snd)
  | down look e _ ih => exact .down look e (ih snd)
  | link look e _ ih => exact .link look e (List.append_assoc .. ▸ ih snd)

/-- What is followed can be cut anywhere. -/
lemma Reaches.split {tree links left ps qs dir l} (rch : Reaches tree links (ps ++ qs) dir left l) :
    ∃ mid m, Reaches tree links ps dir mid m ∧ Reaches tree mid qs m left l := by
  generalize e : ps ++ qs = rs at rch
  induction rch generalizing ps with
  | nil =>
    obtain ⟨rfl, rfl⟩ := List.append_eq_nil_iff.1 e
    exact ⟨_, _, .nil, .nil⟩
  | @idle _ _ part parts _ _ idle rch ih =>
    cases ps with
    | nil => cases e; exact ⟨_, _, .nil, .idle idle rch⟩
    | cons p ps =>
      obtain ⟨rfl, rfl⟩ := List.cons_eq_cons.1 e
      obtain ⟨mid, m, fst, snd⟩ := ih rfl
      exact ⟨mid, m, .idle idle fst, snd⟩
  | @up _ _ parts _ _ rch ih =>
    cases ps with
    | nil => cases e; exact ⟨_, _, .nil, .up rch⟩
    | cons p ps =>
      obtain ⟨rfl, rfl⟩ := List.cons_eq_cons.1 e
      obtain ⟨mid, m, fst, snd⟩ := ih rfl
      exact ⟨mid, m, .up fst, snd⟩
  | @down _ _ part parts _ _ look get rch ih =>
    cases ps with
    | nil => cases e; exact ⟨_, _, .nil, .down look get rch⟩
    | cons p ps =>
      obtain ⟨rfl, rfl⟩ := List.cons_eq_cons.1 e
      obtain ⟨mid, m, fst, snd⟩ := ih rfl
      exact ⟨mid, m, .down look get fst, snd⟩
  -- the parts of a link come before those that are left, so the cut moves behind them
  | @link _ _ part parts _ _ target look get rch ih =>
    cases ps with
    | nil => cases e; exact ⟨_, _, .nil, .link look get rch⟩
    | cons p ps =>
      obtain ⟨rfl, rfl⟩ := List.cons_eq_cons.1 e
      obtain ⟨mid, m, fst, snd⟩ := ih (List.append_assoc ..)
      exact ⟨mid, m, .link look get fst, snd⟩

/-- Idle parts reach the directory where one is. -/
lemma reaches_idle {tree links left ps dir l} (idle : ∀ p ∈ ps, Path.isIdle p) :
    Reaches tree links ps dir left l ↔ left = links ∧ l = dir := by
  constructor
  · intro rch
    induction rch with
    | nil => exact ⟨rfl, rfl⟩
    | idle _ _ ih => exact ih fun p mem => idle p (List.mem_cons_of_mem _ mem)
    | up _ _ => exact absurd (idle _ List.mem_cons_self) (by decide)
    | down look _ _ _ =>
      have := idle _ List.mem_cons_self
      rw [look.not_idle] at this
      cases this
    | link look _ _ _ =>
      have := idle _ List.mem_cons_self
      rw [look.not_idle] at this
      cases this
  · rintro ⟨rfl, rfl⟩
    induction ps with
    | nil => exact .nil
    | cons p ps ih =>
      exact .idle (idle p List.mem_cons_self) (ih fun q mem => idle q (List.mem_cons_of_mem _ mem))

/-- Idle parts at the end change nothing about what is reached. -/
lemma reaches_append_idle {tree links left ps idles dir l} (idle : ∀ p ∈ idles, Path.isIdle p) :
    Reaches tree links (ps ++ idles) dir left l ↔ Reaches tree links ps dir left l := by
  constructor
  · intro rch
    obtain ⟨mid, m, fst, snd⟩ := rch.split
    obtain ⟨rfl, rfl⟩ := (reaches_idle idle).1 snd
    exact fst
  · exact fun rch => rch.append ((reaches_idle idle).2 ⟨rfl, rfl⟩)

/-- Empty parts change nothing about what is reached. -/
lemma reaches_filter {tree links left ps dir l} :
    Reaches tree links (ps.filter (· ≠ [])) dir left l ↔ Reaches tree links ps dir left l := by
  induction ps generalizing links dir with
  | nil => rfl
  | cons p ps ih =>
    by_cases e : p = []
    · subst e
      rw [List.filter_cons_of_neg (by simp), ih]
      constructor
      · exact .idle rfl
      · intro rch
        obtain ⟨mid, m, fst, snd⟩ := (show Reaches tree _ ([[]] ++ ps) _ _ _ from rch).split
        obtain ⟨rfl, rfl⟩ := (reaches_idle (by simp [Path.isIdle])).1 fst
        exact snd
    · rw [List.filter_cons_of_pos (by simp [e]), ← List.singleton_append,
        ← List.singleton_append (l := ps)]
      constructor
      · intro rch
        obtain ⟨mid, m, fst, snd⟩ := rch.split
        exact fst.append (ih.1 snd)
      · intro rch
        obtain ⟨mid, m, fst, snd⟩ := rch.split
        exact fst.append (ih.2 snd)

/-- A directory is still reached if directories and links are kept. -/
lemma Reaches.mono {tree tree' : FileTree} {links left ps dir l}
    (rch : Reaches tree links ps dir left l)
    (same : ∀ l e, tree.get? l = some e → (∀ b, e ≠ .file b) → tree'.get? l = some e) :
    Reaches tree' links ps dir left l := by
  induction rch with
  | nil => exact .nil
  | idle idle _ ih => exact .idle idle ih
  | up _ ih => exact .up ih
  | down look e _ ih => exact .down look (same _ _ e nofun) ih
  | link look e _ ih => exact .link look (same _ _ e nofun) ih

/-- A part that is looked up is followed by what the tree has under its name. -/
lemma follow_cons {tree : FileTree} {purpose links part parts dir} (look : LooksUp part)
    (make : ¬ (purpose.mayMake ∧ parts = [[]])) :
    tree.follow purpose links (part :: parts) dir =
      match tree.get? (dir ++ [part]) with
      | none => if parts = [] then .ok (.vacant (dir ++ [part])) else .error .notFound
      | some .directory => tree.follow purpose links parts (dir ++ [part])
      | some (.file b) =>
        if parts = [] then .ok (.present (dir ++ [part]) (.file b)) else .error .notDirectory
      | some (.link target) =>
        if parts = [] ∧ !purpose.followsLast then .ok (.present (dir ++ [part]) (.link target))
        else match links with
          | 0 => .error .linkLoop
          | links + 1 => tree.follow purpose links (steps target ++ parts) (origin target dir) := by
  have idle : ¬ (part = [] ∨ part = ['.']) := by
    rw [← isIdle_iff, look.not_idle]
    decide
  have eq : tree.follow purpose links (part :: parts) dir = _ := follow.eq_2 ..
  rw [if_neg idle, if_neg look.ne_dots, if_neg make, if_neg (Nat.not_lt.2 look.short)] at eq
  exact eq

/-- What comes behind parts that reach a directory is followed from there. -/
lemma Reaches.follow_eq {tree purpose links left ps qs dir l}
    (rch : Reaches tree links ps dir left l) (ne : qs ≠ []) (ne' : qs ≠ [[]]) :
    tree.follow purpose links (ps ++ qs) dir = tree.follow purpose left qs l := by
  have not_last : ∀ ps : List Text, ps ++ qs ≠ [] := by simp [ne]
  -- a separator at the end would ask for a directory, and there is none behind a name
  have not_sep : ∀ ps : List Text, ps ++ qs ≠ [[]] := by
    intro ps e
    rcases List.append_eq_singleton_iff.1 e with ⟨_, e⟩ | ⟨_, e⟩
    · exact ne' e
    · exact ne e
  induction rch with
  | nil => rfl
  | idle idle _ ih =>
    rw [List.cons_append, follow.eq_2, if_pos (isIdle_iff.1 idle)]
    exact ih
  | up _ ih =>
    rw [List.cons_append, follow.eq_2, if_neg (by decide), if_pos rfl]
    exact ih
  | down look get _ ih =>
    rw [List.cons_append, follow_cons look fun h => not_sep _ h.2, get]
    exact ih
  | link look get _ ih =>
    rw [List.cons_append, follow_cons look fun h => not_sep _ h.2, get]
    simp only [not_last, false_and, if_false]
    rw [← List.append_assoc]
    exact ih

/-- Following parts that reach a directory leads to it. -/
lemma Reaches.follow_use {tree links left ps dir l} (rch : Reaches tree links ps dir left l) :
    tree.follow .use links ps dir = .ok (.present l .directory) := by
  induction rch with
  | nil => exact follow.eq_1 ..
  | idle idle _ ih => rw [follow.eq_2, if_pos (isIdle_iff.1 idle), ih]
  | up _ ih => rw [follow.eq_2, if_neg (by decide), if_pos rfl, ih]
  | down look get _ ih =>
    rw [follow_cons look (by simp [Purpose.mayMake]), get]
    exact ih
  | link look get _ ih =>
    rw [follow_cons look (by simp [Purpose.mayMake]), get]
    simpa [Purpose.followsLast] using ih

/-- Following parts that reach a directory leads to something, also if the last link is not followed. -/
lemma Reaches.follow_inspect {tree links left ps dir l} (rch : Reaches tree links ps dir left l) :
    ∃ l' e, tree.follow .inspect links ps dir = .ok (.present l' e) := by
  induction rch with
  | nil => exact ⟨_, _, follow.eq_1 ..⟩
  | idle idle _ ih => rwa [follow.eq_2, if_pos (isIdle_iff.1 idle)]
  | up _ ih => rwa [follow.eq_2, if_neg (by decide), if_pos rfl]
  | down look get _ ih =>
    rw [follow_cons look (by simp [Purpose.mayMake]), get]
    exact ih
  | @link _ _ _ parts _ _ _ look get _ ih =>
    rw [follow_cons look (by simp [Purpose.mayMake]), get]
    cases parts with
    | nil => exact ⟨_, _, if_pos ⟨rfl, rfl⟩⟩
    | cons part parts => simpa using ih

/-- A part that is neither idle nor two dots is looked up, if it is not too long. -/
lemma LooksUp.of_follow {part : Text} (idle : ¬ (part = [] ∨ part = ['.']))
    (dots : ¬ part = ['.', '.']) (short : ¬ maxNameBytes < Text.byteLength part) : LooksUp part :=
  ⟨by rwa [← isIdle_iff, Bool.not_eq_true] at idle, dots, Nat.not_lt.1 short⟩

/-- A path that leads to a directory reaches it. -/
lemma reaches_of_follow {tree purpose links ps dir l}
    (h : tree.follow purpose links ps dir = .ok (.present l .directory)) :
    ∃ left, Reaches tree links ps dir left l := by
  fun_induction follow tree purpose links ps dir with
  | case1 => cases h; exact ⟨_, .nil⟩
  | case2 _ _ _ _ idle ih =>
    obtain ⟨left, rch⟩ := ih h
    exact ⟨left, .idle (isIdle_iff.2 idle) rch⟩
  | case3 _ _ _ _ ih =>
    obtain ⟨left, rch⟩ := ih h
    exact ⟨left, .up rch⟩
  | case8 _ _ _ _ idle dots _ short _ get ih =>
    obtain ⟨left, rch⟩ := ih h
    exact ⟨left, .down (.of_follow idle dots short) get rch⟩
  | case13 _ _ _ idle dots _ short _ _ get _ _ ih =>
    obtain ⟨left, rch⟩ := ih h
    exact ⟨left, .link (.of_follow idle dots short) get rch⟩
  | _ => simp at h

/-- A path that leads to a file without following a link at its end names the file in a directory
that the parts before reach. -/
lemma reaches_of_follow_file {tree links ps dir l b}
    (h : tree.follow .inspect links ps dir = .ok (.present l (.file b))) :
    ∃ init name left d, ps = init ++ [name] ∧ Reaches tree links init dir left d ∧ LooksUp name ∧
      l = d ++ [name] ∧ tree.get? (d ++ [name]) = some (.file b) := by
  fun_induction follow tree .inspect links ps dir with
  | case2 _ _ _ _ idle ih =>
    obtain ⟨init, name, left, d, rfl, rch, look, rfl, get⟩ := ih h
    exact ⟨_ :: init, name, left, d, rfl, .idle (isIdle_iff.2 idle) rch, look, rfl, get⟩
  | case3 _ _ _ _ ih =>
    obtain ⟨init, name, left, d, rfl, rch, look, rfl, get⟩ := ih h
    exact ⟨_ :: init, name, left, d, rfl, .up rch, look, rfl, get⟩
  | case8 _ _ _ _ idle dots _ short _ get ih =>
    obtain ⟨init, name, left, d, rfl, rch, look, rfl, get'⟩ := ih h
    exact ⟨_ :: init, name, left, d, rfl, .down (.of_follow idle dots short) get rch, look, rfl, get'⟩
  | case9 _ _ _ idle dots short _ _ get _ =>
    simp only [Except.ok.injEq, Place.present.injEq, Entry.file.injEq] at h
    obtain ⟨e, rfl⟩ := h
    exact ⟨[], _, _, _, rfl, .nil, .of_follow idle dots short, e.symm, get⟩
  | case13 part parts dir idle dots _ short _ target get last _ ih =>
    obtain ⟨init, name, left, d, e, rch, look, rfl, get'⟩ := ih h
    -- the link is not the last part, so the last part comes from behind it
    obtain rfl | ⟨parts, name', rfl⟩ := List.eq_nil_or_concat parts
    · exact absurd ⟨rfl, rfl⟩ last
    · rw [List.concat_eq_append, ← List.append_assoc] at e
      obtain ⟨rfl, same⟩ := List.append_inj' e rfl
      obtain rfl := List.singleton_inj.1 same
      exact ⟨part :: parts, name', left, d, by simp, .link (.of_follow idle dots short) get rch, look,
        rfl, get'⟩
  | _ => simp at h

/-- A path that leads to an entry names one, if a link at its end is not followed. -/
lemma follow_inspect_of_use {tree : FileTree} {links parts dir l e}
    (h : tree.follow .use links parts dir = .ok (.present l e)) :
    ∃ l' e', tree.follow .inspect links parts dir = .ok (.present l' e') := by
  fun_induction follow tree .use links parts dir with
  | case1 => exact ⟨_, _, follow.eq_1 ..⟩
  | case2 _ _ _ _ idle ih =>
    rw [follow.eq_2, if_pos idle]
    exact ih h
  | case3 _ _ _ _ ih =>
    rw [follow.eq_2, if_neg (by decide), if_pos rfl]
    exact ih h
  | case8 _ _ _ _ idle dots _ short _ get ih =>
    rw [follow_cons (.of_follow idle dots short) (by simp [Purpose.mayMake]), get]
    exact ih h
  | case9 _ _ _ idle dots short _ _ get _ =>
    rw [follow_cons (.of_follow idle dots short) (by simp [Purpose.mayMake]), get]
    exact ⟨_, _, if_pos rfl⟩
  | case13 part parts dir idle dots _ short _ target get last _ ih =>
    rw [follow_cons (.of_follow idle dots short) (by simp [Purpose.mayMake]), get]
    cases parts with
    | nil => exact ⟨_, _, if_pos ⟨rfl, rfl⟩⟩
    | cons part parts => simpa using ih h
  | _ => simp [Purpose.followsLast] at *

/-! ## Paths of directories -/

/-- The steps of a path lead where its directory parts lead. -/
lemma reaches_steps {tree links left dir l} (p : Path) :
    Reaches tree links (steps p.text) dir left l ↔ Reaches tree links p.dirParts dir left l := by
  unfold steps Path.dirParts
  by_cases e : p.text = []
  · simp [e, Path.split]
  · by_cases e' : p.text.getLast? = some '/'
    · obtain ⟨pre, h⟩ := List.getLast?_eq_some_iff.1 e'
      have split : Path.split (pre ++ ['/']) = Path.split pre ++ [[]] := Path.split_append_sep pre []
      rw [if_pos e', if_neg e, if_pos e', reaches_append_idle (by simp [Path.isIdle]),
        reaches_filter, h, split, reaches_append_idle (by simp [Path.isIdle]), List.dropLast_concat]
    · rw [if_neg e', if_neg e, if_neg e', List.append_nil, reaches_filter]

/-- The steps of a joined path are the parts of its directory and the name. -/
lemma steps_join {p : Path} {n : Text} (ne : n ≠ []) (sep : '/' ∉ n) :
    steps (p.join n).text = p.dirParts.filter (· ≠ []) ++ [n] := by
  have last : (p.join n).text.getLast? ≠ some '/' := by
    rw [Path.join_text, List.getLast?_append_of_ne_nil _ ne]
    exact fun h => sep (List.mem_of_getLast? h)
  simp [steps, Path.split_join sep, last, ne]

/-- A joined path starts where its directory does. -/
lemma origin_join {p : Path} {n : Text} (ne : n ≠ []) (sep : '/' ∉ n) (here : Location) :
    origin (p.join n).text here = if p.dirParts.head? = some [] then [] else here := by
  rw [origin, Path.join_text]
  cases h : p.dirParts with
  | nil =>
    obtain ⟨c, n, rfl⟩ := List.exists_cons_of_ne_nil ne
    simp only [List.mem_cons, not_or] at sep
    simp [Path.slashed, Ne.symm sep.1]
  | cons a ps =>
    have sep_a : '/' ∉ a := Path.no_sep_of_mem_dirParts (h ▸ List.mem_cons_self)
    cases a with
    | nil => simp [Path.slashed]
    | cons c a =>
      simp only [List.mem_cons, not_or] at sep_a
      simp [Path.slashed, Ne.symm sep_a.1]

/-- A path starts at the top when it begins with a separator, and else in the working directory. -/
lemma origin_text (p : Path) (here : Location) :
    origin p.text here = if p.dirParts.head? = some [] then [] else here := by
  rw [← origin_join (n := ['x']) (by simp) (by simp)]
  unfold Path.join origin
  cases h : p.text with
  | nil => simp
  | cons c t => by_cases last : (c :: t).getLast? = some '/' <;> simp [last]

/-- A path opens a directory when its directory parts reach it. -/
def Opens (tree : FileTree) (p : Path) (dir : Location) : Prop :=
  ∃ left, Reaches tree maxLinks p.dirParts (origin p.text tree.workingDirectory) left dir

/-- A path that leads to a place can be spelled, and its steps are followed there. -/
lemma resolve_eq_ok {tree : FileTree} {purpose p place} :
    tree.resolve purpose p = .ok place ↔ checkSpelling p = .ok () ∧
      tree.follow purpose maxLinks (steps p.text) (origin p.text tree.workingDirectory) =
        .ok place := by
  unfold resolve
  cases checkSpelling p with
  | error e => simp
  | ok u => simp

/-- A path that leads to an entry can be spelled, and its steps are followed to the entry. -/
lemma stat_eq_ok {tree : FileTree} {purpose p l e} :
    tree.stat purpose p = .ok (l, e) ↔ checkSpelling p = .ok () ∧
      tree.follow purpose maxLinks (steps p.text) (origin p.text tree.workingDirectory) =
        .ok (.present l e) := by
  rw [← resolve_eq_ok, stat]
  cases tree.resolve purpose p with
  | error e => simp
  | ok place => cases place <;> simp

/-- A path that leads to a directory opens it. -/
lemma opens_of_stat {tree : FileTree} {purpose p l}
    (h : tree.stat purpose p = .ok (l, .directory)) : tree.Opens p l := by
  obtain ⟨left, rch⟩ := reaches_of_follow (stat_eq_ok.1 h).2
  exact ⟨left, (reaches_steps p).1 rch⟩

/-- A path that can be spelled leads to the directory that it opens. -/
lemma Opens.stat_use {tree : FileTree} {p l} (op : tree.Opens p l)
    (spelling : checkSpelling p = .ok ()) : tree.stat .use p = .ok (l, .directory) := by
  obtain ⟨left, rch⟩ := op
  exact stat_eq_ok.2 ⟨spelling, ((reaches_steps p).2 rch).follow_use⟩

/-- A path that opens a directory opens those in it, with their names joined. -/
lemma Opens.join {tree : FileTree} {p dir n} (op : tree.Opens p dir) (nm : Path.IsName n)
    (short : Text.byteLength n ≤ maxNameBytes) (get : tree.get? (dir ++ [n]) = some .directory) :
    tree.Opens (p.join n) (dir ++ [n]) := by
  obtain ⟨left, rch⟩ := op
  refine ⟨left, ?_⟩
  rw [origin_join nm.ne_nil nm.no_sep, ← origin_text, Path.dirParts_join nm]
  exact rch.append (.down ⟨nm.not_idle, nm.ne_dots, short⟩ get .nil)

/-- Two paths with the same directory parts up to idle ones at the end open the same directory. -/
lemma Opens.trim {tree : FileTree} {p d : Path} {dir idles} (op : tree.Opens p dir)
    (parts : p.dirParts = d.dirParts ++ idles) (idle : ∀ i ∈ idles, Path.isIdle i)
    (nil : d.dirParts = [] → p.dirParts = []) : tree.Opens d dir := by
  obtain ⟨left, rch⟩ := op
  refine ⟨left, ?_⟩
  have head : p.dirParts.head? = d.dirParts.head? := by
    cases h : d.dirParts with
    | nil => rw [nil h]
    | cons a ps => simp [parts, h]
  rw [parts, reaches_append_idle idle, origin_text, head] at rch
  rwa [origin_text]

/-! ## Paths of entries -/

/-- A path spells the entry `name` of the directory `dir`: it is joined from a path that opens the
directory and from the name. -/
def Spells (tree : FileTree) (p : Path) (dir : Location) (name : Text) : Prop :=
  ∃ d : Path, p = d.join name ∧ tree.Opens d dir ∧ Path.IsName name

/-- Two trees agree on ways when they have the same directories and links, and the same working
directory. -/
structure SameWays (tree tree' : FileTree) : Prop where
  here : tree'.workingDirectory = tree.workingDirectory
  keeps : ∀ l e, tree.get? l = some e → (∀ b, e ≠ .file b) → tree'.get? l = some e

/-- A path opens the same in a tree with the same ways. -/
lemma Opens.of_sameWays {tree tree' : FileTree} {p dir} (op : tree.Opens p dir)
    (same : SameWays tree tree') : tree'.Opens p dir := by
  obtain ⟨left, rch⟩ := op
  exact ⟨left, same.here ▸ rch.mono same.keeps⟩

namespace Spells

variable {tree tree' : FileTree} {p : Path} {dir : Location} {name : Text}

/-- A path spells the same in a tree with the same ways. -/
lemma of_sameWays (sp : tree.Spells p dir name) (same : SameWays tree tree') :
    tree'.Spells p dir name := by
  obtain ⟨d, e, op, nm⟩ := sp
  exact ⟨d, e, op.of_sameWays same, nm⟩

/-- The path of the backup spells the entry beside the source that has the suffix behind its name. -/
lemma pathOf {s : Text} (sp : tree.Spells p dir name) (ne : s ≠ []) (sep : '/' ∉ s) :
    tree.Spells (Backup.pathOf s p) dir (name ++ s) := by
  obtain ⟨d, rfl, op, nm⟩ := sp
  exact ⟨d, Path.append_join d name s, op, nm.append ne sep⟩

/-- The name of a path is that of the entry that it spells. -/
lemma fileName? (sp : tree.Spells p dir name) : p.fileName? = some name := by
  obtain ⟨d, rfl, _, nm⟩ := sp
  exact Path.fileName?_join nm

/-- A path leads where its name leads in its directory. -/
lemma resolve_eq (sp : tree.Spells p dir name) :
    ∃ left, ∀ purpose, tree.resolve purpose p =
      (checkSpelling p).bind fun _ => tree.follow purpose left [name] dir := by
  obtain ⟨d, rfl, ⟨left, rch⟩, nm⟩ := sp
  refine ⟨left, fun purpose => ?_⟩
  have e : [name] ≠ [[]] := by simp [nm.ne_nil]
  rw [resolve, steps_join nm.ne_nil nm.no_sep, origin_join nm.ne_nil nm.no_sep, ← origin_text,
    (reaches_filter.2 rch).follow_eq (by simp) e]
  rfl

end Spells

/-- Following a name leads to the entry of this name in the directory, or to the place for one. -/
lemma follow_name {tree : FileTree} {purpose left name dir} (nm : Path.IsName name)
    (short : Text.byteLength name ≤ maxNameBytes) :
    (tree.get? (dir ++ [name]) = none →
      tree.follow purpose left [name] dir = .ok (.vacant (dir ++ [name]))) ∧
    (∀ b, tree.get? (dir ++ [name]) = some (.file b) →
      tree.follow purpose left [name] dir = .ok (.present (dir ++ [name]) (.file b))) ∧
    (∀ e, purpose.followsLast = false → tree.get? (dir ++ [name]) = some e →
      tree.follow purpose left [name] dir = .ok (.present (dir ++ [name]) e)) := by
  have look : LooksUp name := ⟨nm.not_idle, nm.ne_dots, short⟩
  rw [follow_cons look (by simp)]
  refine ⟨fun get => ?_, fun b get => ?_, fun e unlinked get => ?_⟩
  · rw [get]
    exact if_pos rfl
  · rw [get]
    exact if_pos rfl
  · rw [get]
    cases e with
    | file b => exact if_pos rfl
    | directory => exact follow.eq_1 ..
    | link target => exact if_pos ⟨rfl, by rw [unlinked]; rfl⟩

/-- A name that is too long cannot be followed. -/
lemma follow_name_long {tree : FileTree} {purpose left name dir} (nm : Path.IsName name)
    (long : maxNameBytes < Text.byteLength name) :
    tree.follow purpose left [name] dir = .error .nameTooLong := by
  have idle : ¬ (name = [] ∨ name = ['.']) := by simp [nm.ne_nil, nm.ne_dot]
  rw [follow.eq_2, if_neg idle, if_neg nm.ne_dots, if_neg (by simp), if_pos long]

end FileTree

end Mender
