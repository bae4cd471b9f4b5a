import Mathlib.Data.List.DropRight
import Mathlib.Data.List.Infix
import Mathlib.Tactic.Common
import Mender.Backup

/-!
# Joined paths

The path of an entry is the path of its directory with the name of the entry joined to it. What is
spelled before the name is kept as the list of directory parts `dirParts`; the text of a joined path
is `slashed` of these parts followed by the name. The file name of a joined path is the name, its
parent has the same directory parts up to idle ones at the end (`parent?_join`), and the source of a
joined backup path is joined to such a parent (`sourceOf?_join`).
-/

namespace Mender.Path

/-- A text that can be the name of an entry. -/
structure IsName (n : Text) : Prop where
  ne_nil : n ≠ []
  ne_dot : n ≠ ['.']
  ne_dots : n ≠ ['.', '.']
  no_sep : '/' ∉ n

instance (n : Text) : Decidable (IsName n) :=
  decidable_of_iff (n ≠ [] ∧ n ≠ ['.'] ∧ n ≠ ['.', '.'] ∧ '/' ∉ n)
    ⟨fun ⟨a, b, c, d⟩ => ⟨a, b, c, d⟩, fun ⟨a, b, c, d⟩ => ⟨a, b, c, d⟩⟩

/-- A name is not idle. -/
lemma IsName.not_idle {n} (nm : IsName n) : isIdle n = false := by
  simp [isIdle, nm.ne_nil, nm.ne_dot]

/-- A name with text behind it is a name. -/
lemma IsName.append {n s} (nm : IsName n) (ne : s ≠ []) (sep : '/' ∉ s) : IsName (n ++ s) := by
  obtain ⟨a, n, rfl⟩ := List.exists_cons_of_ne_nil nm.ne_nil
  obtain ⟨b, s, rfl⟩ := List.exists_cons_of_ne_nil ne
  refine ⟨by simp, ?_, ?_, ?_⟩
  · cases n <;> simp
  · intro e
    cases n with
    | nil =>
      apply nm.ne_dot
      simp_all
    | cons c n => cases n <;> simp at e
  · have := nm.no_sep
    simp_all

/-! ## Splitting -/

/-- A path has at least one part. -/
lemma split_ne_nil (t : Text) : split t ≠ [] := by
  cases t with
  | nil => simp [split]
  | cons c t => rw [split]; split <;> (try split) <;> simp

/-- A text without separator is its only part. -/
lemma split_of_no_sep {t : Text} (sep : '/' ∉ t) : split t = [t] := by
  induction t with
  | nil => rfl
  | cons c t ih =>
    simp only [List.mem_cons, not_or] at sep
    simp [split, ih sep.2, Ne.symm sep.1]

/-- A separator parts what stands before it from what stands behind it. -/
lemma split_append_sep (a b : Text) : split (a ++ '/' :: b) = split a ++ split b := by
  induction a with
  | nil => simp [split]
  | cons c a ih =>
    by_cases e : c = '/'
    · simp [split, e, ih]
    · cases h : split a with
      | nil => exact absurd h (split_ne_nil a)
      | cons p ps => simp [split, e, ih, h]

/-- The parts of a path have no separator. -/
lemma no_sep_of_mem_split {t p : Text} (mem : p ∈ split t) : '/' ∉ p := by
  induction t generalizing p with
  | nil =>
    simp only [split, List.mem_singleton] at mem
    simp [mem]
  | cons c t ih =>
    rw [split] at mem
    split at mem
    · rcases List.mem_cons.1 mem with rfl | mem
      · simp
      · exact ih mem
    · next ne =>
      cases h : split t with
      | nil => exact absurd h (split_ne_nil t)
      | cons q qs =>
        rw [h] at mem ih
        rcases List.mem_cons.1 mem with rfl | mem
        · have sep : '/' ∉ q := ih List.mem_cons_self
          simp [sep, Ne.symm ne]
        · exact ih (List.mem_cons_of_mem _ mem)

/-- Parts that were joined are split into the same parts. -/
lemma split_unsplit {ps : List Text} (ne : ps ≠ []) (sep : ∀ p ∈ ps, '/' ∉ p) :
    split (unsplit ps) = ps := by
  induction ps with
  | nil => exact absurd rfl ne
  | cons p ps ih =>
    have sep_p := sep p List.mem_cons_self
    cases ps with
    | nil => simpa [unsplit, List.intercalate] using split_of_no_sep sep_p
    | cons q qs =>
      have e : unsplit (p :: q :: qs) = p ++ '/' :: unsplit (q :: qs) := by
        simp [unsplit, List.intercalate, List.intersperse]
      rw [e, split_append_sep, split_of_no_sep sep_p,
        ih (by simp) fun r mem => sep r (List.mem_cons_of_mem _ mem)]
      rfl

/-! ## Directory parts -/

/-- The parts of a path that are spelled before the name of an entry of it. -/
def dirParts (p : Path) : List Text :=
  if p.text = [] then []
  else if p.text.getLast? = some '/' then (split p.text).dropLast
  else split p.text

/-- Parts with a separator behind each. -/
def slashed (parts : List Text) : Text := parts.flatMap (· ++ ['/'])

/-- The directory parts of a path have no separator. -/
lemma no_sep_of_mem_dirParts {p : Path} {a : Text} (mem : a ∈ p.dirParts) : '/' ∉ a := by
  unfold dirParts at mem
  split at mem
  · cases mem
  · split at mem
    · exact no_sep_of_mem_split (List.dropLast_subset _ mem)
    · exact no_sep_of_mem_split mem

/-- The parts of a text with a separator behind each are the text with one at its end. -/
lemma slashed_split (t : Text) : slashed (split t) = t ++ ['/'] := by
  induction t with
  | nil => rfl
  | cons c t ih =>
    rw [split]
    split
    · next e =>
      rw [slashed, List.flatMap_cons, ← slashed, ih, e]
      rfl
    · cases h : split t with
      | nil => exact absurd h (split_ne_nil t)
      | cons p ps =>
        rw [h] at ih
        simpa [slashed] using ih

/-- A joined path is split into the directory parts and the name. -/
lemma split_join {p : Path} {n : Text} (sep : '/' ∉ n) :
    split (p.join n).text = p.dirParts ++ [n] := by
  unfold join dirParts
  by_cases e : p.text = []
  · simp [e, split_of_no_sep sep]
  · by_cases e' : p.text.getLast? = some '/'
    · obtain ⟨pre, h⟩ := List.getLast?_eq_some_iff.1 e'
      simp only [h, List.append_assoc, List.singleton_append, List.append_eq_nil_iff,
        List.cons_ne_self, and_false, if_false, List.getLast?_append, List.getLast?_singleton,
        Option.some_or, or_true, if_true, split_append_sep, split_of_no_sep sep]
      simp [split]
    · simp [e, e', split_append_sep, split_of_no_sep sep]

/-- A joined path is spelled as the directory parts, each with a separator, and the name. -/
lemma join_text (p : Path) (n : Text) : (p.join n).text = slashed p.dirParts ++ n := by
  unfold join dirParts
  by_cases e : p.text = []
  · simp [e, slashed]
  · by_cases e' : p.text.getLast? = some '/'
    · obtain ⟨pre, h⟩ := List.getLast?_eq_some_iff.1 e'
      have e : split (pre ++ ['/']) = split pre ++ [[]] := split_append_sep pre []
      simp [h, e, slashed_split]
    · simp [e, e', slashed_split]

/-- The directory parts of a joined path are those of its directory and the name. -/
lemma dirParts_join {p : Path} {n : Text} (nm : IsName n) :
    (p.join n).dirParts = p.dirParts ++ [n] := by
  have ne : (p.join n).text ≠ [] := by simp [join_text, nm.ne_nil]
  have last : (p.join n).text.getLast? ≠ some '/' := by
    rw [join_text, List.getLast?_append_of_ne_nil _ nm.ne_nil]
    exact fun h => nm.no_sep (List.mem_of_getLast? h)
  rw [← split_join nm.no_sep]
  simp [dirParts, ne, last]

/-- What is joined after a suffix was put behind the name is the name with the suffix. -/
lemma append_join (p : Path) (n s : Text) : (p.join n).append s = p.join (n ++ s) := by
  have h : ((p.join n).append s).text = (p.join (n ++ s)).text := by
    rw [join_text, append, join_text, List.append_assoc]
  exact congrArg Path.mk h

/-- Every path is joined from its directory and its last part. -/
lemma exists_join (p : Path) : ∃ (d : Path) (n : Text), p = d.join n ∧ '/' ∉ n := by
  obtain h | ⟨ps, n, h⟩ := List.eq_nil_or_concat (split p.text)
  · exact absurd h (split_ne_nil _)
  · rw [List.concat_eq_append] at h
    refine ⟨⟨slashed ps⟩, n, ?_, no_sep_of_mem_split (t := p.text) (by simp [h])⟩
    have text : slashed ps ++ n = p.text := by
      have e := slashed_split p.text
      rw [h] at e
      simpa [slashed, ← List.append_assoc] using e
    have last : slashed ps = [] ∨ (slashed ps).getLast? = some '/' := by
      obtain rfl | ⟨qs, a, rfl⟩ := List.eq_nil_or_concat ps
      · exact .inl rfl
      · simp [slashed]
    have : (join ⟨slashed ps⟩ n).text = p.text := by
      unfold join
      simp only [last, if_true]
      exact text
    exact (congrArg Path.mk this).symm

/-! ## Components of a joined path -/

/-- The lead of a joined path, and its body before the name, are those of the directory, whatever the name
is. -/
lemma lead_body_join_all (p : Path) : ∃ lead ps,
    (lead = none ∧ ps = p.dirParts ∧ (∀ a ∈ p.dirParts.head?, isIdle a = false) ∨
      lead = some .root ∧ p.dirParts = [] :: ps ∨ lead = some .current ∧ p.dirParts = ['.'] :: ps) ∧
    ∀ n, IsName n → (p.join n).lead = lead ∧ (p.join n).body = ps ++ [n] := by
  have e : ∀ {n}, IsName n → split (p.join n).text = p.dirParts ++ [n] := fun nm => split_join nm.no_sep
  cases parts : p.dirParts with
  | nil =>
    refine ⟨none, [], .inl ⟨rfl, rfl, nofun⟩, fun n nm => ?_⟩
    have lead : (p.join n).lead = none := by
      have := nm.ne_dot
      simp only [lead, e nm, parts, List.nil_append]
      split <;> simp_all
    exact ⟨lead, by simp [lead, body, e nm, parts]⟩
  | cons a ps =>
    rw [parts] at e
    -- only the first part decides the lead: nothing before the first separator, a dot, or a part of the path
    by_cases h : a = []
    · subst h
      refine ⟨some .root, ps, .inr (.inl ⟨rfl, rfl⟩), fun n nm => ?_⟩
      have lead : (p.join n).lead = some .root := by
        rw [lead, e nm]
        cases ps <;> rfl
      exact ⟨lead, by simp [body, lead, e nm]⟩
    · by_cases h' : a = ['.']
      · subst h'
        refine ⟨some .current, ps, .inr (.inr ⟨rfl, rfl⟩), fun n nm => ?_⟩
        have lead : (p.join n).lead = some .current := by
          rw [lead, e nm]
          rfl
        exact ⟨lead, by simp [body, lead, e nm]⟩
      · refine ⟨none, a :: ps, .inl ⟨rfl, rfl, by simp [isIdle, h, h']⟩, fun n nm => ?_⟩
        have lead : (p.join n).lead = none := by
          rw [lead, e nm]
          split <;> simp_all
        exact ⟨lead, by simp [lead, body, e nm]⟩

/-- The lead and the body of a joined path, by what its directory parts begin with. -/
lemma lead_body_join {p : Path} {n : Text} (nm : IsName n) :
    ((p.join n).lead = none ∧ (p.join n).body = p.dirParts ++ [n] ∧
      ∀ a ∈ p.dirParts.head?, isIdle a = false) ∨
    ∃ ps, ((p.join n).lead = some .root ∧ p.dirParts = [] :: ps ∨
        (p.join n).lead = some .current ∧ p.dirParts = ['.'] :: ps) ∧
      (p.join n).body = ps ++ [n] := by
  obtain ⟨lead, ps, parts, all⟩ := lead_body_join_all p
  obtain ⟨rfl, body⟩ := all n nm
  obtain ⟨none, rfl, head⟩ | some := parts
  · exact .inl ⟨none, body, head⟩
  · exact .inr ⟨ps, some, body⟩

/-- The name of a joined path is the one that was joined. -/
lemma fileName?_join {p : Path} {n : Text} (nm : IsName n) : (p.join n).fileName? = some n := by
  have body : ∃ ps, (p.join n).body = ps ++ [n] := by
    obtain ⟨_, h, _⟩ | ⟨ps, _, h⟩ := lead_body_join (p := p) nm
    · exact ⟨_, h⟩
    · exact ⟨_, h⟩
  obtain ⟨ps, h⟩ := body
  simp [fileName?, components, h, List.filter_append, nm.not_idle, ofPart, nm.ne_dots]

/-! ## Parents and sources -/

/-- Trimming takes idle parts off the end, and stops at a part that is not idle. -/
lemma trimParts_spec (ps : List Text) :
    ∃ idles, ps = trimParts ps ++ idles ∧ (∀ i ∈ idles, isIdle i) ∧
      (trimParts ps = [] ∨ ∃ qs a, trimParts ps = qs ++ [a] ∧ isIdle a = false) := by
  refine ⟨ps.rtakeWhile isIdle, ?_, fun i mem => List.mem_rtakeWhile_imp mem, ?_⟩
  · exact List.rdropWhile_append_rtakeWhile.symm
  · rcases List.eq_nil_or_concat (trimParts ps) with h | ⟨qs, a, h⟩
    · exact .inl h
    · rw [List.concat_eq_append] at h
      have ne : ps.rdropWhile isIdle ≠ [] := by
        change trimParts ps ≠ []
        simp [h]
      have last := List.rdropWhile_last_not isIdle ps ne
      have e : (ps.rdropWhile isIdle).getLast ne = a := by
        have h : ps.rdropWhile isIdle = qs ++ [a] := h
        simp [h]
      rw [e] at last
      exact .inr ⟨qs, a, h, by simpa using last⟩

/-- Trimming brings no new parts. -/
lemma mem_of_mem_trimParts {ps : List Text} {a : Text} (mem : a ∈ trimParts ps) : a ∈ ps :=
  (List.rdropWhile_prefix isIdle ps).subset mem

/-- The directory parts of a path that does not end in a separator are all its parts. -/
lemma dirParts_of_split {t a : Text} {ps : List Text} (h : split t = ps ++ [a]) (ne : a ≠ []) :
    dirParts ⟨t⟩ = ps ++ [a] := by
  have not_nil : t ≠ [] := by
    rintro rfl
    cases ps <;> simp_all [split]
  have not_sep : t.getLast? ≠ some '/' := by
    intro last
    obtain ⟨pre, rfl⟩ := List.getLast?_eq_some_iff.1 last
    rw [split_append_sep] at h
    exact ne (List.append_inj_right' h rfl |> List.singleton_inj.1).symm
  simp [dirParts, not_nil, not_sep, h]

/-- The directory parts of the text made of a lead and of parts that end in none that is idle. -/
lemma dirParts_spell {ps : List Text} (sep : ∀ a ∈ ps, '/' ∉ a)
    (last : ps = [] ∨ ∃ qs a, ps = qs ++ [a] ∧ isIdle a = false) :
    dirParts ⟨spell none ps⟩ = ps ∧ dirParts ⟨spell (some .root) ps⟩ = [] :: ps ∧
      dirParts ⟨spell (some .current) ps⟩ = ['.'] :: ps := by
  rcases last with rfl | ⟨qs, a, rfl, idle⟩
  · exact ⟨rfl, rfl, rfl⟩
  · have ne : a ≠ [] := by
      rintro rfl
      simp [isIdle] at idle
    have h := split_unsplit (by simp) sep
    refine ⟨dirParts_of_split h ne, ?_, ?_⟩
    · rw [← List.cons_append]
      refine dirParts_of_split ?_ ne
      change split ([] ++ '/' :: unsplit (qs ++ [a])) = _
      rw [split_append_sep, h]
      rfl
    · have e : spell (some .current) (qs ++ [a]) = ['.'] ++ '/' :: unsplit (qs ++ [a]) := by
        cases qs <;> rfl
      rw [← List.cons_append, e]
      refine dirParts_of_split ?_ ne
      rw [split_append_sep, h]
      rfl

/-- The parent of a joined path is spelled with what comes before the name, less idle parts at the end. -/
lemma parent?_of_body {p : Path} {n : Text} {ps : List Text} (nm : IsName n)
    (body : (p.join n).body = ps ++ [n]) :
    (p.join n).parent? = some ⟨spell (p.join n).lead (trimParts ps)⟩ := by
  have trim : trimParts (ps ++ [n]) = ps ++ [n] :=
    List.rdropWhile_concat_neg isIdle ps n (by simp [nm.not_idle])
  rw [parent?, body, trim]
  split
  · simp_all
  · simp_all
  · rw [List.dropLast_concat]

/-- The entries of a directory have the same parent, whatever their names are. -/
lemma parent?_join_congr (p : Path) {n m : Text} (nm : IsName n) (nm' : IsName m) :
    (p.join n).parent? = (p.join m).parent? := by
  obtain ⟨lead, ps, _, all⟩ := lead_body_join_all p
  obtain ⟨lead_n, body_n⟩ := all n nm
  obtain ⟨lead_m, body_m⟩ := all m nm'
  rw [parent?_of_body nm body_n, parent?_of_body nm' body_m, lead_n, lead_m]

/-- The parent of a joined path has the directory parts that were joined to, less idle ones at the
end. -/
lemma parent?_join {p : Path} {n : Text} (nm : IsName n) :
    ∃ d idles, (p.join n).parent? = some d ∧ p.dirParts = d.dirParts ++ idles ∧
      (∀ i ∈ idles, isIdle i) ∧ (d.dirParts = [] → p.dirParts = []) := by
  obtain ⟨lead, body, head⟩ | ⟨ps, lead, body⟩ := lead_body_join (p := p) nm
  · obtain ⟨idles, e, idle, last⟩ := trimParts_spec p.dirParts
    have sep : ∀ a ∈ trimParts p.dirParts, '/' ∉ a := fun a mem =>
      no_sep_of_mem_dirParts (mem_of_mem_trimParts mem)
    refine ⟨_, idles, parent?_of_body nm body, ?_, idle, ?_⟩
    · rw [lead, (dirParts_spell sep last).1, ← e]
    · rw [lead, (dirParts_spell sep last).1]
      intro h
      rw [h, List.nil_append] at e
      cases he : p.dirParts with
      | nil => rfl
      | cons a qs =>
        rw [he] at e head
        have := idle a (e ▸ List.mem_cons_self)
        simp [head a rfl] at this
  · obtain ⟨idles, e, idle, last⟩ := trimParts_spec ps
    have sep : ∀ a ∈ trimParts ps, '/' ∉ a := by
      intro a mem
      have mem' := mem_of_mem_trimParts mem
      rcases lead with ⟨_, h⟩ | ⟨_, h⟩ <;>
        exact no_sep_of_mem_dirParts (h ▸ List.mem_cons_of_mem _ mem')
    rcases lead with ⟨lead, h⟩ | ⟨lead, h⟩
    · refine ⟨_, idles, parent?_of_body nm body, ?_, idle, ?_⟩
      · rw [lead, (dirParts_spell sep last).2.1, h, List.cons_append, ← e]
      · rw [lead, (dirParts_spell sep last).2.1]
        exact nofun
    · refine ⟨_, idles, parent?_of_body nm body, ?_, idle, ?_⟩
      · rw [lead, (dirParts_spell sep last).2.2, h, List.cons_append, ← e]
      · rw [lead, (dirParts_spell sep last).2.2]
        exact nofun

/-- The source of a joined backup path stands in the same directory, up to idle parts at the end. -/
lemma sourceOf?_append {p : Path} {n s : Text} (nms : IsName (n ++ s)) (ne : n ≠ []) :
    ∃ (d : Path) (idles : List Text), Backup.sourceOf? s (p.join (n ++ s)) = some (d.join n) ∧
      p.dirParts = d.dirParts ++ idles ∧ (∀ i ∈ idles, isIdle i) ∧
      (d.dirParts = [] → p.dirParts = []) := by
  obtain ⟨d, idles, parent, e, idle, nil⟩ := parent?_join (p := p) nms
  refine ⟨d, idles, ?_, e, idle, nil⟩
  have suffix : Backup.withoutSuffix? s (n ++ s) = some n := by
    simp [Backup.withoutSuffix?]
  simp only [Backup.sourceOf?, withFileName, fileName?_join nms, parent, suffix,
    Option.bind_eq_bind, Option.bind_some, Option.isSome_some, if_true, Option.getD_some]

/-- The source of a backup is spelled with the same directory, up to idle parts, and the name of the source.
-/
lemma sourceOf?_join {p : Path} {n s : Text} (nm : IsName n) (ne : s ≠ []) (sep : '/' ∉ s) :
    ∃ (d : Path) (idles : List Text), Backup.sourceOf? s (p.join (n ++ s)) = some (d.join n) ∧
      p.dirParts = d.dirParts ++ idles ∧ (∀ i ∈ idles, isIdle i) ∧
      (d.dirParts = [] → p.dirParts = []) :=
  sourceOf?_append (nm.append ne sep) nm.ne_nil

/-- The name of a backup that has a source is the suffix with something before it. -/
lemma append_of_sourceOf? {p q : Path} {n s : Text} (src : Backup.sourceOf? s p = some q)
    (nm : p.fileName? = some n) : ∃ m, m ≠ [] ∧ n = m ++ s := by
  simp only [Backup.sourceOf?, nm, Backup.withoutSuffix?, Option.bind_eq_bind, Option.bind_some] at src
  split at src
  · next h =>
    obtain ⟨m, rfl⟩ := List.isSuffixOf_iff_suffix.1 h
    refine ⟨m, ?_, rfl⟩
    rintro rfl
    simp at src
  · cases src

/-- The name of a backup ends with the suffix. -/
lemma suffix_of_sourceOf? {p q : Path} {n s : Text} (src : Backup.sourceOf? s p = some q)
    (nm : p.fileName? = some n) : s <:+ n := by
  obtain ⟨m, _, eq⟩ := append_of_sourceOf? src nm
  exact ⟨m, eq.symm⟩

end Mender.Path
