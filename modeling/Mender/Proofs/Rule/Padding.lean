import Mender.Proofs.Results
import Mender.Proofs.Text.Occurrence
import Mender.Rule.DebugGuard

/-!
# Padded texts

A guarded text is the text itself, padded with directive lines around some of its statement lines. The
relation `Pads` goes through both texts side by side. Between two directive lines the texts agree
character by character, so words are read alike in both (`Pads.keyword`), blanks lead to the same place or
to a statement that has a directive before it (`Pads.blanks`), and the texts can be cut at the same
characters (`Pads.splitAt?`). A word that has a character of its own is in both texts or in none
(`Pads.infix_iff`).
-/

namespace Mender.Rule.DebugGuard

open Text

/-! ## Statement lines -/

/-- The ends of a statement line are blank. -/
structure Statement.Tidy (s : Statement) : Prop where
  indent : ∀ c ∈ s.indent, isBlank c = true
  carriage : s.carriage = [] ∨ s.carriage = ['\r']

/-- What every statement line begins with behind its indentation. -/
def head : Text := call ++ ['(']

/-- A statement line is the call with its parentheses and a semicolon, between tidy ends. -/
lemma statement?_eq_some {line : Text} {s : Statement} (st : statement? line = some s) :
    s.Tidy ∧ ∃ x, line = s.indent ++ (head ++ (x ++ ')' :: ';' :: s.carriage)) := by
  simp only [statement?, Option.bind_eq_bind, Option.bind_eq_some_iff, after?_eq_some_iff] at st
  obtain ⟨body, front, rest, back, st⟩ := st
  split at st
  · next carriage =>
    obtain rfl := Option.some.inj st
    refine ⟨⟨fun c mem => List.mem_takeWhile_imp mem, carriage⟩, body.takeWhile (· ≠ ')'), ?_⟩
    have e := List.takeWhile_append_dropWhile (p := (· ≠ ')')) (l := body)
    rw [back] at e
    calc line = line.takeWhile isBlank ++ line.dropWhile isBlank :=
          List.takeWhile_append_dropWhile.symm
      _ = line.takeWhile isBlank ++ (head ++ body) := by rw [front]; rfl
      _ = _ := congrArg (fun b => line.takeWhile isBlank ++ (head ++ b)) e.symm
  · cases st

/-! ## The relation -/

/-- Where one is in a text that is padded: outside of the padded lines, at the start of a line or not;
or inside of one, before its last semicolon or behind it. -/
inductive Mode where
  | outer (fresh : Bool)
  | inner (s : Statement) (solid : Bool)

/-- The second text is the first one, padded with directive lines. Both may end early. -/
inductive Pads : Mode → Text → Text → Prop where
  | nil {m} :
    Pads m [] []
  | keep {fresh c t t'} :
    Pads (.outer (c == '\n')) t t' →
    Pads (.outer fresh) (c :: t) (c :: t')
  | opening {s t t'} :
    s.Tidy →
    s.indent ++ head <+: t →
    Pads (.inner s true) t t' →
    Pads (.outer true) t (s.opening ++ '\n' :: t')
  | solid {s c t t'} :
    c ≠ '\n' →
    Pads (.inner s true) t t' →
    Pads (.inner s true) (c :: t) (c :: t')
  | semicolon {s t t'} :
    Pads (.inner s false) t t' →
    Pads (.inner s true) (';' :: t) (';' :: t')
  | carriage {s t t'} :
    Pads (.inner s false) t t' →
    Pads (.inner s false) ('\r' :: t) ('\r' :: t')
  | closing {s t t'} :
    s.Tidy →
    (∀ c ∈ t.head?, c = '\n') →
    Pads (.outer false) t t' →
    Pads (.inner s false) t ('\n' :: (s.closing ++ t'))

/-- No directive line comes here, nor behind the blanks that come here unless a statement does. -/
def Mode.Calm : Mode → Prop
  | .outer fresh => fresh = false
  | .inner _ solid => solid = true

/-- Not behind the last semicolon of a padded line. -/
def Mode.Steady : Mode → Prop
  | .outer _ => True
  | .inner _ solid => solid = true

/-- Where no directive line comes one is not behind a last semicolon. -/
lemma Mode.Calm.steady {m : Mode} (calm : m.Calm) : m.Steady := by
  cases m with
  | outer _ => trivial
  | inner _ _ => exact calm

/-- The texts go on from places where no directive line comes. -/
def Resumes (t t' : Text) : Prop := ∃ m : Mode, m.Calm ∧ Pads m t t'

namespace Pads

variable {m : Mode} {s : Statement} {c : Char} {t t' u u' w : Text}

/-! ## Reading characters -/

/-- A character that is not blank and begins no directive or statement. -/
def Plain (c : Char) : Prop := isBlank c = false ∧ c ≠ 'C' ∧ c ≠ '#'

instance : DecidablePred Plain := fun c =>
  inferInstanceAs (Decidable (isBlank c = false ∧ c ≠ 'C' ∧ c ≠ '#'))

/-- The line above a guarded statement begins with a blank or with the sign of a directive. -/
lemma head?_opening (tidy : s.Tidy) (z : Text) :
    ∃ c, (s.opening ++ z).head? = some c ∧ (isBlank c = true ∨ c = '#') := by
  unfold Statement.opening
  cases h : s.indent with
  | nil => exact ⟨'#', rfl, .inr rfl⟩
  | cons d indent => exact ⟨d, rfl, .inl (tidy.indent d (h ▸ List.mem_cons_self))⟩

/-- A statement begins with a blank or with the first letter of the call. -/
lemma head?_statement (tidy : s.Tidy) (pre : s.indent ++ head <+: c :: t) :
    isBlank c = true ∨ c = 'C' := by
  cases h : s.indent with
  | nil =>
    rw [h] at pre
    exact .inr (List.cons_prefix_cons.1 pre).1.symm
  | cons d indent =>
    rw [h] at pre
    obtain ⟨rfl, _⟩ := List.cons_prefix_cons.1 pre
    exact .inl (tidy.indent d (h ▸ List.mem_cons_self))

/-- Where no directive line comes the texts go on with the same character. -/
lemma head?_eq (pads : Pads m t t') (calm : m.Calm) : t.head? = t'.head? := by
  cases pads with
  | nil => rfl
  | keep _ => rfl
  | opening _ _ _ => cases calm
  | solid _ _ => rfl
  | semicolon _ => rfl
  | carriage _ => rfl
  | closing _ _ _ => cases calm

/-- A character that is read in the first text is read in the second one, if no directive line can come
before it. -/
lemma read (pads : Pads m (c :: t) u') (at_c : m.Calm ∨ Plain c) (nl : c ≠ '\n') (sc : c ≠ ';') :
    ∃ t', u' = c :: t' ∧ Resumes t t' := by
  cases pads with
  | keep pads => exact ⟨_, rfl, .outer _, beq_false_of_ne nl, pads⟩
  | opening tidy pre _ =>
    rcases at_c with calm | plain
    · cases calm
    · rcases head?_statement tidy pre with blank | rfl
      · exact absurd (blank.symm.trans plain.1) (by decide)
      · exact absurd rfl plain.2.1
  | solid _ pads => exact ⟨_, rfl, .inner _ _, rfl, pads⟩
  | semicolon _ => exact absurd rfl sc
  | carriage _ =>
    rcases at_c with calm | plain
    · cases calm
    · exact absurd plain.1 (by decide)
  | closing _ head _ => exact absurd (head c rfl) nl

/-- A character that is read in the second text is read in the first one. -/
lemma read' (pads : Pads m u (c :: t')) (at_c : m.Calm ∨ Plain c) (nl : c ≠ '\n') (sc : c ≠ ';') :
    ∃ t, u = c :: t ∧ Resumes t t' := by
  generalize e : c :: t' = v at pads
  cases pads with
  | nil => cases e
  | keep pads =>
    obtain ⟨rfl, rfl⟩ := List.cons_eq_cons.1 e
    exact ⟨_, rfl, .outer _, beq_false_of_ne nl, pads⟩
  | @opening s _ t'' tidy _ _ =>
    rcases at_c with calm | plain
    · cases calm
    · obtain ⟨d, h, blank⟩ := head?_opening tidy ('\n' :: t'')
      rw [← e] at h
      obtain rfl := Option.some.inj h
      rcases blank with blank | rfl
      · exact absurd (blank.symm.trans plain.1) (by decide)
      · exact absurd rfl plain.2.2
  | solid _ pads =>
    obtain ⟨rfl, rfl⟩ := List.cons_eq_cons.1 e
    exact ⟨_, rfl, .inner _ _, rfl, pads⟩
  | semicolon _ =>
    obtain ⟨rfl, rfl⟩ := List.cons_eq_cons.1 e
    exact absurd rfl sc
  | carriage _ =>
    obtain ⟨rfl, rfl⟩ := List.cons_eq_cons.1 e
    rcases at_c with calm | plain
    · cases calm
    · exact absurd plain.1 (by decide)
  | closing _ _ _ =>
    obtain ⟨rfl, _⟩ := List.cons_eq_cons.1 e
    exact absurd rfl nl

/-- The characters of a word keep it on its line and off the end of a statement. -/
def Wordlike (w : Text) : Prop := ∀ c ∈ w, c ≠ '\n' ∧ c ≠ ';'

/-- A word that no directive and no statement begins with. -/
def Keyword (w : Text) : Prop := (∃ d ∈ w.head?, Plain d) ∧ Wordlike w

-- decided along the word: there are other instances that go through all characters
instance : DecidablePred Wordlike := List.decidableBAll fun c => c ≠ '\n' ∧ c ≠ ';'

instance : DecidablePred Keyword := fun w =>
  @instDecidableAnd _ _ (Option.decidableExistsMem w.head?) inferInstance

/-- A word is read alike in both texts where no directive line comes. -/
lemma after?_of_calm (word : Wordlike w) (res : Resumes t t') :
    Option.Rel Resumes (after? w t) (after? w t') := by
  induction w generalizing t t' with
  | nil => exact .some res
  | cons d w ih =>
    obtain ⟨nl, sc⟩ := word d List.mem_cons_self
    obtain ⟨m, calm, pads⟩ := res
    have word := fun c mem => word c (List.mem_cons_of_mem _ mem)
    cases t with
    | nil =>
      cases t' with
      | nil => exact .none
      | cons c t' => exact absurd (pads.head?_eq calm) nofun
    | cons c t =>
      rw [after?]
      split
      · next same =>
        subst same
        obtain ⟨t', rfl, res⟩ := pads.read (.inl calm) nl sc
        rw [after?, if_pos rfl]
        exact ih word res
      · next differ =>
        have head := pads.head?_eq calm
        cases t' with
        | nil => cases head
        | cons c' t' =>
          obtain rfl := Option.some.inj head
          rw [after?, if_neg differ]
          exact .none

/-- A keyword is read alike in both texts wherever one is. -/
lemma keyword (pads : Pads m t t') (key : Keyword w) :
    Option.Rel Resumes (after? w t) (after? w t') := by
  obtain ⟨⟨d, front, plain⟩, word⟩ := key
  obtain ⟨w, rfl⟩ := List.head?_eq_some_iff.1 front
  obtain ⟨nl, sc⟩ := word d List.mem_cons_self
  have rest : ∀ {u u'}, Resumes u u' → Option.Rel Resumes (after? w u) (after? w u') :=
    after?_of_calm fun c mem => word c (List.mem_cons_of_mem _ mem)
  by_cases front : ∃ u, t = d :: u
  · obtain ⟨u, rfl⟩ := front
    obtain ⟨u', rfl, res⟩ := pads.read (.inr plain) nl sc
    rw [after?, if_pos rfl, after?, if_pos rfl]
    exact rest res
  · have miss : ∀ {v : Text}, (¬ ∃ u, v = d :: u) → after? (d :: w) v = none := by
      intro v front
      cases v with
      | nil => rfl
      | cons c v =>
        rw [after?, if_neg]
        rintro rfl
        exact front ⟨v, rfl⟩
    have front' : ¬ ∃ u', t' = d :: u' := by
      rintro ⟨u', rfl⟩
      obtain ⟨u, rfl, _⟩ := pads.read' (.inr plain) nl sc
      exact front ⟨u, rfl⟩
    rw [miss front, miss front']
    exact .none

/-! ## Reading blanks -/

/-- The first text goes on with a statement, and the second one with the directive before it. -/
def Off (v v' : Text) : Prop :=
  head <+: v ∧ ∃ cr z, (cr = [] ∨ cr = ['\r']) ∧ v' = "#if DEBUG".toList ++ (cr ++ '\n' :: z)

/-- Blanks in front are trimmed. -/
lemma trimStart_append_of_blank {a b : Text} (blank : ∀ c ∈ a, isBlank c = true) :
    trimStart (a ++ b) = trimStart b :=
  List.dropWhile_append_of_pos blank

/-- Blanks lead to the same place, or to a statement in the one text and the directive before it in the
other. -/
lemma blanks (pads : Pads m t t') (steady : m.Steady) :
    (t.takeWhile isBlank = t'.takeWhile isBlank ∧ Resumes (trimStart t) (trimStart t')) ∨
      Off (trimStart t) (trimStart t') := by
  induction pads with
  | nil => exact .inl ⟨rfl, .outer false, rfl, .nil⟩
  | @keep _ c t t' pads ih =>
    cases blank : isBlank c with
    | true =>
      simp only [trimStart, List.takeWhile_cons_of_pos blank, List.dropWhile_cons_of_pos blank]
      exact (ih trivial).imp (fun h => ⟨by rw [h.1], h.2⟩) id
    | false =>
      simp only [trimStart, List.takeWhile_cons, List.dropWhile_cons, blank]
      exact .inl ⟨rfl, .outer false, rfl, .keep pads⟩
  -- the only place where the two texts part: blanks end at a statement here, at its directive there
  | @opening s t t' tidy pre pads _ =>
    right
    obtain ⟨z, rfl⟩ := pre
    have front : trimStart (s.indent ++ head ++ z) = head ++ z := by
      rw [List.append_assoc, trimStart_append_of_blank tidy.indent]
      rfl
    have front' : trimStart (s.opening ++ '\n' :: t') =
        "#if DEBUG".toList ++ (s.carriage ++ '\n' :: t') := by
      rw [Statement.opening, List.append_assoc, List.append_assoc,
        trimStart_append_of_blank tidy.indent]
      rfl
    rw [front, front']
    exact ⟨List.prefix_append _ _, s.carriage, t', tidy.carriage, rfl⟩
  | @solid s c t t' nl pads ih =>
    cases blank : isBlank c with
    | true =>
      simp only [trimStart, List.takeWhile_cons_of_pos blank, List.dropWhile_cons_of_pos blank]
      exact (ih rfl).imp (fun h => ⟨by rw [h.1], h.2⟩) id
    | false =>
      simp only [trimStart, List.takeWhile_cons, List.dropWhile_cons, blank]
      exact .inl ⟨rfl, .inner s true, rfl, .solid nl pads⟩
  | @semicolon s t t' pads _ => exact .inl ⟨rfl, .inner s true, rfl, .semicolon pads⟩
  | carriage _ _ => cases steady
  | closing _ _ _ _ => cases steady

/-- What comes behind blanks in both texts. -/
def Tight (v v' : Text) : Prop := Resumes v v' ∨ Off v v'

/-- Trimming two texts that go on together leaves texts that go on behind blanks. -/
lemma tight_trimStart (res : Resumes t t') : Tight (trimStart t) (trimStart t') := by
  obtain ⟨m, calm, pads⟩ := res
  exact (pads.blanks calm.steady).imp And.right id

/-- Where two texts go on together, blanks are read in both or in none. -/
lemma afterBlanks? (res : Resumes t t') : Option.Rel Tight (afterBlanks? t) (afterBlanks? t') := by
  obtain ⟨m, calm, pads⟩ := res
  unfold Text.afterBlanks?
  rw [← pads.head?_eq calm]
  split
  · exact .some (tight_trimStart ⟨m, calm, pads⟩)
  · exact .none

/-- Behind blanks a keyword is read in both texts or in none. -/
lemma after?_of_tight (tight : Tight t t') (key : Keyword w) :
    Option.Rel Resumes (after? w t) (after? w t') := by
  rcases tight with ⟨m, calm, pads⟩ | ⟨⟨z, rfl⟩, cr, z', _, rfl⟩
  · exact pads.keyword key
  · -- the one text begins with the call, the other with the directive
    obtain ⟨⟨d, front, plain⟩, _⟩ := key
    obtain ⟨w, rfl⟩ := List.head?_eq_some_iff.1 front
    have call : after? (d :: w) (head ++ z) = none := if_neg plain.2.1
    have directive : after? (d :: w) ("#if DEBUG".toList ++ (cr ++ '\n' :: z')) = none :=
      if_neg plain.2.2
    rw [call, directive]
    exact .none

/-- What a class of characters takes is taken alike from both texts, if it keeps to the line. -/
lemma takeWhile_eq {p : Char → Bool} (nl : p '\n' = false) (sc : p ';' = false) (res : Resumes t t') :
    t.takeWhile p = t'.takeWhile p ∧ Resumes (t.dropWhile p) (t'.dropWhile p) := by
  induction t generalizing t' with
  | nil =>
    obtain ⟨m, calm, pads⟩ := res
    cases t' with
    | nil => exact ⟨rfl, m, calm, pads⟩
    | cons c t' => exact absurd (pads.head?_eq calm) nofun
  | cons c t ih =>
    obtain ⟨m, calm, pads⟩ := res
    cases taken : p c with
    | true =>
      have nl' : c ≠ '\n' := by
        rintro rfl
        rw [nl] at taken
        cases taken
      have sc' : c ≠ ';' := by
        rintro rfl
        rw [sc] at taken
        cases taken
      -- neither text has padding right before this character, so both go on with it
      obtain ⟨t', rfl, res⟩ := pads.read (.inl calm) nl' sc'
      obtain ⟨same, rest⟩ := ih res
      rw [List.takeWhile_cons_of_pos taken, List.takeWhile_cons_of_pos taken,
        List.dropWhile_cons_of_pos taken, List.dropWhile_cons_of_pos taken, same]
      exact ⟨rfl, rest⟩
    | false =>
      have head := pads.head?_eq calm
      cases t' with
      | nil => cases head
      | cons c' t' =>
        obtain rfl := Option.some.inj head
        simp only [List.takeWhile_cons, List.dropWhile_cons, taken]
        exact ⟨rfl, m, calm, pads⟩

/-! ## Words anywhere -/

/-- A character that no directive line has. -/
structure Foreign (d : Char) : Prop where
  solid : isBlank d = false
  opening : d ∉ "#if DEBUG".toList
  closing : d ∉ "#endif".toList

instance : DecidablePred Foreign := fun d =>
  decidable_of_iff (isBlank d = false ∧ d ∉ "#if DEBUG".toList ∧ d ∉ "#endif".toList)
    ⟨fun h => ⟨h.1, h.2.1, h.2.2⟩, fun h => ⟨h.solid, h.opening, h.closing⟩⟩

/-- A character that is not blank is in a directive line only if it is in the directive. -/
lemma notMem_directive {x : Text} (solid : isBlank c = false) (tidy : s.Tidy) (not : c ∉ x) :
    c ∉ s.indent ++ x ++ s.carriage := by
  rw [List.mem_append, List.mem_append]
  rintro ((mem | mem) | mem)
  · exact absurd ((tidy.indent c mem).symm.trans solid) (by decide)
  · exact not mem
  · rcases tidy.carriage with cr | cr
    · rw [cr] at mem
      cases mem
    · rw [cr, List.mem_singleton] at mem
      subst mem
      exact absurd solid (by decide)

/-- A foreign character is not in the line above a guarded statement. -/
lemma Foreign.notMem_opening (foreign : Foreign c) (tidy : s.Tidy) : c ∉ s.opening :=
  notMem_directive foreign.solid tidy foreign.opening

/-- A foreign character is not in the line below a guarded statement. -/
lemma Foreign.notMem_closing (foreign : Foreign c) (tidy : s.Tidy) : c ∉ s.closing :=
  notMem_directive foreign.solid tidy foreign.closing

/-- A word stands in front of a text when it can be read there. -/
lemma prefix_iff_after? : w <+: t ↔ (after? w t).isSome := by
  constructor
  · rintro ⟨z, rfl⟩
    rw [after?_eq_some_iff.2 rfl]
    rfl
  · intro some
    obtain ⟨z, eq⟩ := Option.isSome_iff_exists.1 some
    exact ⟨z, (after?_eq_some_iff.1 eq).symm⟩

/-- Where two texts go on together, a word of one line stands in front of both or of none. -/
lemma prefix_iff_of_calm (word : Wordlike w) (res : Resumes t t') : w <+: t ↔ w <+: t' := by
  rw [prefix_iff_after?, prefix_iff_after?, (after?_of_calm word res).isSome_eq]

/-- A word without blanks and semicolons that has a character of its own. -/
def Distinct (w : Text) : Prop := (∀ d ∈ w, isBlank d = false ∧ d ≠ ';') ∧ ∃ d ∈ w, Foreign d

instance : DecidablePred Distinct := fun w =>
  @instDecidableAnd _ _ (List.decidableBAll (fun d => isBlank d = false ∧ d ≠ ';') w)
    (List.decidableBEx Foreign w)

/-- Such a word is in both texts or in none of them. -/
lemma infix_iff (pads : Pads m t t') (distinct : Distinct w) : w <:+: t ↔ w <:+: t' := by
  obtain ⟨word, c, mem, foreign⟩ := distinct
  have wordlike : Wordlike w := by
    intro d mem
    refine ⟨?_, (word d mem).2⟩
    rintro rfl
    exact absurd (word _ mem).1 (by decide)
  have nl : '\n' ∉ w := fun mem => (wordlike _ mem).1 rfl
  -- the texts agree at a character that both have, and go on alike behind it
  have step : ∀ {d u u'}, Resumes (d :: u) (d :: u') → (w <:+: u ↔ w <:+: u') →
      (w <:+: d :: u ↔ w <:+: d :: u') := by
    intro d u u' res ih
    rw [List.infix_cons_iff, List.infix_cons_iff, prefix_iff_of_calm wordlike res, ih]
  induction pads with
  | nil => rfl
  | keep pads ih => exact step ⟨.outer false, rfl, .keep pads⟩ ih
  | @opening s t t' tidy pre pads ih =>
    refine ih.trans ?_
    rw [infix_append_newline nl, or_iff_right]
    intro inf
    exact foreign.notMem_opening tidy (inf.subset mem)
  | solid nl pads ih => exact step ⟨.inner _ true, rfl, .solid nl pads⟩ ih
  | semicolon pads ih => exact step ⟨.inner _ true, rfl, .semicolon pads⟩ ih
  | @carriage s t t' pads ih =>
    have miss : ∀ u, ¬ w <+: '\r' :: u := by
      intro u pre
      cases w with
      | nil => cases mem
      | cons d w =>
        obtain ⟨rfl, _⟩ := List.cons_prefix_cons.1 pre
        exact absurd (word _ List.mem_cons_self).1 (by decide)
    rw [List.infix_cons_iff, List.infix_cons_iff, or_iff_right (miss t), or_iff_right (miss t')]
    exact ih
  | @closing s t t' tidy head pads ih =>
    have sep := infix_append_newline (a := []) (b := s.closing ++ t') nl
    have out : ¬ w <:+: s.closing := fun inf => foreign.notMem_closing tidy (inf.subset mem)
    rw [List.nil_append, or_iff_right (fun inf => by rw [List.infix_nil.1 inf] at mem; cases mem)] at sep
    rw [sep]
    refine ih.trans ⟨List.infix_append_of_infix_right, fun inf => ?_⟩
    cases t' with
    | nil =>
      rw [List.append_nil] at inf
      exact absurd inf out
    | cons d t' =>
      have same : t.head? = some d := pads.head?_eq rfl
      obtain rfl : d = '\n' := head d same
      exact ((infix_append_newline nl).1 inf).elim (absurd · out) List.infix_cons

/-! ## Cutting -/

/-- A character at which both texts can be cut. -/
structure Cut (d : Char) : Prop extends Foreign d where
  head : d ∉ head
  semicolon : d ≠ ';'

instance : DecidablePred Cut := fun d =>
  decidable_of_iff (Foreign d ∧ d ∉ DebugGuard.head ∧ d ≠ ';')
    ⟨fun h => ⟨h.1, h.2.1, h.2.2⟩, fun h => ⟨h.toForeign, h.head, h.semicolon⟩⟩

/-- A character at which both texts can be cut is no newline. -/
lemma Cut.ne_newline {d : Char} (cut : Cut d) : d ≠ '\n' := by
  rintro rfl
  exact absurd cut.solid (by decide)

/-- A text is not cut in the line above a guarded statement. -/
lemma Cut.notMem_opening_newline {d : Char} (cut : Cut d) (tidy : s.Tidy) : d ∉ s.opening ++ ['\n'] := by
  rw [List.mem_append, List.mem_singleton, not_or]
  exact ⟨cut.notMem_opening tidy, cut.ne_newline⟩

/-- A text is not cut in the line below a guarded statement. -/
lemma Cut.notMem_newline_closing {d : Char} (cut : Cut d) (tidy : s.Tidy) : d ∉ '\n' :: s.closing := by
  rw [List.mem_cons, not_or]
  exact ⟨cut.ne_newline, cut.notMem_closing tidy⟩

/-- A cut does not go through the front of a statement. -/
lemma Cut.prefix_of_prefix {d : Char} {x y : Text} (cut : Cut d) (tidy : s.Tidy)
    (pre : s.indent ++ DebugGuard.head <+: x ++ d :: y) : s.indent ++ DebugGuard.head <+: x := by
  rcases prefix_append_cases pre with short | ⟨z, ne, long, front⟩
  · exact short
  · obtain ⟨e, z, rfl⟩ := List.exists_cons_of_ne_nil ne
    obtain ⟨rfl, _⟩ := List.cons_prefix_cons.1 front
    have mem : e ∈ s.indent ++ DebugGuard.head := by
      rw [long]
      exact List.mem_append_right _ List.mem_cons_self
    rcases List.mem_append.1 mem with mem | mem
    · exact absurd ((tidy.indent e mem).symm.trans cut.solid) (by decide)
    · exact absurd mem cut.head

/-- A text is split at its first character or behind it. -/
lemma splitAt?_cons {d : Char} (t : Text) : splitAt? d (c :: t) =
    if c = d then some ([], t) else (splitAt? d t).map fun p => (c :: p.1, p.2) := by
  unfold splitAt?
  by_cases same : c = d
  · simp [same]
  · rw [if_neg same, List.dropWhile_cons_of_pos (by simpa using same),
      List.takeWhile_cons_of_pos (by simpa using same)]
    split <;> rfl

/-- A text is split behind a front that does not have the character. -/
lemma splitAt?_append {d : Char} {x : Text} (not : d ∉ x) (t : Text) :
    splitAt? d (x ++ t) = (splitAt? d t).map fun p => (x ++ p.1, p.2) := by
  induction x with
  | nil => simp
  | cons c x ih =>
    obtain ⟨ne, not⟩ := not_or.1 (mt List.mem_cons.2 not)
    rw [List.cons_append, splitAt?_cons, if_neg (Ne.symm ne), ih not, Option.map_map]
    rfl

/-- A text that was split is its two parts with the character between them. -/
lemma eq_of_splitAt? {d : Char} {p : Text × Text} (eq : splitAt? d t = some p) :
    t = p.1 ++ d :: p.2 := by
  induction t generalizing p with
  | nil => cases eq
  | cons c t ih =>
    rw [splitAt?_cons] at eq
    split at eq
    · next same =>
      subst same
      obtain rfl := Option.some.inj eq
      rfl
    · obtain ⟨q, split, rfl⟩ := Option.map_eq_some_iff.1 eq
      exact congrArg (c :: ·) (ih split)

/-- Both texts are split at the same place. -/
lemma splitAt? {d : Char} (pads : Pads m t t') (cut : Cut d) :
    Option.Rel (fun p p' => Pads m p.1 p'.1 ∧ Resumes p.2 p'.2) (splitAt? d t) (splitAt? d t') := by
  induction pads with
  | nil => exact .none
  | @keep fresh c t t' pads ih =>
    rw [splitAt?_cons, splitAt?_cons]
    split
    · next same =>
      subst same
      exact .some ⟨.nil, .outer _, beq_false_of_ne cut.ne_newline, pads⟩
    · exact ih.map fun p p' rel => ⟨.keep rel.1, rel.2⟩
  -- the character is not in the directive line, so the front of the text grows by that line
  | @opening s t t' tidy pre pads ih =>
    rw [List.append_cons, splitAt?_append (cut.notMem_opening_newline tidy)]
    refine ih.map_right fun p eq p' rel => ⟨?_, rel.2⟩
    rw [eq_of_splitAt? eq] at pre
    rw [← List.append_cons]
    exact .opening tidy (cut.prefix_of_prefix tidy pre) rel.1
  | @solid s c t t' nl pads ih =>
    rw [splitAt?_cons, splitAt?_cons]
    split
    · exact .some ⟨.nil, .inner s true, rfl, pads⟩
    · exact ih.map fun p p' rel => ⟨.solid nl rel.1, rel.2⟩
  | semicolon pads ih =>
    rw [splitAt?_cons, splitAt?_cons, if_neg cut.semicolon.symm, if_neg cut.semicolon.symm]
    exact ih.map fun p p' rel => ⟨.semicolon rel.1, rel.2⟩
  | carriage pads ih =>
    have ne : '\r' ≠ d := by
      rintro rfl
      exact absurd cut.solid (by decide)
    rw [splitAt?_cons, splitAt?_cons, if_neg ne, if_neg ne]
    exact ih.map fun p p' rel => ⟨.carriage rel.1, rel.2⟩
  -- the same for the line below, which comes before the rest of the text
  | @closing s t t' tidy head pads ih =>
    rw [← List.cons_append, splitAt?_append (cut.notMem_newline_closing tidy)]
    refine ih.map_right fun p eq p' rel => ⟨.closing tidy ?_ rel.1, rel.2⟩
    intro c mem
    apply head c
    rw [eq_of_splitAt? eq]
    exact List.mem_head?_append_of_mem_head? mem

end Pads

end Mender.Rule.DebugGuard
