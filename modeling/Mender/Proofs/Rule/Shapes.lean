import Mender.Proofs.Rule.Places

/-!
# Shapes of anchors

The patterns of a logger, written out: import directives (`IsImport`), read-only fields (`IsField`) and
heads of constructors (`IsHead`). Whatever a recogniser reads has its shape, so whatever scanning finds is a
piece of the text that has it (`located_of_mem_scan`).
-/

namespace Mender.Rule.Logger

open Text DebugGuard.Pads

variable {α : Type} {anchorage : Anchorage} {r : Recognizer α} {o : Occurrence α} {t u w rest : Text}

/-! ## Occurrences -/

/-- An occurrence in a text: what stands before it, what was read, and what stands behind it. -/
structure Located (t : Text) (o : Occurrence α) (before read behind : Text) : Prop where
  text : t = before ++ (read ++ behind)
  start : o.start = before.length
  stop : o.stop = before.length + read.length

/-- What an occurrence read stands in the text. -/
lemma Located.isInfix {before read behind : Text} (located : Located t o before read behind) : read <:+: t :=
  ⟨before, behind, (List.append_assoc _ _ _).trans located.text.symm⟩

/-- If all that a recogniser reads has a shape, so has every occurrence that scanning finds. -/
lemma located_of_mem_scan {P : α → Text → Prop}
    (shape : ∀ ⦃u v rest⦄, r u = some (v, rest) → ∃ read, u = read ++ rest ∧ P v read)
    (mem : o ∈ scan anchorage r t) :
    ∃ before read behind, Located t o before read behind ∧ P o.value read := by
  obtain ⟨inside, rest, eq, stop⟩ := readFrom_of_mem_scan mem
  obtain ⟨read, cut, shaped⟩ := shape eq
  have front : (t.take o.start).length = o.start := by
    rw [List.length_take, Nat.min_eq_left inside]
  refine ⟨t.take o.start, read, rest, ⟨?_, front.symm, ?_⟩, shaped⟩
  · rw [← cut, List.take_append_drop]
  · rw [stop, cut, front, List.length_append, Nat.add_sub_cancel]

/-! ## Blanks -/

/-- A text of blank characters. -/
def Blank (x : Text) : Prop := ∀ c ∈ x, isBlank c = true

/-- What is trimmed in front is blank. -/
lemma exists_blank_trimStart (t : Text) : ∃ gap, Blank gap ∧ t = gap ++ trimStart t :=
  ⟨t.takeWhile isBlank, fun _ mem => List.mem_takeWhile_imp mem, List.takeWhile_append_dropWhile.symm⟩

/-- Reading blanks reads at least one. -/
lemma eq_of_afterBlanks? (eq : Text.afterBlanks? t = some u) : ∃ gap, gap ≠ [] ∧ Blank gap ∧ t = gap ++ u := by
  unfold Text.afterBlanks? at eq
  split at eq
  · next front =>
    obtain rfl := Option.some.inj eq
    cases t with
    | nil => cases front
    | cons c t =>
      have blank : isBlank c = true := by simpa using front
      obtain ⟨gap, all, cut⟩ := exists_blank_trimStart t
      refine ⟨c :: gap, List.cons_ne_nil _ _, List.forall_mem_cons.2 ⟨blank, all⟩, ?_⟩
      rw [trimStart, List.dropWhile_cons_of_pos blank, List.cons_append]
      exact congrArg _ cut
  · cases eq

/-- Reading a word and blanks reads them from the front. -/
lemma eq_of_wordAndBlanks (eq : (after? w t).bind Text.afterBlanks? = some u) :
    ∃ gap, gap ≠ [] ∧ Blank gap ∧ t = w ++ (gap ++ u) := by
  obtain ⟨v, word, blanks⟩ := Option.bind_eq_some_iff.1 eq
  obtain ⟨gap, ne, blank, rfl⟩ := eq_of_afterBlanks? blanks
  exact ⟨gap, ne, blank, after?_eq_some_iff.1 word⟩

/-! ## Import directives -/

/-- The shape of an import directive. -/
def IsImport (read : Text) : Prop :=
  ∃ gap name gap', gap ≠ [] ∧ Blank gap ∧ name ≠ [] ∧ (∀ c ∈ name, isNamePart c = true) ∧ Blank gap' ∧
    read = "using".toList ++ (gap ++ (name ++ (gap' ++ [';'])))

/-- What is read as an import directive has the shape of one. -/
lemma isImport_of_read {v : Unit} (eq : importDirective t = some (v, rest)) :
    ∃ read, t = read ++ rest ∧ IsImport read := by
  unfold importDirective at eq
  obtain ⟨u, front, eq⟩ := Option.bind_eq_some_iff.1 eq
  obtain ⟨rest', last, eq⟩ := Option.bind_eq_some_iff.1 eq
  rw [Option.ite_none_left_eq_some] at eq
  obtain ⟨named, eq⟩ := eq
  obtain ⟨_, rfl⟩ := Prod.mk.inj (Option.some.inj eq)
  obtain ⟨gap, ne, blank, rfl⟩ := eq_of_wordAndBlanks front
  obtain ⟨gap', blank', cut⟩ := exists_blank_trimStart (u.dropWhile isNamePart)
  refine ⟨_, ?_, gap, u.takeWhile isNamePart, gap', ne, blank, named,
    fun c mem => List.mem_takeWhile_imp mem, blank', rfl⟩
  calc "using".toList ++ (gap ++ u)
      = "using".toList ++ (gap ++ (u.takeWhile isNamePart ++ (gap' ++ ([';'] ++ rest')))) := by
        rw [← after?_eq_some_iff.1 last, ← cut, List.takeWhile_append_dropWhile]
    _ = _ := by simp only [List.append_assoc]

/-! ## Read-only fields -/

/-- The shape of a read-only field without initial value. -/
def IsField (indent read : Text) : Prop :=
  ∃ gap gap' declarator, (∀ c ∈ indent, isIndent c = true) ∧ gap ≠ [] ∧ Blank gap ∧ gap' ≠ [] ∧ Blank gap' ∧
    declarator ≠ [] ∧ (∀ c ∈ declarator, isDeclarator c = true) ∧
    read = indent ++ ("private".toList ++ (gap ++ ("readonly".toList ++ (gap' ++ (declarator ++ [';'])))))

/-- The indentation of a field is one. -/
lemma IsField.indented {indent read : Text} (shape : IsField indent read) :
    ∀ c ∈ indent, isIndent c = true := by
  obtain ⟨_, _, _, indented, _⟩ := shape
  exact indented

/-- A blank may come in a declarator, unless it is a newline. -/
lemma isDeclarator_of_isBlank {c : Char} (blank : isBlank c = true) (nl : c ≠ '\n') :
    isDeclarator c = true := by
  have solid : [';', '=', '(', ')', openBrace, closeBrace, '\n'].all (fun d => !isBlank d || d == '\n') := by
    decide
  rw [isDeclarator, Bool.not_eq_true', Bool.eq_false_iff, ne_eq, List.contains_iff_mem]
  intro mem
  have same := List.all_eq_true.1 solid c mem
  rw [blank] at same
  exact nl (beq_iff_eq.1 same)

/-- A declarator that is blank shares the blanks before it. -/
lemma eq_of_declarator? (eq : declarator? t = some rest) :
    ∃ gap declarator, gap ≠ [] ∧ Blank gap ∧ declarator ≠ [] ∧ (∀ c ∈ declarator, isDeclarator c = true) ∧
      t = gap ++ (declarator ++ ';' :: rest) := by
  obtain ⟨rest', last, eq⟩ := Option.bind_eq_some_iff.1 eq
  rw [Option.ite_none_right_eq_some] at eq
  obtain ⟨complete, eq⟩ := eq
  obtain rfl := Option.some.inj eq
  have blank : Blank (t.takeWhile isBlank) := fun c mem => List.mem_takeWhile_imp mem
  have whole : t = t.takeWhile isBlank ++ ((t.dropWhile isBlank).takeWhile isDeclarator ++ ';' :: rest') := by
    have cut := after?_eq_some_iff.1 last
    rw [List.singleton_append] at cut
    rw [← cut, List.takeWhile_append_dropWhile, List.takeWhile_append_dropWhile]
  split at complete
  · next none =>
    obtain ⟨long, last⟩ := complete
    obtain ⟨gap, c, concat⟩ := (List.eq_nil_or_concat' (t.takeWhile isBlank)).resolve_left (by
      intro nil
      rw [nil] at long
      exact absurd long (by decide))
    rw [concat] at long last blank whole
    rw [none, List.nil_append, List.append_assoc] at whole
    have blank_c : isBlank c = true := blank c (by simp)
    refine ⟨gap, [c], ?_, fun d mem => blank d (List.mem_append_left _ mem), List.cons_ne_nil _ _, ?_, whole⟩
    · rintro rfl
      exact absurd long (by simp)
    · rw [List.forall_mem_singleton]
      refine isDeclarator_of_isBlank blank_c ?_
      rintro rfl
      exact last (List.getLast?_concat ..)
  · next some =>
    exact ⟨_, _, complete, blank, some, fun c mem => List.mem_takeWhile_imp mem, whole⟩

/-- What is read as a read-only field has the shape of one. -/
lemma isField_of_read {indent : Text} (eq : fieldDeclaration t = some (indent, rest)) :
    ∃ read, t = read ++ rest ∧ IsField indent read := by
  rw [fieldDeclaration_eq, Option.map_eq_some_iff] at eq
  obtain ⟨rest', eq, shape⟩ := eq
  obtain ⟨rfl, rfl⟩ := Prod.mk.inj shape
  obtain ⟨u, front, eq⟩ := Option.bind_eq_some_iff.1 eq
  obtain ⟨v, word, eq⟩ := Option.bind_eq_some_iff.1 eq
  obtain ⟨gap, ne, blank, cut⟩ := eq_of_wordAndBlanks front
  obtain ⟨gap', declarator, ne', blank', named, part, rfl⟩ := eq_of_declarator? eq
  obtain rfl := after?_eq_some_iff.1 word
  refine ⟨_, ?_, gap, gap', declarator, fun c mem => List.mem_takeWhile_imp mem, ne, blank, ne', blank',
    named, part, rfl⟩
  calc t = t.takeWhile isIndent ++ t.dropWhile isIndent := List.takeWhile_append_dropWhile.symm
    _ = _ := by
      rw [cut]
      simp only [List.append_assoc, List.cons_append, List.nil_append]

/-! ## Heads of constructors -/

/-- A text is split at the first of the characters. -/
lemma notMem_of_splitAt? {d : Char} {p : Text × Text} (eq : Text.splitAt? d t = some p) : d ∉ p.1 := by
  unfold Text.splitAt? at eq
  split at eq
  · cases eq
  · obtain rfl := Option.some.inj eq
    intro mem
    exact absurd (List.mem_takeWhile_imp mem) (by simp)

/-- The shape of what stands before the parameters of a constructor and their parenthesis. -/
def IsLead (name indent lead : Text) : Prop :=
  ∃ gap gap', (∀ c ∈ indent, isIndent c = true) ∧ gap ≠ [] ∧ Blank gap ∧ Blank gap' ∧
    lead = indent ++ ("public".toList ++ (gap ++ (name ++ gap')))

/-- The indentation of a constructor is one. -/
lemma IsLead.indented {name indent lead : Text} (is_lead : IsLead name indent lead) :
    ∀ c ∈ indent, isIndent c = true := by
  obtain ⟨_, _, indented, _⟩ := is_lead
  exact indented

/-- The name of a constructor stands before its parameters. -/
lemma IsLead.name_infix {name indent lead : Text} (is_lead : IsLead name indent lead) : name <:+: lead := by
  obtain ⟨gap, gap', _, _, _, _, rfl⟩ := is_lead
  refine ⟨indent ++ ("public".toList ++ gap), gap', ?_⟩
  simp only [List.append_assoc]

/-- The shape of the head of a constructor. -/
def IsHead (name : Text) (h : ConstructorHead) (read : Text) : Prop :=
  ∃ lead gap, IsLead name h.indent lead ∧ h.lead = lead.length + 1 ∧ ')' ∉ h.params ∧ Blank gap ∧
    read = lead ++ '(' :: (h.params ++ ')' :: (gap ++ [openBrace]))

/-- What is read before the parameters of a constructor has the shape for that. -/
lemma isLead_of_member? {name : Text} {p : Text × Text × Text}
    (eq : member? "public" (fun u => (after? name u).bind parameters?) t = some p) :
    ∃ lead, IsLead name (t.takeWhile isIndent) lead ∧ t = lead ++ '(' :: p.1 := by
  obtain ⟨u, front, eq⟩ := Option.bind_eq_some_iff.1 eq
  obtain ⟨v, word, eq⟩ := Option.bind_eq_some_iff.1 eq
  obtain ⟨x, paren, eq⟩ := Option.bind_eq_some_iff.1 eq
  obtain ⟨q, _, eq⟩ := Option.bind_eq_some_iff.1 eq
  obtain ⟨z, _, eq⟩ := Option.bind_eq_some_iff.1 eq
  obtain rfl := Option.some.inj eq
  obtain ⟨gap, ne, blank, cut⟩ := eq_of_wordAndBlanks front
  obtain ⟨gap', blank', cut'⟩ := exists_blank_trimStart v
  rw [after?_eq_some_iff.1 paren] at cut'
  obtain rfl := after?_eq_some_iff.1 word
  refine ⟨_, ⟨gap, gap', fun c mem => List.mem_takeWhile_imp mem, ne, blank, blank', rfl⟩, ?_⟩
  calc t = t.takeWhile isIndent ++ t.dropWhile isIndent := List.takeWhile_append_dropWhile.symm
    _ = _ := by
      rw [cut, cut']
      simp only [List.append_assoc, List.singleton_append]

/-- What is read as the head of a constructor has the shape of one. -/
lemma isHead_of_read {name : Text} {h : ConstructorHead} (eq : constructorHead name t = some (h, rest)) :
    ∃ read, t = read ++ rest ∧ IsHead name h read := by
  rw [constructorHead_eq, Option.map_eq_some_iff] at eq
  obtain ⟨p, eq, shape⟩ := eq
  obtain ⟨rfl, rfl⟩ := Prod.mk.inj shape
  obtain ⟨lead, is_lead, whole⟩ := isLead_of_member? eq
  obtain ⟨u, _, eq⟩ := Option.bind_eq_some_iff.1 eq
  obtain ⟨v, _, eq⟩ := Option.bind_eq_some_iff.1 eq
  obtain ⟨x, _, eq⟩ := Option.bind_eq_some_iff.1 eq
  obtain ⟨⟨params, y⟩, split, eq⟩ := Option.bind_eq_some_iff.1 eq
  obtain ⟨z, brace, eq⟩ := Option.bind_eq_some_iff.1 eq
  obtain rfl := Option.some.inj eq
  obtain ⟨gap, blank, cut⟩ := exists_blank_trimStart y
  rw [after?_eq_some_iff.1 brace] at cut
  have inner : x = params ++ ')' :: y := eq_of_splitAt? split
  refine ⟨_, ?_, lead, gap, is_lead, ?_, notMem_of_splitAt? split, blank, rfl⟩
  · rw [inner, cut] at whole
    simpa only [List.append_assoc, List.cons_append, List.singleton_append, List.nil_append] using whole
  · have length := congrArg List.length whole
    rw [List.length_append, List.length_cons] at length
    dsimp only at length ⊢
    omega

/-! ## Parameters -/

/-- Where the parameter of a logger goes in a text that has `front` before its parameters: before them, if
they are blank, and else behind the last of their characters that is not. -/
inductive IsParameter (name front params : Text) : Splice → Prop where
  | only :
    Blank params →
    IsParameter name front params ⟨front.length, loggerType name ++ " logger".toList⟩
  | last {x d y} :
    params = x ++ d :: y →
    isBlank d = false →
    Blank y →
    IsParameter name front params
      ⟨front.length + (x.length + 1), ", ".toList ++ loggerType name ++ " logger".toList⟩

/-- What is trimmed at the end is blank. -/
lemma trimEnd_append (x : Text) : ∃ blanks, Blank blanks ∧ x = trimEnd x ++ blanks := by
  refine ⟨(x.reverse.takeWhile isBlank).reverse, ?_, ?_⟩
  · intro c mem
    exact List.mem_takeWhile_imp (List.mem_reverse.1 mem)
  · rw [trimEnd, ← List.reverse_append, List.takeWhile_append_dropWhile, List.reverse_reverse]

/-- A trimmed text does not end with a blank. -/
lemma solid_of_trimEnd {x y : Text} {d : Char} (eq : trimEnd x = y ++ [d]) : isBlank d = false := by
  have head : (x.reverse.dropWhile isBlank).head? = some d := by
    rw [← List.reverse_reverse (x.reverse.dropWhile isBlank), List.head?_reverse]
    exact List.getLast?_eq_some_iff.2 ⟨y, eq⟩
  have stop := List.head?_dropWhile_not isBlank x.reverse
  rw [head] at stop
  exact stop

/-- The parameter of a logger goes where the shape says. -/
lemma isParameter_of_start {name front : Text} {o : Occurrence ConstructorHead}
    (start : o.start + o.value.lead = front.length) :
    IsParameter name front o.value.params (parameterSplice name o) := by
  obtain ⟨blanks, blank, cut⟩ := trimEnd_append o.value.params
  unfold parameterSplice
  dsimp only
  rw [start]
  split
  · next nil =>
    rw [nil, List.nil_append] at cut
    exact .only (cut ▸ blank)
  · next ne =>
    obtain ⟨x, d, last⟩ := (List.eq_nil_or_concat' (trimEnd o.value.params)).resolve_left ne
    rw [last, List.append_assoc, List.singleton_append] at cut
    rw [last, List.length_append, List.length_singleton]
    exact .last cut (solid_of_trimEnd last) blank

/-- A parameter of a body is one of the whole text. -/
lemma IsParameter.inBodyOf {name front params : Text} {s : Splice} {c : Controller} (before : Text)
    (inside : before.length = c.inside) (param : IsParameter name front params s) :
    IsParameter name (before ++ front) params (s.inBodyOf c) := by
  unfold Splice.inBodyOf
  cases param with
  | only blank =>
    dsimp only
    rw [← inside, ← List.length_append]
    exact .only blank
  | last cut solid blank =>
    dsimp only
    rw [← inside, ← Nat.add_assoc, ← List.length_append]
    exact .last cut solid blank

end Mender.Rule.Logger
