import Mender.Proofs.Rule.Relocation

/-!
# Anchors in universal time

The anchors of a logger are read the same before and after the clocks are changed (`Steady`): headers of
classes, directives of imports, read-only fields and constructors. None of their words begins inside of a
clock's name, and where a clock's name stands among what they read it is passed over as a whole, but for the
name of a class, which ends at its dot (`nameAndBases?_utc`).
-/

namespace Mender.Rule.Logger

open Text Timestamp DebugGuard.Pads

variable {α β : Type} {r : Recognizer α} {t w name : Text} {c d : Char}

/-! ## Words and blanks -/

/-- Reading a word and blanks commutes with the change of clocks. -/
lemma wordAndBlanks_utc (lacks : 'D' ∉ w) (t : Text) :
    (after? w (utc t)).bind Text.afterBlanks? = ((after? w t).bind Text.afterBlanks?).map utc := by
  rw [after?_utc lacks, Option.bind_map, Option.map_bind]
  exact Option.bind_congr fun u _ => afterBlanks?_utc u

/-- The letter that readings begin with is no indentation. -/
lemma isIndent_D : isIndent 'D' = false := by decide

/-- Reading a member commutes with the change of clocks, if reading what follows its first word does. -/
lemma member?_utc {g : Text → Option β} {f : β → β} (lacks : 'D' ∉ w) (inner : ∀ u, g (utc u) = (g u).map f)
    (t : Text) : member? w g (utc t) = (member? w g t).map f := by
  unfold member?
  rw [(run_utc isIndent_D t).2, wordAndBlanks_utc lacks, Option.bind_map, Option.map_bind]
  exact Option.bind_congr fun u _ => inner u

/-- Nothing is read inside of a clock's name, if what is read begins with another letter. -/
lemma quiet_of_led (led : Led r) : ∀ c ∈ universalClock, ∀ t, r (c :: t) = none := by
  have clear : universalClock.all (fun c => !isIndent c && c != 'p') = true := by decide
  intro c mem t
  have other := List.all_eq_true.1 clear c mem
  rw [Bool.and_eq_true, Bool.not_eq_true', bne_iff_ne] at other
  rw [Option.eq_none_iff_forall_ne_some]
  intro p eq
  have front := led eq
  rw [List.dropWhile_cons_of_neg (by simp [other.1])] at front
  exact other.2 (Option.some.inj front)

/-! ## Class headers -/

/-- Reading a modifier commutes with the change of clocks. -/
lemma afterModifier?_utc (t : Text) : afterModifier? (utc t) = (afterModifier? t).map utc := by
  have lacks : ∀ m ∈ modifiers, 'D' ∉ m := by decide
  have readers : ∀ ms : List Text, (∀ m ∈ ms, 'D' ∉ m) →
      ms.findSome? (fun m => (after? m (utc t)).bind Text.afterBlanks?) =
        (ms.findSome? fun m => (after? m t).bind Text.afterBlanks?).map utc := by
    intro ms lacks
    induction ms with
    | nil => rfl
    | cons m ms ih =>
      obtain ⟨lacks_m, lacks⟩ := List.forall_mem_cons.1 lacks
      rw [List.findSome?_cons, List.findSome?_cons, wordAndBlanks_utc lacks_m]
      cases (after? m t).bind Text.afterBlanks? with
      | none => exact ih lacks
      | some u => rfl
  exact readers modifiers lacks

/-- Skipping all modifiers commutes with the change of clocks. -/
lemma skipModifiers_utc {n n' : Nat} (enough : t.length ≤ n) (enough' : (utc t).length ≤ n') :
    skipModifiers n' (utc t) = utc (skipModifiers n t) := by
  have read := afterModifier?_utc t
  induction n generalizing n' t with
  | zero =>
    obtain rfl := List.length_eq_zero_iff.1 (Nat.le_zero.1 enough)
    rw [skipModifiers_of_none (t := []) rfl]
    exact skipModifiers_of_none rfl n'
  | succ n ih =>
    cases eq : afterModifier? t with
    | none =>
      rw [eq] at read
      rw [skipModifiers_of_none eq, skipModifiers_of_none read]
    | some u =>
      rw [eq] at read
      have shrinks := length_lt_of_afterModifier? eq
      have shrinks' := length_lt_of_afterModifier? read
      obtain ⟨n', rfl⟩ : ∃ k, n' = k + 1 := Nat.exists_eq_add_one.2 (by omega)
      rw [skipModifiers, skipModifiers, eq, read]
      exact ih (by omega) (by omega) (afterModifier?_utc u)

/-- Reading up to the name of a class commutes with the change of clocks. -/
lemma beforeName?_utc (t : Text) : beforeName? (utc t) = (beforeName? t).map utc := by
  unfold beforeName?
  simp only [Option.bind_eq_bind]
  rw [wordAndBlanks_utc (by decide), Option.bind_map, Option.map_bind]
  refine Option.bind_congr fun u _ => ?_
  rw [Function.comp, skipModifiers_utc le_rfl le_rfl]
  exact wordAndBlanks_utc (by decide) _

/-- What is said by a text that ends before the brace of a class. -/
def headerOf (z : Text) : ClassHeader := ⟨z.takeWhile isWord, z.dropWhile isWord⟩

/-- The name of a class and its bases are what stands before the opening brace. -/
lemma nameAndBases?_eq (t : Text) : nameAndBases? t = (splitAt? openBrace t).bind fun p =>
    if p.1.takeWhile isWord = [] then none else some (headerOf p.1, p.2) := by
  have word : openBrace ∉ t.takeWhile isWord := fun mem =>
    absurd (List.mem_takeWhile_imp mem) (by decide)
  have cut := splitAt?_append word (t.dropWhile isWord)
  rw [List.takeWhile_append_dropWhile] at cut
  have header : ∀ p ∈ splitAt? openBrace (t.dropWhile isWord),
      headerOf (t.takeWhile isWord ++ p.1) = ⟨t.takeWhile isWord, p.1⟩ := by
    intro p mem
    have all : ∀ c ∈ t.takeWhile isWord, isWord c = true := fun c mem => List.mem_takeWhile_imp mem
    have stop := List.head?_dropWhile_not isWord t
    rw [headerOf, List.takeWhile_append_of_pos all, List.dropWhile_append_of_pos all]
    rw [eq_of_splitAt? mem] at stop
    cases bases : p.1 with
    | nil => rw [List.takeWhile_nil, List.dropWhile_nil, List.append_nil]
    | cons c z =>
      have stop : ¬ isWord c = true := by simpa [bases] using stop
      rw [List.takeWhile_cons_of_neg stop, List.dropWhile_cons_of_neg stop, List.append_nil]
  have named : ∀ p ∈ splitAt? openBrace (t.dropWhile isWord),
      (t.takeWhile isWord ++ p.1).takeWhile isWord = t.takeWhile isWord := fun p mem =>
    congrArg ClassHeader.name (header p mem)
  unfold nameAndBases?
  rw [cut, Option.bind_map]
  split
  · next none =>
    refine (Option.bind_eq_none_iff.2 fun p mem => if_pos ?_).symm
    exact (named p mem).trans none
  · next ne =>
    refine Option.bind_congr fun p mem => ?_
    rw [Function.comp, header p mem, if_neg]
    rw [named p mem]
    exact ne

/-- The name of the clock's type is the word in front of a reading. -/
lemma word_of_clock (x : Text) : ("DateTime".toList ++ '.' :: x).takeWhile isWord = "DateTime".toList ∧
    ("DateTime".toList ++ '.' :: x).dropWhile isWord = '.' :: x := by
  have all : ∀ c ∈ "DateTime".toList, isWord c = true := List.all_eq_true.1 (by decide)
  have dot : ¬ isWord '.' = true := by decide
  rw [List.takeWhile_append_of_pos all, List.dropWhile_append_of_pos all, List.takeWhile_cons_of_neg dot,
    List.dropWhile_cons_of_neg dot]
  exact ⟨rfl, rfl⟩

/-- A word ends at the dot of a clock's name, so the name of a class is the same in universal time. -/
lemma takeWhile_isWord_utc (z : Text) : (utc z).takeWhile isWord = z.takeWhile isWord := by
  induction z using word_induction localClock_ne_nil with
  | nil => rfl
  | word z _ =>
    rw [utc_word]
    exact (word_of_clock _).1.trans (word_of_clock _).1.symm
  | other c z other ih =>
    rw [utc_other other, List.takeWhile_cons, List.takeWhile_cons, ih]

/-- Behind the name of a class the controller's word stands in both texts or in none. -/
lemma infix_bases_utc_iff (z : Text) :
    "Controller".toList <:+: (utc z).dropWhile isWord ↔ "Controller".toList <:+: z.dropWhile isWord := by
  have skip : ∀ {x y : Text}, 'C' ∉ x → ("Controller".toList <:+: x ++ y ↔ "Controller".toList <:+: y) :=
    fun not => ⟨infix_of_infix_append not, fun inf => inf.trans (List.suffix_append _ _).isInfix⟩
  have same : ∀ t, "Controller".toList <:+: utc t ↔ "Controller".toList <:+: t := fun t =>
    infix_utc_iff (by decide) (by decide)
  induction z using word_induction localClock_ne_nil with
  | nil => exact Iff.rfl
  | word z _ =>
    have bases : (localClock ++ z).dropWhile isWord = ".Now".toList ++ z := (word_of_clock _).2
    have bases' : (universalClock ++ utc z).dropWhile isWord = ".UtcNow".toList ++ utc z := (word_of_clock _).2
    rw [utc_word, bases, bases', skip (by decide), skip (by decide), same]
  | other c z other ih =>
    rw [utc_other other]
    cases word : isWord c with
    | true =>
      rw [List.dropWhile_cons_of_pos word, List.dropWhile_cons_of_pos word]
      exact ih
    | false =>
      have word : ¬ isWord c = true := by simp [word]
      rw [List.dropWhile_cons_of_neg word, List.dropWhile_cons_of_neg word, ← utc_other other, same]

/-- A header in universal time is that of a controller when the header itself is. -/
lemma isController_headerOf_utc (z : Text) : (headerOf (utc z)).isController = (headerOf z).isController := by
  have bases := infix_bases_utc_iff z
  rw [← occurs_iff, ← occurs_iff, ← Bool.eq_iff_iff] at bases
  rw [ClassHeader.isController, ClassHeader.isController, headerOf, headerOf, takeWhile_isWord_utc]
  exact congrArg _ bases

/-- A header in universal time. -/
def ClassHeader.utc (h : ClassHeader) : ClassHeader := headerOf (Timestamp.utc (h.name ++ h.bases))

/-- A header in universal time is that of the text in universal time. -/
lemma utc_headerOf (z : Text) : (headerOf z).utc = headerOf (utc z) := by
  have parts : (headerOf z).name ++ (headerOf z).bases = z := List.takeWhile_append_dropWhile
  rw [ClassHeader.utc, parts]

/-- Reading a name and bases commutes with the change of clocks. -/
lemma nameAndBases?_utc (t : Text) :
    nameAndBases? (utc t) = (nameAndBases? t).map (Prod.map ClassHeader.utc utc) := by
  rw [nameAndBases?_eq, nameAndBases?_eq, splitAt?_utc (by decide), Option.bind_map, Option.map_bind]
  refine Option.bind_congr fun p _ => ?_
  rw [Function.comp, Function.comp, Prod.map_fst, Prod.map_snd, takeWhile_isWord_utc, ← utc_headerOf]
  split <;> rfl

/-- Every header that is read is that of some text. -/
lemma headerOf_of_read {h : ClassHeader} {rest : Text} (eq : classHeader t = some (h, rest)) :
    ∃ z, h = headerOf z := by
  rw [classHeader_eq] at eq
  obtain ⟨u, _, eq⟩ := Option.bind_eq_some_iff.1 eq
  rw [nameAndBases?_eq] at eq
  obtain ⟨p, _, eq⟩ := Option.bind_eq_some_iff.1 eq
  rw [Option.ite_none_left_eq_some] at eq
  exact ⟨p.1, (Prod.mk.inj (Option.some.inj eq.2)).1.symm⟩

/-- Class headers are read the same in universal time, up to the clocks in them. -/
lemma steady_classHeader : Steady classHeader ClassHeader.utc openBrace := by
  refine ⟨fun t => ?_, quiet_of_led led_classHeader, endsWith_classHeader, by decide, by decide⟩
  rw [classHeader_eq, classHeader_eq, beforeName?_utc, Option.bind_map, Option.map_bind]
  refine Option.bind_congr fun u _ => ?_
  rw [Function.comp, nameAndBases?_utc, Function.comp]

/-! ## Import directives -/

/-- Import directives are read the same in universal time. -/
lemma steady_importDirective : Steady importDirective id ';' := by
  refine ⟨fun t => ?_, fun c mem t => ?_, endsWith_importDirective, by decide, by decide⟩
  · unfold importDirective
    simp only [Option.bind_eq_bind]
    rw [wordAndBlanks_utc (by decide), Option.bind_map, Option.map_bind]
    refine Option.bind_congr fun u _ => ?_
    have run := run_utc_of_all (p := isNamePart) (by decide) u
    rw [Function.comp, run.1, run.2, trimStart_utc, after?_utc (by decide), Option.bind_map, Function.comp,
      Option.map_bind]
    refine Option.bind_congr fun rest _ => ?_
    simp only [Function.comp, utc_eq_nil_iff]
    split <;> rfl
  · rw [Option.eq_none_iff_forall_ne_some]
    intro p eq
    obtain ⟨u, front, _⟩ := Option.bind_eq_some_iff.1 eq
    obtain rfl : c = 'u' := Option.some.inj (head?_of_wordAndBlanks rfl front)
    exact absurd mem (by decide)

/-! ## Read-only fields -/

/-- Reading a declarator commutes with the change of clocks. -/
lemma declarator?_utc (t : Text) : declarator? (utc t) = (declarator? t).map utc := by
  have run := run_utc_of_all (p := isDeclarator) (by decide) (t.dropWhile isBlank)
  unfold declarator?
  simp only [Option.bind_eq_bind]
  rw [(run_utc isBlank_D t).1, (run_utc isBlank_D t).2, run.1, run.2, after?_utc (by decide), Option.bind_map,
    Option.map_bind]
  refine Option.bind_congr fun rest _ => ?_
  simp only [Function.comp, utc_eq_nil_iff]
  rw [apply_ite (Option.map utc)]
  rfl

/-- Field declarations are read the same in universal time. -/
lemma steady_fieldDeclaration : Steady fieldDeclaration id ';' := by
  refine ⟨fun t => ?_, quiet_of_led led_fieldDeclaration, endsWith_fieldDeclaration, by decide, by decide⟩
  have inner : ∀ u, (after? "readonly" (utc u)).bind declarator? =
      ((after? "readonly" u).bind declarator?).map utc := by
    intro u
    rw [after?_utc (by decide), Option.bind_map, Option.map_bind]
    exact Option.bind_congr fun v _ => declarator?_utc v
  rw [fieldDeclaration_eq, fieldDeclaration_eq, member?_utc (by decide) inner, (run_utc isIndent_D t).1,
    Option.map_map, Option.map_map]
  rfl

/-! ## Constructors -/

/-- Reading parameters commutes with the change of clocks. -/
lemma parameters?_utc (t : Text) :
    parameters? (utc t) = (parameters? t).map (Prod.map utc (Prod.map utc utc)) := by
  unfold parameters?
  simp only [Option.bind_eq_bind]
  rw [trimStart_utc, after?_utc (by decide), Option.bind_map, Option.map_bind]
  refine Option.bind_congr fun u _ => ?_
  rw [Function.comp, Function.comp, splitAt?_utc (by decide), Option.bind_map, Option.map_bind]
  refine Option.bind_congr fun p _ => ?_
  rw [Function.comp, Function.comp]
  dsimp only [Prod.map]
  rw [trimStart_utc, after?_utc (by decide), Option.bind_map, Option.map_bind]
  rfl

/-- No parameters begin where a clock's name stands, nor inside of it. -/
lemma parameters?_solid (solid : isBlank c = false) (paren : c ≠ '(') (t : Text) :
    parameters? (c :: t) = none := by
  have head : trimStart (c :: t) = c :: t := List.dropWhile_cons_of_neg (by simp [solid])
  have miss : after? ['('] (c :: t) = none := if_neg paren.symm
  unfold parameters?
  rw [head, miss]
  rfl

/-- A name that is a word ends before a dot, and parameters do not begin there. -/
lemma named_of_dot {x : Text} (solid : ∀ c ∈ x, isBlank c = false ∧ c ≠ '(')
    (word : ∀ c ∈ name, isWord c = true) (t : Text) :
    (after? name (x ++ '.' :: t)).bind parameters? = none := by
  induction x generalizing name with
  | nil =>
    cases name with
    | nil => exact parameters?_solid (by decide) (by decide) t
    | cons a name =>
      have ne : a ≠ '.' := by
        rintro rfl
        exact absurd (word _ List.mem_cons_self) (by decide)
      rw [List.nil_append, after?, if_neg ne]
      rfl
  | cons c x ih =>
    obtain ⟨solid_c, solid⟩ := List.forall_mem_cons.1 solid
    cases name with
    | nil => exact parameters?_solid solid_c.1 solid_c.2 _
    | cons a name =>
      rw [List.cons_append, after?]
      split
      · exact ih solid fun c mem => word c (List.mem_cons_of_mem _ mem)
      · rfl

/-- Reading a name and parameters commutes with the change of clocks. -/
lemma named_utc (word : ∀ c ∈ name, isWord c = true) (t : Text) :
    (after? name (utc t)).bind parameters? =
      ((after? name t).bind parameters?).map (Prod.map utc (Prod.map utc utc)) := by
  have clear : "DateTime".toList.all (fun c => !isBlank c && c != '(') = true := by decide +kernel
  have solid : ∀ c ∈ "DateTime".toList, isBlank c = false ∧ c ≠ '(' := fun c mem => by
    simpa using List.all_eq_true.1 clear c mem
  induction t using word_induction localClock_ne_nil generalizing name with
  | nil => cases name <;> rfl
  | word t _ =>
    rw [utc_word]
    exact (named_of_dot solid word _).trans (congrArg (Option.map _) (named_of_dot solid word _)).symm
  | other c t other ih =>
    cases name with
    | nil => exact parameters?_utc (c :: t)
    | cons a name =>
      rw [utc_other other, after?, after?]
      split
      · exact ih fun c mem => word c (List.mem_cons_of_mem _ mem)
      · rfl

/-- What stands before the parameters of a constructor has no dot. -/
lemma IsLead.dot_notMem {indent lead : Text} (is_lead : IsLead name indent lead)
    (word : ∀ c ∈ name, isWord c = true) : '.' ∉ lead := by
  obtain ⟨gap, gap', indented, _, blank, blank', rfl⟩ := is_lead
  simp only [List.mem_append]
  rintro (mem | mem | mem | mem | mem)
  · exact absurd (indented _ mem) (by decide)
  · exact absurd mem (by decide)
  · exact absurd (blank _ mem) (by decide)
  · exact absurd (word _ mem) (by decide)
  · exact absurd (blank' _ mem) (by decide)

/-- The head of a constructor in universal time. -/
def ConstructorHead.utc (h : ConstructorHead) : ConstructorHead := { h with params := Timestamp.utc h.params }

/-- Constructor heads are read the same in universal time, up to the clocks among their parameters. -/
lemma steady_constructorHead (word : ∀ c ∈ name, isWord c = true) :
    Steady (constructorHead name) ConstructorHead.utc openBrace := by
  refine ⟨fun t => ?_, quiet_of_led (led_constructorHead name), endsWith_constructorHead name, by decide,
    by decide⟩
  rw [constructorHead_eq, constructorHead_eq, member?_utc (by decide) (named_utc word), (run_utc isIndent_D t).1,
    Option.map_map, Option.map_map]
  refine Option.map_congr fun p mem => ?_
  obtain ⟨lead, is_lead, whole⟩ := isLead_of_member? mem
  have same : utc t = lead ++ '(' :: utc p.1 := by
    conv_lhs => rw [whole, utc_append_cons (by decide), utc_of_notMem (is_lead.dot_notMem word)]
  have length := congrArg List.length whole
  have length' := congrArg List.length same
  rw [List.length_append, List.length_cons] at length length'
  have lead : (utc t).length - (utc p.1).length = t.length - p.1.length := by omega
  rw [Function.comp, Function.comp, Prod.map_fst, lead]
  rfl

/-! ## Class bodies -/

/-- Reading the body of a block commutes with the change of clocks. -/
lemma blockBody?_utc (depth : Nat) (t : Text) : blockBody? depth (utc t) = (blockBody? depth t).map utc := by
  have apart : openBrace ∉ universalClock ∧ closeBrace ∉ universalClock := by decide
  have apart' : openBrace ∉ localClock ∧ closeBrace ∉ localClock := by decide
  induction t using word_induction localClock_ne_nil generalizing depth with
  | nil => rfl
  | word t ih =>
    rw [utc_word, blockBody?_append depth apart.1 apart.2, blockBody?_append depth apart'.1 apart'.2, ih,
      Option.map_map, Option.map_map]
    exact Option.map_congr fun b _ => (utc_word b).symm
  | other c t other ih =>
    rw [utc_other other, blockBody?_cons, blockBody?_cons]
    cases nextDepth? depth c with
    | none => rfl
    | some depth =>
      dsimp only
      rw [ih, Option.map_map, Option.map_map]
      refine Option.map_congr fun b mem => (utc_other fun pre => other (pre.trans ?_)).symm
      obtain ⟨z, whole⟩ := eq_of_blockBody? mem
      rw [whole]
      exact (List.prefix_cons_inj c).2 (List.prefix_append _ _)

end Mender.Rule.Logger
