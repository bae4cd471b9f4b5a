import Mender.Proofs.Rule.Padding
import Mender.Rule.Logger.Anchors

/-!
# Anchors in padded texts

Directive lines around statements do not change what is read where: fields, constructors and class
bodies are found alike in a text and in the padded text (`fieldDeclaration_rel`, `constructorHead_rel`,
`closingBrace?_rel`). The header of a class is the exception. Its name may stand on a line of its own,
and where a statement stands in its place, the first word of the statement is read as the name in the
one text and nothing is read in the other. Texts without such a place (`Dangling`) have the same headers
(`classHeader_rel`).
-/

namespace Mender.Rule.Logger

open Text DebugGuard DebugGuard.Pads

variable {m : Mode} {t t' : Text}

/-! ## Class headers -/

/-- The place where the name of a class is expected, in a text that begins with the words before it. -/
def beforeName? (t : Text) : Option Text := do
  let t ← (Text.after? "public" t).bind Text.afterBlanks?
  (Text.after? "class" (skipModifiers t.length t)).bind Text.afterBlanks?

/-- Reads the name of a class and what follows it, through the brace that opens the body. -/
def nameAndBases? : Text.Recognizer ClassHeader := fun t =>
  match t.takeWhile Text.isWord with
  | [] => none
  | name => do
    let (bases, rest) ← Text.splitAt? openBrace (t.dropWhile Text.isWord)
    some (⟨name, bases⟩, rest)

/-- A class header is read up to the name of the class, and then through the opening brace. -/
lemma classHeader_eq (t : Text) : classHeader t = (beforeName? t).bind nameAndBases? := by
  unfold classHeader beforeName?
  cases (after? "public" t).bind Text.afterBlanks? with
  | none => rfl
  | some u =>
    cases (after? "class" (skipModifiers u.length u)).bind Text.afterBlanks? with
    | none => rfl
    | some v => rfl

/-- Somewhere in the text a statement stands where the name of a class is expected. -/
def Dangling (t : Text) : Prop := ∃ u ∈ t.tails, ∃ v ∈ beforeName? u, head <+: v

instance : DecidablePred Dangling := fun t =>
  inferInstanceAs (Decidable (∃ u ∈ t.tails, ∃ v ∈ beforeName? u, head <+: v))

/-- Reading a word and blanks makes a text shorter. -/
lemma length_lt_of_afterBlanks? {w u v : Text} (eq : (after? w u).bind Text.afterBlanks? = some v) :
    v.length < u.length := by
  obtain ⟨x, word, blanks⟩ := Option.bind_eq_some_iff.1 eq
  unfold Text.afterBlanks? at blanks
  split at blanks
  · next blank =>
    obtain rfl := Option.some.inj blanks
    have eq := after?_eq_some_iff.1 word
    cases x with
    | nil => cases blank
    | cons c x =>
      have : (trimStart (c :: x)).length ≤ x.length := by
        rw [trimStart, List.dropWhile_cons_of_pos (by simpa using blank)]
        exact (List.dropWhile_suffix _).length_le
      rw [eq, List.length_append, List.length_cons]
      omega
  · cases blanks

/-- Reading a modifier makes a text shorter. -/
lemma length_lt_of_afterModifier? {u v : Text} (eq : afterModifier? u = some v) :
    v.length < u.length := by
  obtain ⟨w, _, eq⟩ := List.exists_of_findSome?_eq_some eq
  exact length_lt_of_afterBlanks? eq

/-- Behind blanks, a keyword with blanks behind it is read in both texts or in none. -/
lemma keywordAndBlanks_rel {w : Text} (tight : Tight t t') (key : Keyword w) :
    Option.Rel Tight ((after? w t).bind Text.afterBlanks?) ((after? w t').bind Text.afterBlanks?) :=
  (after?_of_tight tight key).bind fun _ _ => Pads.afterBlanks?

/-- Behind blanks, a modifier is read in both texts or in none. -/
lemma afterModifier?_rel (tight : Tight t t') :
    Option.Rel Tight (afterModifier? t) (afterModifier? t') := by
  have keys : ∀ w ∈ modifiers, Keyword w := by decide +kernel
  exact .findSome? fun w mem => keywordAndBlanks_rel tight (keys w mem)

/-- Where no modifier can be read none is skipped. -/
lemma skipModifiers_of_none (none : afterModifier? t = none) (n : Nat) : skipModifiers n t = t := by
  cases n with
  | zero => rfl
  | succ n => rw [skipModifiers, none]

/-- Modifiers lead to the same place; how many of them may come does not matter, as long as the text
can have no more. -/
lemma skipModifiers_tight {n n' : Nat} (tight : Tight t t') (enough : t.length ≤ n)
    (enough' : t'.length ≤ n') : Tight (skipModifiers n t) (skipModifiers n' t') := by
  induction n generalizing n' t t' with
  | zero =>
    obtain rfl := List.length_eq_zero_iff.1 (Nat.le_zero.1 enough)
    have rel := afterModifier?_rel tight
    cases eq' : afterModifier? t' with
    | none =>
      rw [skipModifiers_of_none eq']
      exact tight
    | some v' =>
      rw [eq'] at rel
      cases rel
  | succ n ih =>
    have rel := afterModifier?_rel tight
    cases eq : afterModifier? t with
    | none =>
      cases eq' : afterModifier? t' with
      | none =>
        rw [skipModifiers_of_none eq, skipModifiers_of_none eq']
        exact tight
      | some v' =>
        rw [eq, eq'] at rel
        cases rel
    | some v =>
      cases eq' : afterModifier? t' with
      | none =>
        rw [eq, eq'] at rel
        cases rel
      | some v' =>
        rw [eq, eq'] at rel
        have shrinks := length_lt_of_afterModifier? eq
        have shrinks' := length_lt_of_afterModifier? eq'
        -- each modifier makes both texts shorter, so neither count runs out
        obtain ⟨n', rfl⟩ : ∃ k, n' = k + 1 := Nat.exists_eq_add_one.2 (by omega)
        rw [skipModifiers, skipModifiers, eq, eq']
        cases rel with
        | some tight => exact ih tight (by omega) (by omega)

/-- The words before the name of a class are read in both texts or in none. -/
lemma beforeName?_rel (res : Resumes t t') : Option.Rel Tight (beforeName? t) (beforeName? t') :=
  (keywordAndBlanks_rel (.inl res) (by decide +kernel)).bind fun _ _ tight =>
    keywordAndBlanks_rel (skipModifiers_tight tight le_rfl le_rfl) (by decide +kernel)

/-- Two headers of classes with the same name, of which both are controllers or none. -/
def SameHeader (h h' : ClassHeader) : Prop := h.name = h'.name ∧ h.isController = h'.isController

/-- Both texts can be cut at an opening brace. -/
lemma cut_openBrace : Cut openBrace := by decide +kernel

/-- The name of a class and its bases are read in both texts or in none, with the same meaning. -/
lemma nameAndBases?_rel (res : Resumes t t') :
    Option.Rel (fun p p' => SameHeader p.1 p'.1 ∧ Resumes p.2 p'.2) (nameAndBases? t)
      (nameAndBases? t') := by
  obtain ⟨same, m, calm, pads⟩ := takeWhile_eq (p := isWord) (by decide) (by decide) res
  unfold nameAndBases?
  rw [← same]
  split
  · exact .none
  · refine (pads.splitAt? cut_openBrace).bind fun p p' rel => .some ⟨⟨rfl, ?_⟩, rel.2⟩
    have bases : occurs "Controller" p.1 = occurs "Controller" p'.1 := by
      rw [Bool.eq_iff_iff, occurs_iff, occurs_iff]
      exact rel.1.infix_iff (by decide +kernel)
    exact congrArg (_ || ·) bases

/-- Headers are read alike, where no statement stands in the place of the name. -/
lemma classHeader_rel (res : Resumes t t') (named : ∀ v ∈ beforeName? t, ¬ head <+: v) :
    Option.Rel (fun p p' => SameHeader p.1 p'.1 ∧ Resumes p.2 p'.2) (classHeader t)
      (classHeader t') := by
  have rel := beforeName?_rel res
  rw [classHeader_eq, classHeader_eq]
  generalize beforeName? t = x, beforeName? t' = x' at rel named
  cases rel with
  | none => exact .none
  | some tight =>
    rcases tight with res | off
    · exact nameAndBases?_rel res
    · exact absurd off.1 (named _ rfl)

/-! ## Class bodies -/

/-- Both texts can be cut at a closing brace. -/
lemma cut_closeBrace : Cut closeBrace := by decide +kernel

/-- The text up to the brace that closes a block. -/
def blockBody? (depth : Nat) (t : Text) : Option Text := (closingBrace? depth t).map t.take

/-- What a brace does to the number of open blocks, if it does not close the last one. -/
def nextDepth? (depth : Nat) (c : Char) : Option Nat :=
  if c = openBrace then some (depth + 1)
  else if c = closeBrace then
    match depth with
    | 0 => none
    | depth + 1 => some depth
  else some depth

/-- The closing brace of a block is the first character, or it is sought behind it at the next depth. -/
lemma closingBrace?_cons (depth : Nat) (c : Char) (t : Text) : closingBrace? depth (c :: t) =
    match nextDepth? depth c with
    | none => some 0
    | some depth => (closingBrace? depth t).map (· + 1) := by
  cases depth with
  | zero =>
    rw [closingBrace?, nextDepth?]
    split
    · rfl
    · split <;> rfl
  | succ depth =>
    rw [closingBrace?, nextDepth?]
    split
    · rfl
    · split <;> rfl

/-- The body of a block ends at the first character, or it goes on behind it at the next depth. -/
lemma blockBody?_cons (depth : Nat) (c : Char) (t : Text) : blockBody? depth (c :: t) =
    match nextDepth? depth c with
    | none => some []
    | some depth => (blockBody? depth t).map (c :: ·) := by
  rw [blockBody?, closingBrace?_cons]
  cases nextDepth? depth c with
  | none => rfl
  | some depth =>
    dsimp only
    rw [blockBody?, Option.map_map, Option.map_map]
    rfl

/-- A front without braces belongs to the body of a block. -/
lemma blockBody?_append {x : Text} (depth : Nat) (not : openBrace ∉ x) (not' : closeBrace ∉ x)
    (t : Text) : blockBody? depth (x ++ t) = (blockBody? depth t).map (x ++ ·) := by
  induction x with
  | nil => simp
  | cons c x ih =>
    obtain ⟨ne, not⟩ := not_or.1 (mt List.mem_cons.2 not)
    obtain ⟨ne', not'⟩ := not_or.1 (mt List.mem_cons.2 not')
    have same : nextDepth? depth c = some depth := by
      simp only [nextDepth?, if_neg (Ne.symm ne), if_neg (Ne.symm ne')]
    rw [List.cons_append, blockBody?_cons, same]
    dsimp only
    rw [ih not not', Option.map_map]
    rfl

/-- Behind the body of a block its closing brace stands. -/
lemma eq_of_blockBody? {depth : Nat} {b : Text} (eq : blockBody? depth t = some b) :
    ∃ z, t = b ++ closeBrace :: z := by
  induction t generalizing depth b with
  | nil => cases eq
  | cons c t ih =>
    rw [blockBody?_cons] at eq
    cases next : nextDepth? depth c with
    | none =>
      rw [next] at eq
      obtain rfl := Option.some.inj eq
      have close : c = closeBrace := by
        unfold nextDepth? at next
        split at next
        · cases next
        · split at next
          · next close => exact close
          · cases next
      exact ⟨t, by rw [close]; rfl⟩
    | some depth =>
      rw [next] at eq
      obtain ⟨b, body, rfl⟩ := Option.map_eq_some_iff.1 eq
      obtain ⟨z, rfl⟩ := ih body
      exact ⟨z, rfl⟩

/-- Blocks are closed at the same place in both texts. -/
lemma blockBody?_rel (pads : Pads m t t') (depth : Nat) :
    Option.Rel (Pads m) (blockBody? depth t) (blockBody? depth t') := by
  -- a character that both texts have is counted alike in both
  have step : ∀ {m n : Mode} {c t t'} (depth : Nat),
      (∀ {b b'}, Pads n b b' → Pads m (c :: b) (c :: b')) →
      (∀ depth, Option.Rel (Pads n) (blockBody? depth t) (blockBody? depth t')) →
      Option.Rel (Pads m) (blockBody? depth (c :: t)) (blockBody? depth (c :: t')) := by
    intro m n c t t' depth keep ih
    rw [blockBody?_cons, blockBody?_cons]
    cases nextDepth? depth c with
    | none => exact .some .nil
    | some depth => exact (ih depth).map fun _ _ => keep
  induction pads generalizing depth with
  | nil => exact .none
  | keep pads ih => exact step depth .keep ih
  | @opening s t t' tidy pre pads ih =>
    rw [List.append_cons, blockBody?_append depth (cut_openBrace.notMem_opening_newline tidy)
      (cut_closeBrace.notMem_opening_newline tidy)]
    refine (ih depth).map_right fun b eq b' rel => ?_
    obtain ⟨z, rfl⟩ := eq_of_blockBody? eq
    rw [← List.append_cons]
    exact .opening tidy (cut_closeBrace.prefix_of_prefix tidy pre) rel
  | solid nl pads ih => exact step depth (.solid nl) ih
  | semicolon pads ih => exact step depth .semicolon ih
  | carriage pads ih => exact step depth .carriage ih
  | @closing s t t' tidy head pads ih =>
    rw [← List.cons_append, blockBody?_append depth (cut_openBrace.notMem_newline_closing tidy)
      (cut_closeBrace.notMem_newline_closing tidy)]
    refine (ih depth).map_right fun b eq b' rel => .closing tidy ?_ rel
    obtain ⟨z, rfl⟩ := eq_of_blockBody? eq
    exact fun c mem => head c (List.mem_head?_append_of_mem_head? mem)

/-! ## Members -/

/-- The texts go on from places behind a character of a line. -/
def Follows (t t' : Text) : Prop := ∃ m : Mode, m ≠ .outer true ∧ Pads m t t'

/-- Texts that go on where no directive line comes go on behind a character of a line. -/
lemma follows_of_resumes (res : Resumes t t') : Follows t t' := by
  obtain ⟨m, calm, pads⟩ := res
  refine ⟨m, ?_, pads⟩
  rintro rfl
  cases calm

/-- A semicolon is read in both texts or in none. -/
lemma after?_semicolon (res : Resumes t t') :
    Option.Rel Follows (after? [';'] t) (after? [';'] t') := by
  obtain ⟨m, calm, pads⟩ := res
  have none : ∀ {c : Char} {u : Text}, ¬ ';' = c → after? [';'] (c :: u) = none :=
    fun ne => if_neg ne
  cases pads with
  | nil => exact .none
  | @keep fresh c t t' pads =>
    by_cases sc : ';' = c
    · subst sc
      exact .some ⟨.outer false, nofun, pads⟩
    · rw [none sc, none sc]
      exact .none
  | opening _ _ _ => cases calm
  | @solid s c t t' _ pads =>
    by_cases sc : ';' = c
    · subst sc
      exact .some ⟨.inner s true, nofun, pads⟩
    · rw [none sc, none sc]
      exact .none
  | @semicolon s t t' pads => exact .some ⟨.inner s false, nofun, pads⟩
  | carriage _ => cases calm
  | closing _ _ _ => cases calm

/-- Reads an indented member that begins with a word, and goes on behind the blanks. -/
def member? {β : Type} (w : Text) (g : Text → Option β) (t : Text) : Option β :=
  ((after? w (t.dropWhile isIndent)).bind Text.afterBlanks?).bind g

/-- An indented member is read in both texts or in none, if what follows its first word is. -/
lemma member?_rel {β : Type} {S : β → β → Prop} {w : Text} {g : Text → Option β} (key : Keyword w)
    (next : ∀ u u', Tight u u' → Option.Rel S (g u) (g u')) (res : Resumes t t') :
    Option.Rel S (member? w g t) (member? w g t') := by
  have start := (takeWhile_eq (p := isIndent) (by decide) (by decide) res).2
  exact (keywordAndBlanks_rel (.inl start) key).bind next

/-- The rest of a field declaration, behind its two keywords. -/
def declarator? (u : Text) : Option Text := do
  let blanks := u.takeWhile Text.isBlank
  let declarator := (u.dropWhile Text.isBlank).takeWhile isDeclarator
  let rest ← Text.after? [';'] ((u.dropWhile Text.isBlank).dropWhile isDeclarator)
  let complete :=
    if declarator = [] then 2 ≤ blanks.length ∧ blanks.getLast? ≠ some '\n' else blanks ≠ []
  if complete then some rest else none

/-- A field declaration is a member with two keywords and a declarator. -/
lemma fieldDeclaration_eq (t : Text) : fieldDeclaration t =
    (member? "private" (fun u => (after? "readonly" u).bind declarator?) t).map
      fun rest => (t.takeWhile isIndent, rest) := by
  unfold fieldDeclaration member? declarator?
  cases (after? "private" (t.dropWhile isIndent)).bind Text.afterBlanks? with
  | none => rfl
  | some u =>
    dsimp only [Option.bind_eq_bind, Option.bind_some]
    cases after? "readonly" u with
    | none => rfl
    | some v =>
      dsimp only [Option.bind_some]
      cases after? [';'] ((v.dropWhile isBlank).dropWhile isDeclarator) with
      | none => rfl
      | some rest =>
        dsimp only [Option.bind_some]
        rw [apply_ite (Option.map _), Option.map_some, Option.map_none]

/-- No declarator is read where a statement or its directive begins. -/
lemma declarator?_of_off (off : Off (trimStart t) (trimStart t')) :
    declarator? t = none ∧ declarator? t' = none := by
  obtain ⟨⟨z, front⟩, cr, z', carriage, front'⟩ := off
  unfold declarator?
  unfold trimStart at front front'
  constructor
  · have stop : (t.dropWhile isBlank).dropWhile isDeclarator = '(' :: z := by
      rw [← front]
      rfl
    rw [stop]
    rfl
  · have stop : (t'.dropWhile isBlank).dropWhile isDeclarator = '\n' :: z' := by
      rw [front']
      rcases carriage with rfl | rfl
      · rfl
      · rfl
    rw [stop]
    rfl

/-- A declarator is read in both texts or in none. -/
lemma declarator?_rel (res : Resumes t t') :
    Option.Rel Follows (declarator? t) (declarator? t') := by
  obtain ⟨m, calm, pads⟩ := res
  rcases pads.blanks calm.steady with ⟨same, res⟩ | off
  · obtain ⟨same', res⟩ := takeWhile_eq (p := isDeclarator) (by decide) (by decide) res
    unfold declarator?
    unfold trimStart at same' res
    rw [same, same']
    exact (after?_semicolon res).bind fun rest rest' follows => .ite (.some follows)
  · obtain ⟨none, none'⟩ := declarator?_of_off off
    rw [none, none']
    exact .none

/-- A field declaration is read in both texts or in none. -/
lemma fieldDeclaration_rel (res : Resumes t t') :
    Option.Rel (fun p p' => Follows p.2 p'.2) (fieldDeclaration t) (fieldDeclaration t') := by
  rw [fieldDeclaration_eq, fieldDeclaration_eq]
  refine .map (member?_rel (by decide +kernel) (fun u u' tight => ?_) res) fun _ _ follows => follows
  exact (after?_of_tight tight (by decide +kernel)).bind fun _ _ => declarator?_rel

/-- Reads what stands behind the name of a constructor, and gives the text from its parameters on, the
parameters, and the text behind the brace of the body. -/
def parameters? (u : Text) : Option (Text × Text × Text) := do
  let u ← Text.after? ['('] (Text.trimStart u)
  let (params, v) ← Text.splitAt? ')' u
  let rest ← Text.after? [openBrace] (Text.trimStart v)
  some (u, params, rest)

/-- The head of a constructor is a member with a keyword, its name and parameters. -/
lemma constructorHead_eq (name t : Text) : constructorHead name t =
    (member? "public" (fun u => (after? name u).bind parameters?) t).map
      fun p => (⟨t.takeWhile isIndent, t.length - p.1.length, p.2.1⟩, p.2.2) := by
  unfold constructorHead member? parameters?
  cases (after? "public" (t.dropWhile isIndent)).bind Text.afterBlanks? with
  | none => rfl
  | some u =>
    dsimp only [Option.bind_eq_bind, Option.bind_some]
    cases after? name u with
    | none => rfl
    | some v =>
      dsimp only [Option.bind_some]
      cases after? ['('] (trimStart v) with
      | none => rfl
      | some x =>
        dsimp only [Option.bind_some]
        cases splitAt? ')' x with
        | none => rfl
        | some p =>
          dsimp only [Option.bind_some]
          cases after? [openBrace] (trimStart p.2) with
          | none => rfl
          | some rest => rfl

/-- Parameters are read in both texts or in none. -/
lemma parameters?_rel (res : Resumes t t') :
    Option.Rel (fun p p' => Resumes p.2.2 p'.2.2) (parameters? t) (parameters? t') := by
  refine (after?_of_tight (tight_trimStart res) (by decide +kernel)).bind fun u u' res => ?_
  obtain ⟨m, _, pads⟩ := res
  refine (pads.splitAt? (d := ')') (by decide +kernel)).bind fun p p' rel => ?_
  refine (after?_of_tight (tight_trimStart rel.2) (by decide +kernel)).bind fun rest rest' res => ?_
  exact .some res

/-- No constructor has a name that is the beginning of a statement: the call goes on behind its first
word with a dot. -/
lemma parameters?_of_head {name rest z : Text} (word : ∀ c ∈ name, isWord c = true)
    (eq : after? name (head ++ z) = some rest) : parameters? rest = none := by
  have split : name ++ rest = "Console".toList ++ '.' :: ("WriteLine(".toList ++ z) :=
    (after?_eq_some_iff.1 eq).symm
  obtain ⟨x, stem, eq_rest⟩ : ∃ x, "Console".toList = name ++ x ∧
      rest = x ++ '.' :: ("WriteLine(".toList ++ z) := by
    rcases List.append_eq_append_iff.1 split with ⟨x, stem, eq_rest⟩ | ⟨x, long, eq_dot⟩
    -- the name ends inside the first word of the call, since it cannot have the dot
    · exact ⟨x, stem, eq_rest⟩
    · cases x with
      | nil => exact ⟨[], by simpa using long.symm, by simpa using eq_dot.symm⟩
      | cons d x =>
        obtain ⟨rfl, _⟩ := List.cons_eq_cons.1 eq_dot
        have dot := word '.' (by rw [long]; simp)
        exact absurd dot (by decide)
  have front : ∀ c ∈ rest.head?, isBlank c = false ∧ c ≠ '(' := by
    have all : "Console.".toList.all (fun c => isBlank c = false ∧ c ≠ '(') = true := by decide
    intro c mem
    refine of_decide_eq_true (List.all_eq_true.1 all c ?_)
    rw [eq_rest] at mem
    cases x with
    | nil =>
      obtain rfl := Option.some.inj mem
      decide
    | cons d x =>
      obtain rfl := Option.some.inj mem
      have : d ∈ "Console".toList := by rw [stem]; simp
      exact List.mem_append_left ['.'] this
  cases rest with
  | nil => rfl
  | cons c rest =>
    obtain ⟨solid, ne⟩ := front c rfl
    have stay : trimStart (c :: rest) = c :: rest := List.dropWhile_cons_of_neg (by simp [solid])
    have miss : after? ['('] (c :: rest) = none := if_neg (Ne.symm ne)
    rw [parameters?, stay, miss]
    rfl

/-- The head of a constructor is read in both texts or in none. -/
lemma constructorHead_rel {name : Text} (word : ∀ c ∈ name, isWord c = true) (ne : name ≠ [])
    (res : Resumes t t') :
    Option.Rel (fun p p' => Follows p.2 p'.2) (constructorHead name t) (constructorHead name t') := by
  rw [constructorHead_eq, constructorHead_eq]
  refine .map (member?_rel (by decide +kernel) (fun u u' tight => ?_) res)
    fun p p' res => follows_of_resumes res
  rcases tight with res | ⟨⟨z, rfl⟩, cr, z', _, rfl⟩
  · have wordlike : Wordlike name := by
      intro c mem
      have := word c mem
      constructor
      · rintro rfl
        exact absurd this (by decide)
      · rintro rfl
        exact absurd this (by decide)
    exact (after?_of_calm wordlike res).bind fun _ _ => parameters?_rel
  · have call : (after? name (head ++ z)).bind parameters? = none := by
      rw [Option.bind_eq_none_iff]
      intro rest eq
      exact parameters?_of_head word eq
    have directive : after? name ("#if DEBUG".toList ++ (cr ++ '\n' :: z')) = none := by
      obtain ⟨d, name, rfl⟩ := List.exists_cons_of_ne_nil ne
      refine if_neg ?_
      rintro rfl
      exact absurd (word _ List.mem_cons_self) (by decide)
    rw [call, directive]
    exact .none

end Mender.Rule.Logger
