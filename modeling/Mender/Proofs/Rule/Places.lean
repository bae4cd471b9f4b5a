import Mender.Proofs.Rule.Injection

/-!
# Places in padded texts

Scanning a text and scanning the padded text give occurrences that correspond one by one
(`scanFrom_rel`): directive lines hold no occurrence, and behind an occurrence both texts go on. So the
first controller, its body, its fields and its constructors are found in both texts or in none, and a
logger is attached to both or to none (`edits_iff`).
-/

namespace Mender.Rule.Logger

open Text DebugGuard DebugGuard.Pads

variable {α : Type} {anchorage : Anchorage} {r : Recognizer α} {m : Mode} {fresh : Bool}
  {pos pos' : Nat} {t t' u u' : Text} {S : α × Text → α × Text → Prop}

/-! ## Scanning -/

/-- What a recogniser reads begins with one letter behind the indentation. -/
def Led (r : Recognizer α) : Prop :=
  ∀ ⦃t p⦄, r t = some p → (t.dropWhile isIndent).head? = some 'p'

/-- What stops a run is found before a text ends that ends with such a character. -/
lemma head?_dropWhile_append {p : Char → Bool} {d : Char} {x : Text} (last : x.getLast? = some d)
    (stop : p d = false) (t : Text) : ∃ c ∈ x, ((x ++ t).dropWhile p).head? = some c := by
  induction x with
  | nil => cases last
  | cons c x ih =>
    cases taken : p c with
    | false =>
      refine ⟨c, List.mem_cons_self, ?_⟩
      rw [List.cons_append, List.dropWhile_cons_of_neg (by simp [taken])]
      rfl
    | true =>
      rw [List.cons_append, List.dropWhile_cons_of_pos taken]
      cases x with
      | nil =>
        obtain rfl := Option.some.inj last
        exact absurd (stop.symm.trans taken) (by decide)
      | cons e x =>
        obtain ⟨c, mem, head⟩ := ih (by simpa using last)
        exact ⟨c, List.mem_cons_of_mem _ mem, head⟩

/-- Scanning passes over a directive line. -/
lemma scanFrom_directive {d : Char} {x : Text} (led : Led r) (last : x.getLast? = some d)
    (stop : isIndent d = false) (not : 'p' ∉ x) (t : Text) :
    scanFrom anchorage r pos 0 fresh (x ++ t) =
      scanFrom anchorage r (pos + x.length) 0 (d == '\n') t := by
  induction x generalizing pos fresh with
  | nil => cases last
  | cons c x ih =>
    have miss : readAt anchorage r fresh (c :: (x ++ t)) = none := by
      rw [Option.eq_none_iff_forall_ne_some]
      intro p hit
      obtain ⟨e, mem, head⟩ := head?_dropWhile_append last stop t
      have head' := led (eq_of_readAt hit)
      rw [List.cons_append] at head
      obtain rfl := Option.some.inj (head.symm.trans head')
      exact not mem
    rw [List.cons_append, scanFrom_miss miss]
    cases x with
    | nil =>
      obtain rfl := Option.some.inj last
      rfl
    | cons e x =>
      rw [ih (by simpa using last) fun mem => not (List.mem_cons_of_mem _ mem)]
      congr 1
      simp only [List.length_cons]
      omega

/-- The letter that anchors begin with is in no directive line. -/
lemma foreign_p : Foreign 'p' := by decide +kernel

/-- The line below a guarded statement ends with something that is neither an indentation nor a newline. -/
lemma getLast?_closing {s : Statement} (tidy : s.Tidy) : ∃ d,
    ('\n' :: s.closing).getLast? = some d ∧ isIndent d = false ∧ d ≠ '\n' := by
  rw [Statement.closing, ← List.cons_append, ← List.cons_append, List.getLast?_append,
    List.getLast?_append]
  rcases tidy.carriage with cr | cr
  · rw [cr]
    exact ⟨'f', rfl, by decide, by decide⟩
  · rw [cr]
    exact ⟨'\r', rfl, by decide, by decide⟩

/-- A place in a padded text may be at the start of a line or not. -/
def Fits : Mode → (atLineStart : Bool) → Prop
  | .outer fresh, atLineStart => fresh = true → atLineStart = true
  | .inner _ unfinished, atLineStart => unfinished = false → atLineStart = false

/-- Texts behind a character of a line are at no start of a line. -/
lemma fits_of_follows (behind : Follows u u') : ∃ m : Mode, Fits m false ∧ Pads m u u' := by
  obtain ⟨m, ne, pads⟩ := behind
  refine ⟨m, ?_, pads⟩
  cases m with
  | outer fresh =>
    intro
    subst fresh
    exact absurd rfl ne
  | inner _ _ => exact fun _ => rfl

/-- An occurrence in a text and one in the padded text have values and rests that correspond. -/
def Corresponds (S : α × Text → α × Text → Prop) (t t' : Text) (o o' : Occurrence α) : Prop :=
  S (o.value, t.drop o.stop) (o'.value, t'.drop o'.stop)

/-- What is behind the front of a rest is the rest behind both. -/
lemma drop_of_drop {x y : Text} (place : t.drop pos = x ++ y) : t.drop (pos + x.length) = y := by
  rw [← List.drop_drop, place, List.drop_left]

/-- The occurrences that scanning finds correspond one by one. -/
lemma scanFrom_rel (consumes : Consumes r) (led : Led r)
    (follows : ∀ ⦃p p'⦄, S p p' → Follows p.2 p'.2)
    (rel : ∀ ⦃u u'⦄, u <:+ t → Resumes u u' → Option.Rel S (r u) (r u'))
    (pads : Pads m u u') (fits : Fits m fresh) (place : t.drop pos = u) (place' : t'.drop pos' = u') :
    List.Forall₂ (Corresponds S t t') (scanFrom anchorage r pos 0 fresh u)
      (scanFrom anchorage r pos' 0 fresh u') := by
  induction len : u'.length using Nat.strong_induction_on
    generalizing m fresh pos pos' u u' with
  | _ n ih =>
    subst len
    -- where both texts go on with the same character, the same is read or nothing is
    have step : ∀ {n : Mode} {c : Char} {v v' : Text}, u = c :: v → u' = c :: v' →
        Resumes u u' → Pads n v v' → Fits n (c == '\n') →
        List.Forall₂ (Corresponds S t t') (scanFrom anchorage r pos 0 fresh u)
          (scanFrom anchorage r pos' 0 fresh u') := by
      intro n c v v' eq eq' res next fits
      have read : Option.Rel S (readAt anchorage r fresh u) (readAt anchorage r fresh u') :=
        .ite (rel (place ▸ List.drop_suffix _ _) res)
      cases hit : readAt anchorage r fresh u with
      | none =>
        cases hit' : readAt anchorage r fresh u' with
        | none =>
          subst eq eq'
          rw [scanFrom_miss hit, scanFrom_miss hit']
          exact ih _ (Nat.lt_succ_self _) next fits (drop_of_drop (x := [c]) place)
            (drop_of_drop (x := [c]) place') rfl
        | some p' =>
          rw [hit, hit'] at read
          cases read
      | some p =>
        cases hit' : readAt anchorage r fresh u' with
        | none =>
          rw [hit, hit'] at read
          cases read
        | some p' =>
          rw [hit, hit'] at read
          cases read with
          | some same =>
            obtain ⟨d, nl, x, shape⟩ := consumes (eq_of_readAt hit)
            obtain ⟨d', nl', x', shape'⟩ := consumes (eq_of_readAt hit')
            obtain ⟨m, fits, behind⟩ := fits_of_follows (follows same)
            rw [scanFrom_hit hit nl shape.symm, scanFrom_hit hit' nl' shape'.symm]
            rw [List.append_cons] at shape shape'
            have rest := drop_of_drop (place.trans shape.symm)
            have rest' := drop_of_drop (place'.trans shape'.symm)
            refine .cons ?_ (ih _ ?_ behind fits rest rest' rfl)
            · unfold Corresponds
              rw [rest, rest']
              exact same
            · rw [← shape', List.length_append, List.length_append, List.length_singleton]
              omega
    cases pads with
    | nil => exact .nil
    | keep pads => exact step rfl rfl ⟨.outer false, rfl, .keep pads⟩ pads fun h => h
    | @opening s _ v' tidy pre pads =>
      have not : 'p' ∉ s.opening ++ ['\n'] := by
        rw [List.mem_append, not_or]
        exact ⟨foreign_p.notMem_opening tidy, by decide⟩
      rw [List.append_cons] at place'
      rw [List.append_cons, scanFrom_directive led (List.getLast?_concat ..) (by decide) not, fits rfl]
      refine ih _ ?_ pads nofun place (drop_of_drop place') rfl
      rw [List.length_append, List.length_cons]
      omega
    | @solid s c v v' nl pads =>
      exact step rfl rfl ⟨.inner s true, rfl, .solid nl pads⟩ pads nofun
    | @semicolon s v v' pads =>
      exact step rfl rfl ⟨.inner s true, rfl, .semicolon pads⟩ pads fun _ => rfl
    | @carriage s v v' pads =>
      have miss : ∀ {v}, readAt anchorage r fresh ('\r' :: v) = none := by
        intro v
        rw [Option.eq_none_iff_forall_ne_some]
        intro p hit
        have front : some '\r' = some 'p' := led (eq_of_readAt hit)
        cases front
      rw [scanFrom_miss miss, scanFrom_miss miss]
      exact ih _ (Nat.lt_succ_self _) pads (fun _ => rfl) (drop_of_drop (x := ['\r']) place)
        (drop_of_drop (x := ['\r']) place') rfl
    | @closing s _ v' tidy head pads =>
      have not : 'p' ∉ '\n' :: s.closing := by
        rw [List.mem_cons, not_or]
        exact ⟨by decide, foreign_p.notMem_closing tidy⟩
      obtain ⟨d, last, stop, nl⟩ := getLast?_closing tidy
      rw [← List.cons_append] at place'
      rw [← List.cons_append, scanFrom_directive led last stop not, beq_false_of_ne nl, fits rfl]
      refine ih _ ?_ pads nofun place (drop_of_drop place') rfl
      rw [List.length_cons, List.length_append]
      omega

/-- A scan finds corresponding occurrences in a text and in the padded text. -/
lemma scan_rel (anchorage : Anchorage) (consumes : Consumes r) (led : Led r)
    (follows : ∀ ⦃p p'⦄, S p p' → Follows p.2 p'.2)
    (rel : ∀ ⦃u u'⦄, u <:+ t → Resumes u u' → Option.Rel S (r u) (r u'))
    (pads : Pads m t t') (steady : m.Steady) :
    List.Forall₂ (Corresponds S t t') (scan anchorage r t) (scan anchorage r t') := by
  have fits : Fits m true := by
    cases m with
    | outer _ => exact fun _ => rfl
    | inner s unfinished =>
      intro done
      exact absurd (done.symm.trans steady) (by decide)
  exact scanFrom_rel consumes led follows rel pads fits rfl rfl

/-! ## The patterns -/

/-- What is left behind modifiers is an end of the text. -/
lemma skipModifiers_suffix (n : Nat) (t : Text) : skipModifiers n t <:+ t := by
  induction n generalizing t with
  | zero => exact List.suffix_refl t
  | succ n ih =>
    rw [skipModifiers]
    split
    · exact List.suffix_refl t
    · next eq =>
      obtain ⟨w, _, eq⟩ := List.exists_of_findSome?_eq_some eq
      exact (ih _).trans (suffix_of_wordAndBlanks eq)

/-- What is left behind the words before a class name is an end of the text. -/
lemma beforeName?_suffix (eq : beforeName? t = some u) : u <:+ t := by
  obtain ⟨v, front, back⟩ := Option.bind_eq_some_iff.1 eq
  calc u <:+ skipModifiers v.length v := suffix_of_wordAndBlanks back
    _ <:+ v := skipModifiers_suffix _ _
    _ <:+ t := suffix_of_wordAndBlanks front

/-- A class header ends with its opening brace. -/
lemma endsWith_classHeader : EndsWith classHeader openBrace := by
  intro t h rest eq
  rw [classHeader_eq, Option.bind_eq_some_iff] at eq
  obtain ⟨u, before, eq⟩ := eq
  unfold nameAndBases? at eq
  split at eq
  · cases eq
  · obtain ⟨p, split, eq⟩ := Option.bind_eq_some_iff.1 eq
    obtain ⟨_, rfl⟩ := Prod.mk.inj (Option.some.inj eq)
    calc openBrace :: p.2 <:+ u.dropWhile isWord := ⟨p.1, (eq_of_splitAt? split).symm⟩
      _ <:+ u := List.dropWhile_suffix _
      _ <:+ t := beforeName?_suffix before

/-- A declarator ends with its semicolon. -/
lemma declarator?_suffix (eq : declarator? t = some u) : ';' :: u <:+ t := by
  obtain ⟨rest, stop, eq⟩ := Option.bind_eq_some_iff.1 eq
  have last : ';' :: rest <:+ t :=
    calc ';' :: rest <:+ (t.dropWhile isBlank).dropWhile isDeclarator :=
          ⟨[], (after?_eq_some_iff.1 stop).symm⟩
      _ <:+ t.dropWhile isBlank := List.dropWhile_suffix _
      _ <:+ t := List.dropWhile_suffix _
  rw [Option.ite_none_right_eq_some] at eq
  obtain ⟨_, same⟩ := eq
  obtain rfl := Option.some.inj same
  exact last

/-- The parameters of a constructor end with the opening brace of its body. -/
lemma parameters?_suffix {p : Text × Text × Text} (eq : parameters? t = some p) :
    openBrace :: p.2.2 <:+ t := by
  obtain ⟨u, front, eq⟩ := Option.bind_eq_some_iff.1 eq
  obtain ⟨q, params, eq⟩ := Option.bind_eq_some_iff.1 eq
  obtain ⟨rest, brace, eq⟩ := Option.bind_eq_some_iff.1 eq
  obtain rfl := Option.some.inj eq
  calc openBrace :: rest <:+ trimStart q.2 := ⟨[], (after?_eq_some_iff.1 brace).symm⟩
    _ <:+ q.2 := List.dropWhile_suffix _
    _ <:+ u := ⟨q.1 ++ [')'], by rw [eq_of_splitAt? params, List.append_assoc]; rfl⟩
    _ <:+ trimStart t := suffix_of_after? front
    _ <:+ t := List.dropWhile_suffix _

/-- A text that a word is read from begins as the word does. -/
lemma head?_of_wordAndBlanks {w : Text} {c : Char} (front : w.head? = some c)
    (eq : (after? w t).bind Text.afterBlanks? = some u) : t.head? = some c := by
  obtain ⟨v, word, _⟩ := Option.bind_eq_some_iff.1 eq
  obtain ⟨w, rfl⟩ := List.head?_eq_some_iff.1 front
  rw [after?_eq_some_iff.1 word]
  rfl

/-- A member begins, behind its indentation, as its first word does, and goes on with an end of the text. -/
lemma of_member? {β : Type} {w : Text} {g : Text → Option β} {a : β} {c : Char}
    (front : w.head? = some c) (eq : member? w g t = some a) :
    (t.dropWhile isIndent).head? = some c ∧ ∃ u, u <:+ t ∧ g u = some a := by
  obtain ⟨u, word, eq⟩ := Option.bind_eq_some_iff.1 eq
  refine ⟨head?_of_wordAndBlanks front word, u, ?_, eq⟩
  exact (suffix_of_wordAndBlanks word).trans (List.dropWhile_suffix _)

/-- A field declaration ends with its semicolon. -/
lemma endsWith_fieldDeclaration : EndsWith fieldDeclaration ';' := by
  intro t indent rest eq
  rw [fieldDeclaration_eq, Option.map_eq_some_iff] at eq
  obtain ⟨_, eq, shape⟩ := eq
  obtain ⟨_, rfl⟩ := Prod.mk.inj shape
  obtain ⟨_, u, behind, eq⟩ := of_member? rfl eq
  obtain ⟨v, word, eq⟩ := Option.bind_eq_some_iff.1 eq
  calc _ <:+ v := declarator?_suffix eq
    _ <:+ u := suffix_of_after? word
    _ <:+ t := behind

/-- The head of a constructor ends with the opening brace of its body. -/
lemma endsWith_constructorHead (name : Text) : EndsWith (constructorHead name) openBrace := by
  intro t head rest eq
  rw [constructorHead_eq, Option.map_eq_some_iff] at eq
  obtain ⟨p, eq, shape⟩ := eq
  obtain ⟨_, rfl⟩ := Prod.mk.inj shape
  obtain ⟨_, u, behind, eq⟩ := of_member? rfl eq
  obtain ⟨v, word, eq⟩ := Option.bind_eq_some_iff.1 eq
  calc _ <:+ v := parameters?_suffix eq
    _ <:+ u := suffix_of_after? word
    _ <:+ t := behind

/-- A class header begins with its letter behind the indentation. -/
lemma led_classHeader : Led classHeader := by
  intro t p eq
  rw [classHeader_eq, Option.bind_eq_some_iff] at eq
  obtain ⟨u, before, _⟩ := eq
  obtain ⟨v, front, _⟩ := Option.bind_eq_some_iff.1 before
  obtain ⟨t, rfl⟩ := List.head?_eq_some_iff.1 (head?_of_wordAndBlanks rfl front)
  rfl

/-- A field declaration begins with its letter behind the indentation. -/
lemma led_fieldDeclaration : Led fieldDeclaration := by
  intro t p eq
  rw [fieldDeclaration_eq, Option.map_eq_some_iff] at eq
  obtain ⟨_, eq, _⟩ := eq
  exact (of_member? rfl eq).1

/-- The head of a constructor begins with its letter behind the indentation. -/
lemma led_constructorHead (name : Text) : Led (constructorHead name) := by
  intro t p eq
  rw [constructorHead_eq, Option.map_eq_some_iff] at eq
  obtain ⟨_, eq, _⟩ := eq
  exact (of_member? rfl eq).1

/-! ## The places of a logger -/

/-- In lists that correspond the first elements that are wanted do. -/
lemma rel_find? {β γ : Type} {R : β → γ → Prop} {p : β → Bool} {q : γ → Bool} {l : List β}
    {l' : List γ} (rel : List.Forall₂ R l l') (same : ∀ ⦃a b⦄, R a b → p a = q b) :
    Option.Rel R (l.find? p) (l'.find? q) := by
  induction rel with
  | nil => exact .none
  | @cons a b l l' r rest ih =>
    rw [List.find?_cons, List.find?_cons, ← same r]
    cases p a with
    | true => exact .some r
    | false => exact ih

/-- A controller in a text and one in the padded text that correspond. -/
structure SameController (t t' : Text) (c c' : Controller) : Prop where
  name : c.name = c'.name
  inside : Resumes (t.drop c.inside) (t'.drop c'.inside)

/-- The first controllers correspond, if no statement stands where a class should have its name. -/
lemma firstController?_rel (pads : Pads (.outer true) t t') (named : ¬ Dangling t) :
    Option.Rel (SameController t t') (firstController? t) (firstController? t') := by
  have rel : ∀ ⦃u u'⦄, u <:+ t → Resumes u u' →
      Option.Rel (fun p p' => SameHeader p.1 p'.1 ∧ Resumes p.2 p'.2) (classHeader u)
        (classHeader u') := by
    intro u u' suffix res
    refine classHeader_rel res fun v before pre => named ?_
    exact ⟨u, (List.mem_tails _ _).2 suffix, v, before, pre⟩
  have headers := scan_rel .anywhere (endsWith_classHeader.consumes (by decide)) led_classHeader
    (fun p p' rel => follows_of_resumes rel.2) rel pads trivial
  refine (rel_find? headers fun o o' rel => rel.1.2).map fun o o' rel => ?_
  exact ⟨rel.1.1, rel.2⟩

/-- A padded text mentions a logger when the text does. -/
lemma unlogged_iff (pads : Pads m t t') : Unlogged t ↔ Unlogged t' := by
  have call : "Console.WriteLine".toList <:+: t ↔ "Console.WriteLine".toList <:+: t' :=
    pads.infix_iff (by decide +kernel)
  have field : "_logger".toList <:+: t ↔ "_logger".toList <:+: t' :=
    pads.infix_iff (by decide +kernel)
  have type : "ILogger".toList <:+: t ↔ "ILogger".toList <:+: t' :=
    pads.infix_iff (by decide +kernel)
  constructor
  · intro unlogged
    exact ⟨call.1 unlogged.prints, mt field.2 unlogged.no_field, mt type.2 unlogged.no_type⟩
  · intro unlogged
    exact ⟨call.2 unlogged.prints, mt field.1 unlogged.no_field, mt type.1 unlogged.no_type⟩

/-- A controller that a logger can be attached to: its body has an end, a field to put the logger behind,
and one constructor to give it to. -/
def Attachable (t : Text) (c : Controller) : Prop :=
  ∃ b ∈ blockBody? 0 (t.drop c.inside), scan .lineStart fieldDeclaration b ≠ [] ∧
    (scan .lineStart (constructorHead c.name) b).length = 1

/-- The logger rule edits a text without logger whose first controller has all places for one. -/
lemma edits_iff_attachable : (∃ u n, apply t = .edited u n) ↔
    Unlogged t ∧ ∃ c ∈ firstController? t, Attachable t c := by
  constructor
  · rintro ⟨u, n, eq⟩
    obtain ⟨unlogged, ⟨c, places, first, ok, _⟩, _⟩ := apply_eq_edited_iff.1 eq
    obtain ⟨b, last, only, body, field, ctor, _⟩ := splices_eq_ok_iff.1 ok
    refine ⟨unlogged, c, first, b, body, ?_, by rw [ctor]; rfl⟩
    intro none
    rw [none] at field
    cases field
  · rintro ⟨unlogged, c, first, b, body, field, ctor⟩
    obtain ⟨only, ctor⟩ := List.length_eq_one_iff.1 ctor
    have ok := splices_eq_ok_iff.2
      ⟨b, _, only, body, List.getLast?_eq_some_getLast field, ctor, rfl⟩
    exact ⟨_, _, apply_eq_edited_iff.2 ⟨unlogged, ⟨c, _, first, ok, rfl⟩, rfl⟩⟩

/-- A controller has all places for a logger when the corresponding one in the padded text has them. -/
lemma attachable_iff {c c' : Controller} (same : SameController t t' c c') (ne : c.name ≠ [])
    (word : ∀ d ∈ c.name, isWord d = true) : Attachable t c ↔ Attachable t' c' := by
  obtain ⟨m, calm, pads⟩ := same.inside
  have rel := blockBody?_rel pads 0
  unfold Attachable
  rw [← same.name]
  generalize blockBody? 0 (t.drop c.inside) = x, blockBody? 0 (t'.drop c'.inside) = x' at rel
  cases rel with
  | none => exact ⟨nofun, nofun⟩
  | @some b b' pads =>
    have fields := scan_rel .lineStart (endsWith_fieldDeclaration.consumes (by decide))
      led_fieldDeclaration (fun p p' follows => follows) (fun u u' _ => fieldDeclaration_rel) pads calm.steady
    have ctors := scan_rel .lineStart ((endsWith_constructorHead c.name).consumes (by decide))
      (led_constructorHead c.name) (fun p p' follows => follows) (fun u u' _ => constructorHead_rel word ne) pads calm.steady
    simp only [Option.mem_some_iff, exists_eq_left', ne_eq, ← List.length_eq_zero_iff,
      fields.length_eq, ctors.length_eq]

/-- A padded text is given a logger if and only if the text itself is, unless a statement stands where a
class should have its name. -/
lemma edits_iff (pads : Pads (.outer true) t t') (named : ¬ Dangling t) :
    (∃ u n, apply t = .edited u n) ↔ ∃ u n, apply t' = .edited u n := by
  rw [edits_iff_attachable, edits_iff_attachable, unlogged_iff pads]
  refine and_congr_right fun _ => ?_
  have rel := firstController?_rel pads named
  have word := fun c => isWord_of_firstController? (t := t) (c := c)
  generalize firstController? t = x, firstController? t' = x' at rel word
  cases rel with
  | none => exact ⟨nofun, nofun⟩
  | @some c c' same =>
    obtain ⟨ne, word⟩ := word c rfl
    simp only [Option.mem_some_iff, exists_eq_left']
    exact attachable_iff same ne word

end Mender.Rule.Logger
