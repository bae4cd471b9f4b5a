import Mender.Proofs.Json.Grammar
import Mender.Text.Scan

/-!
# Reading JSON texts

A JSON text is cut into tokens (`lex`), and the tokens are put together to a value while the arrays and
objects that are still open wait on a stack (`value`, `key`, `finished`). Every text that writes a value is
read as that value, whatever its layout is (`parse?_of_writes`).
-/

namespace Mender.Json

/-! ## Tokens -/

/-- A part of a JSON text that is not taken apart any further. -/
inductive Token where
  | openArray
  | closeArray
  | openObject
  | closeObject
  | comma
  | colon
  | scalar (j : Json)

/-- The characters that are tokens by themselves. -/
def marks : List (Char × Token) :=
  [('[', .openArray), (']', .closeArray), ('\x7b', .openObject), ('\x7d', .closeObject), (',', .comma),
    (':', .colon)]

/-- The words that are values. -/
def words : List (Text × Json) := [("null", .null), ("true", .bool true), ("false", .bool false)]

/-- Puts a character in front of a text that was read. -/
def withFront (c : Char) (p : Text × Text) : Text × Text := (c :: p.1, p.2)

/-- Reads a text behind its opening quote, through the closing one. -/
def readText : Text → Option (Text × Text)
  | [] => none
  | '"' :: t => some ([], t)
  | '\\' :: 'u' :: a :: b :: c :: d :: t => do
    let n ← code? a b c d
    if n.isValidChar then (readText t).map (withFront (Char.ofNat n)) else none
  | '\\' :: e :: t => do
    let c ← letters.lookup e
    (readText t).map (withFront c)
  | c :: t => if c = '\\' ∨ c.toNat < 0x20 then none else (readText t).map (withFront c)

/-- Reads the digits of a number. -/
def readNumber (t : Text) : Option (Nat × Text) :=
  let digits := t.takeWhile Char.isDigit
  if digits = [] ∨ (digits.head? = some '0' ∧ digits ≠ ['0']) then none
  else some (Nat.ofDigitChars 10 digits 0, t.dropWhile Char.isDigit)

/-- Reads one token at the front of a text. -/
def token? : Text.Recognizer Token := fun t =>
  match t with
  | [] => none
  | c :: rest =>
    match marks.lookup c with
    | some mark => some (mark, rest)
    | none =>
      if c = '"' then (readText rest).map fun p => (.scalar (.string p.1), p.2)
      else if c.isDigit then (readNumber t).map fun p => (.scalar (.number p.1), p.2)
      else words.findSome? fun w => (Text.after? w.1 t).map fun rest => (.scalar w.2, rest)

/-- The tokens of a text, after passing over `skip` characters of a token just read. -/
def lexFrom : (skip : Nat) → Text → Option (List Token)
  | _, [] => some []
  | skip + 1, _ :: t => lexFrom skip t
  | 0, c :: t =>
    if isSpace c then lexFrom 0 t
    else match token? (c :: t) with
      | none => none
      | some (token, rest) => (lexFrom (t.length - rest.length) t).map (token :: ·)

/-- The tokens of a text. -/
def lex (t : Text) : Option (List Token) := lexFrom 0 t

/-! ## Values -/

/-- An array or object that is not closed yet, with what was read of it. -/
inductive Frame where
  | items (before : List Json)
  | member (before : List (Text × Json)) (key : Text)

mutual

/-- Reads a value inside the open frames. -/
def value : List Frame → List Token → Option Json
  | stack, .scalar j :: ts => finished j stack ts
  | stack, .openArray :: ts => value (.items [] :: stack) ts
  | stack, .openObject :: ts => key [] stack ts
  | .items [] :: stack, .closeArray :: ts => finished (.array []) stack ts
  | _, _ => none

/-- Reads the key of a member, behind the members before it. -/
def key : List (Text × Json) → List Frame → List Token → Option Json
  | before, stack, .scalar (.string k) :: .colon :: ts => value (.member before k :: stack) ts
  | [], stack, .closeObject :: ts => finished (.object []) stack ts
  | _, _, _ => none

/-- Goes on behind a value. -/
def finished (j : Json) : List Frame → List Token → Option Json
  | [], [] => some j
  | .items before :: stack, .comma :: ts => value (.items (before ++ [j]) :: stack) ts
  | .items before :: stack, .closeArray :: ts => finished (.array (before ++ [j])) stack ts
  | .member before k :: stack, .comma :: ts => key (before ++ [(k, j)]) stack ts
  | .member before k :: stack, .closeObject :: ts => finished (.object (before ++ [(k, j)])) stack ts
  | _, _ => none

end

/-- The value that a JSON text writes. -/
def parse? (t : Text) : Option Json := (lex t).bind (value [])

variable {t s raw rest k : Text} {j : Json} {n : Nat} {ts us : List Token}

/-! ## Reading tokens -/

/-- A string is read up to the quote behind it. -/
lemma readText_of_escapes (escapes : Escapes raw t) (rest : Text) :
    readText (raw ++ '"' :: rest) = some (t, rest) := by
  induction escapes with
  | nil => rfl
  | @plain c raw t quote backslash large _ ih =>
    rw [List.cons_append, readText, if_neg (not_or.2 ⟨backslash, Nat.not_lt.2 large⟩), ih]
    · rfl
    · exact quote
    · rintro _ _ _ _ _ rfl
      exact absurd rfl backslash
    · rintro _ _ rfl
      exact absurd rfl backslash
  | @letter e c raw t mem _ ih =>
    have all : ∀ p ∈ letters, p.1 ≠ 'u' ∧ letters.lookup p.1 = some p.2 := by decide
    obtain ⟨ne, found⟩ := all _ mem
    rw [List.cons_append, List.cons_append, readText, found, Option.bind_eq_bind, Option.bind_some, ih]
    · rfl
    · rintro _ _ _ _ _ rfl
      exact absurd rfl ne
  | @code a b c d n raw t code valid _ ih =>
    simp only [List.cons_append]
    rw [readText, code, Option.bind_eq_bind, Option.bind_some, if_pos valid, ih]
    rfl

/-- A text does not begin with a digit, so that a number ends before it. -/
def Stops (t : Text) : Prop := ∀ c ∈ t.head?, c.isDigit = false

/-- What stops a number still does so with a stopping text behind it. -/
lemma stops_append (stops : Stops t) (stops' : Stops s) : Stops (t ++ s) := by
  cases t with
  | nil => exact stops'
  | cons c t => exact stops

/-- Space stops a number. -/
lemma stops_of_space (space : Space s) : Stops s := by
  cases s with
  | nil => exact nofun
  | cons c s =>
    intro d mem
    obtain rfl := Option.some.inj mem
    have blank := space c List.mem_cons_self
    simp only [isSpace, Bool.or_eq_true, beq_iff_eq] at blank
    rcases blank with ((rfl | rfl) | rfl) | rfl <;> rfl

/-- A mark is read as its token. -/
lemma token?_mark {c : Char} {m : Token} (mem : (c, m) ∈ marks) (rest : Text) :
    isSpace c = false ∧ token? (c :: rest) = some (m, rest) := by
  simp only [marks, List.mem_cons, List.not_mem_nil, or_false, Prod.mk.injEq] at mem
  rcases mem with ⟨rfl, rfl⟩ | ⟨rfl, rfl⟩ | ⟨rfl, rfl⟩ | ⟨rfl, rfl⟩ | ⟨rfl, rfl⟩ | ⟨rfl, rfl⟩ <;>
    exact ⟨rfl, rfl⟩

/-- A numeral is read up to what stops it. -/
lemma readNumber_of_numeral (numeral : Numeral t n) (stops : Stops rest) :
    readNumber (t ++ rest) = some (n, rest) := by
  have front : (t ++ rest).takeWhile Char.isDigit = t := by
    rw [List.takeWhile_append_of_pos numeral.digits]
    cases rest with
    | nil => exact List.append_nil t
    | cons c rest => rw [List.takeWhile_cons_of_neg (by simp [stops c rfl]), List.append_nil]
  have back : (t ++ rest).dropWhile Char.isDigit = rest := by
    rw [List.dropWhile_append_of_pos numeral.digits]
    cases rest with
    | nil => rfl
    | cons c rest => exact List.dropWhile_cons_of_neg (by simp [stops c rfl])
  rw [readNumber, front, back, numeral.value]
  refine if_neg ?_
  rintro (none | ⟨zero, ne⟩)
  · exact numeral.ne_nil none
  · exact ne (numeral.no_zero zero)

/-- A token that begins with a digit is a number. -/
lemma token?_digit {c : Char} (digit : c.isDigit = true) (t : Text) :
    isSpace c = false ∧
      token? (c :: t) = (readNumber (c :: t)).map fun p => (.scalar (.number p.1), p.2) := by
  have other : ∀ {d : Char}, d.isDigit = false → c ≠ d := by
    rintro _ not rfl
    exact absurd (digit.symm.trans not) (by decide)
  have no_mark : marks.lookup c = none := by
    have all : ∀ p ∈ marks, p.1.isDigit = false := by decide
    rw [List.lookup_eq_none_iff]
    exact fun p mem => bne_iff_ne.2 (other (all p mem))
  have no_space : isSpace c = false := by
    have all : ∀ d, isSpace d = true → d.isDigit = false := by
      intro d space
      exact stops_of_space (List.forall_mem_singleton.2 space) d rfl
    rw [Bool.eq_false_iff]
    exact fun space => other (all c space) rfl
  refine ⟨no_space, ?_⟩
  unfold token?
  dsimp only
  rw [no_mark]
  dsimp only
  rw [if_neg (other rfl), if_pos digit]

/-! ## Cutting a text into tokens -/

/-- Space between tokens is skipped. -/
lemma lex_space (space : Space s) (rest : Text) : lex (s ++ rest) = lex rest := by
  induction s with
  | nil => rfl
  | cons c s ih =>
    obtain ⟨blank, space⟩ := List.forall_mem_cons.1 space
    rw [← ih space, List.cons_append, lex, lexFrom, if_pos blank]
    rfl

/-- Skipping goes past as many characters as are to be skipped. -/
lemma lexFrom_skip (x rest : Text) : lexFrom x.length (x ++ rest) = lexFrom 0 rest := by
  induction x with
  | nil => rfl
  | cons c x ih => exact ih

/-- A token in front is read, and the tokens behind it. -/
lemma lex_token {c : Char} {x : Text} {token : Token} (solid : isSpace c = false)
    (read : token? (c :: (x ++ rest)) = some (token, rest)) :
    lex (c :: (x ++ rest)) = (lex rest).map (token :: ·) := by
  rw [lex, lexFrom, if_neg (by simp [solid]), read]
  dsimp only
  rw [List.length_append, Nat.add_sub_cancel, lexFrom_skip]
  rfl

/-- A mark in front is read, and the tokens behind it. -/
lemma lex_mark {c : Char} {m : Token} (mem : (c, m) ∈ marks) (rest : Text) :
    lex (c :: rest) = (lex rest).map (m :: ·) := by
  obtain ⟨solid, read⟩ := token?_mark mem rest
  exact lex_token (x := []) solid read

/-- Wherever a text ends, it is cut into the same tokens. -/
def Lexes (t : Text) (ts : List Token) : Prop :=
  ∀ rest, Stops rest → lex (t ++ rest) = (lex rest).map (ts ++ ·)

/-- A word that is a value is one token. -/
lemma lexes_word {c : Char} {x : Text} (solid : isSpace c = false)
    (read : ∀ rest, token? (c :: (x ++ rest)) = some (.scalar j, rest)) :
    Lexes (c :: x) [.scalar j] :=
  fun rest _ => lex_token solid (read rest)

/-- A quoted text is one token. -/
lemma lexes_quote (escapes : Escapes raw t) :
    Lexes ('"' :: (raw ++ ['"'])) [.scalar (.string t)] := by
  intro rest _
  refine lex_token rfl ?_
  have inner := readText_of_escapes escapes rest
  rw [List.append_cons] at inner
  unfold token?
  dsimp only [List.append_eq]
  rw [inner]
  rfl

/-- A numeral is one token. -/
lemma lexes_number (numeral : Numeral t n) : Lexes t [.scalar (.number n)] := by
  intro rest stops
  have read := readNumber_of_numeral numeral stops
  obtain ⟨c, t, rfl⟩ := List.exists_cons_of_ne_nil numeral.ne_nil
  obtain ⟨solid, token⟩ := token?_digit (numeral.digits c List.mem_cons_self) (t ++ rest)
  refine lex_token solid ?_
  rw [token, ← List.cons_append, read]
  rfl

/-- A key is one token. -/
lemma lexes_key (writes : Key t k) : Lexes t [.scalar (.string k)] := by
  obtain ⟨s, raw, s', space, escapes, space', rfl⟩ := writes
  intro rest stops
  have quoted := lexes_quote escapes (s' ++ rest) (stops_append (stops_of_space space') stops)
  rw [lex_space space'] at quoted
  rw [← quoted, List.append_assoc, lex_space space]
  simp only [List.cons_append, List.append_assoc, List.nil_append]

/-- A mark behind a text ends its last token. -/
lemma Lexes.append_mark {c : Char} {m : Token} (front : Lexes t ts) (mem : (c, m) ∈ marks)
    (rest : Text) : lex (t ++ c :: rest) = (lex rest).map (ts ++ m :: ·) := by
  have stops : Stops (c :: rest) := by
    have all : ∀ p ∈ marks, p.1.isDigit = false := by decide
    intro d eq
    obtain rfl := Option.some.inj eq
    exact all _ mem
  rw [front _ stops, lex_mark mem, Option.map_map]
  rfl

/-! ## Putting values together -/

/-- Where a part stands, its tokens are read as that part. -/
def Part.ReadAs (ts : List Token) : Part → Prop
  | .value j => ∀ stack more, Json.value stack (ts ++ more) = finished j stack more
  | .items js => ∀ before stack more,
    Json.value (.items before :: stack) (ts ++ .closeArray :: more) =
      finished (.array (before ++ js)) stack more
  | .members ms => ∀ before stack more,
    Json.key before stack (ts ++ .closeObject :: more) = finished (.object (before ++ ms)) stack more

/-- A value of one token is read from it. -/
lemma readAs_scalar (j : Json) : (Part.value j).ReadAs [.scalar j] := by
  intro stack more
  rw [List.singleton_append, value]

/-- A text that writes a part is cut into tokens that are read as that part. -/
lemma readAs_of_writes {p : Part} (writes : Writes t p) : ∃ ts, Lexes t ts ∧ p.ReadAs ts := by
  induction writes with
  | null => exact ⟨_, lexes_word (x := "ull") rfl fun _ => rfl, readAs_scalar _⟩
  | true => exact ⟨_, lexes_word (x := "rue") rfl fun _ => rfl, readAs_scalar _⟩
  | false => exact ⟨_, lexes_word (x := "alse") rfl fun _ => rfl, readAs_scalar _⟩
  | number numeral => exact ⟨_, lexes_number numeral, readAs_scalar _⟩
  | string escapes => exact ⟨_, lexes_quote escapes, readAs_scalar _⟩
  -- space around a value: the token behind it stops where the space begins
  | @pad s t s' j space _ space' ih =>
    obtain ⟨ts, lexes, read⟩ := ih
    refine ⟨ts, fun rest stops => ?_, read⟩
    rw [List.append_assoc, lex_space space, List.append_assoc,
      lexes _ (stops_append (stops_of_space space') stops), lex_space space']
  | @emptyArray s space =>
    refine ⟨[.openArray, .closeArray], fun rest _ => ?_, fun stack more => ?_⟩
    · rw [List.cons_append, lex_mark (m := .openArray) (by simp [marks]), List.append_assoc,
        lex_space space, List.singleton_append, lex_mark (m := .closeArray) (by simp [marks]), Option.map_map]
      rfl
    · rw [List.cons_append, value, List.singleton_append, value]
  -- the bracket that closes an array also ends the last token in it
  | @array t js _ ih =>
    obtain ⟨ts, lexes, read⟩ := ih
    refine ⟨.openArray :: (ts ++ [.closeArray]), fun rest _ => ?_, fun stack more => ?_⟩
    · rw [List.cons_append, lex_mark (m := .openArray) (by simp [marks]), List.append_assoc,
        List.singleton_append, lexes.append_mark (m := .closeArray) (by simp [marks]), Option.map_map]
      simp only [Function.comp_def, List.cons_append, List.append_assoc, List.nil_append]
    · rw [List.cons_append, value, List.append_assoc, List.singleton_append, read, List.nil_append]
  | @emptyObject s space =>
    refine ⟨[.openObject, .closeObject], fun rest _ => ?_, fun stack more => ?_⟩
    · rw [List.cons_append, lex_mark (m := .openObject) (by simp [marks]), List.append_assoc,
        lex_space space, List.singleton_append, lex_mark (m := .closeObject) (by simp [marks]), Option.map_map]
      rfl
    · rw [List.cons_append, value, List.singleton_append, key]
  | @object t ms _ ih =>
    obtain ⟨ts, lexes, read⟩ := ih
    refine ⟨.openObject :: (ts ++ [.closeObject]), fun rest _ => ?_, fun stack more => ?_⟩
    · rw [List.cons_append, lex_mark (m := .openObject) (by simp [marks]), List.append_assoc,
        List.singleton_append, lexes.append_mark (m := .closeObject) (by simp [marks]), Option.map_map]
      simp only [Function.comp_def, List.cons_append, List.append_assoc, List.nil_append]
    · rw [List.cons_append, value, List.append_assoc, List.singleton_append, read, List.nil_append]
  | @lastItem t j _ ih =>
    obtain ⟨ts, lexes, read⟩ := ih
    refine ⟨ts, lexes, fun before stack more => ?_⟩
    rw [read, finished]
  -- behind an item the items before it are kept on the stack, so the rest is read onto them
  | @item t u j js _ _ ih ih' =>
    obtain ⟨ts, lexes, read⟩ := ih
    obtain ⟨us, lexes', read'⟩ := ih'
    refine ⟨ts ++ .comma :: us, fun rest stops => ?_, fun before stack more => ?_⟩
    · rw [List.append_assoc, List.cons_append, lexes.append_mark (m := .comma) (by simp [marks]),
        lexes' _ stops, Option.map_map]
      simp only [Function.comp_def, List.cons_append, List.append_assoc]
    · rw [List.append_assoc, List.cons_append, read, finished, read', List.append_assoc,
        List.singleton_append]
  -- a key waits on the stack for its value, and the value for what follows it
  | @lastMember t u k j writes _ ih =>
    obtain ⟨us, lexes, read⟩ := ih
    refine ⟨.scalar (.string k) :: .colon :: us, fun rest stops => ?_, fun before stack more => ?_⟩
    · rw [List.append_assoc, List.cons_append,
        (lexes_key writes).append_mark (m := .colon) (by simp [marks]), lexes _ stops, Option.map_map]
      rfl
    · rw [List.cons_append, List.cons_append, key, read, finished]
  | @member t u v k j ms writes _ _ ih ih' =>
    obtain ⟨us, lexes, read⟩ := ih
    obtain ⟨vs, lexes', read'⟩ := ih'
    refine ⟨.scalar (.string k) :: .colon :: (us ++ .comma :: vs), fun rest stops => ?_,
      fun before stack more => ?_⟩
    · rw [List.append_assoc, List.cons_append,
        (lexes_key writes).append_mark (m := .colon) (by simp [marks]), List.append_assoc,
        List.cons_append, lexes.append_mark (m := .comma) (by simp [marks]), lexes' _ stops,
        Option.map_map, Option.map_map]
      simp only [Function.comp_def, List.cons_append, List.append_assoc, List.nil_append]
    · rw [List.cons_append, List.cons_append, key, List.append_assoc, List.cons_append, read, finished,
        read', List.append_assoc, List.singleton_append]

/-- A text that writes a value is read as that value. -/
lemma parse?_of_writes (writes : Writes t (.value j)) : parse? t = some j := by
  obtain ⟨ts, lexes, read⟩ := readAs_of_writes writes
  have tokens := lexes [] nofun
  rw [List.append_nil] at tokens
  rw [parse?, tokens, lex, lexFrom, Option.map_some, Option.bind_some, read, finished]

end Mender.Json
