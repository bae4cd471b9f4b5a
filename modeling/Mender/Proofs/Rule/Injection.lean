import Mender.Proofs.Rule.Anchors
import Mender.Proofs.Text.Scanning
import Mender.Rule.Logger
import Mender.Rule.Timestamp

/-!
# Injected loggers

The places of a logger are those that `splices_eq_ok_iff` names. All texts are put in from the last place
to the first one, so a text that was put in stays whole (`infix_applyAll`), and a text that has been
given a logger shows its name (`logger_of_edited`). What is put in begins and ends with characters that
keep it apart from its neighbours, so that no reading of the local clock arises
(`not_localClock_of_edited`).
-/

namespace Mender.Rule.Logger

open Text

variable {t : Text} {c : Controller} {places : List Splice}

/-! ## The places -/

/-- The declaration of the field that holds the logger. -/
def fieldText (nl indent name : Text) : Text :=
  nl ++ indent ++ "private readonly " ++ loggerType name ++ " _logger;"

/-- The body of a controller is what stands before the brace that closes it. -/
lemma body_eq (t : Text) (c : Controller) : body t c = match blockBody? 0 (t.drop c.inside) with
    | none => .error (.closingBrace c.name)
    | some b => .ok b := by
  unfold body blockBody?
  dsimp only
  cases closingBrace? 0 (t.drop c.inside) with
  | none => rfl
  | some stop => rfl

/-- A logger is attached behind the last field of the body and to its only constructor. -/
lemma splices_eq_ok_iff : splices t c = .ok places ↔
    ∃ b last only, blockBody? 0 (t.drop c.inside) = some b ∧
      (scan .lineStart fieldDeclaration b).getLast? = some last ∧
      scan .lineStart (constructorHead c.name) b = [only] ∧
      importSplice t ++ [⟨last.stop, fieldText (newline t) last.value c.name⟩,
        parameterSplice c.name only, assignmentSplice (newline t) only].map (·.inBodyOf c) = places := by
  unfold splices
  rw [body_eq]
  cases blockBody? 0 (t.drop c.inside) with
  | none => exact ⟨nofun, nofun⟩
  | some b =>
    dsimp only
    rw [ok_bind, fieldSplice]
    cases field : (scan .lineStart fieldDeclaration b).getLast? with
    | none =>
      refine ⟨nofun, ?_⟩
      rintro ⟨_, _, _, ⟨⟩, field', _⟩
      exact absurd (field.symm.trans field') nofun
    | some last =>
      dsimp only
      rw [ok_bind]
      constructor
      · intro eq
        unfold soleConstructor at eq
        cases ctor : scan .lineStart (constructorHead c.name) b with
        -- none or several constructors are an error
        | nil =>
          rw [ctor] at eq
          cases eq
        | cons only others =>
          cases others with
          | nil =>
            rw [ctor] at eq
            exact ⟨b, last, only, rfl, field, ctor, Except.ok.inj eq⟩
          | cons other others =>
            rw [ctor] at eq
            cases eq
      · rintro ⟨_, _, only, ⟨⟩, field', ctor, rfl⟩
        obtain rfl := Option.some.inj (field.symm.trans field')
        have sole : soleConstructor c.name b = .ok only := by simp only [soleConstructor, ctor]
        rw [sole]
        rfl

/-- The name of a controller is a word. -/
lemma isWord_of_firstController? {c : Controller} (first : firstController? t = some c) :
    c.name ≠ [] ∧ ∀ d ∈ c.name, isWord d = true := by
  obtain ⟨o, found, rfl⟩ := Option.map_eq_some_iff.1 first
  obtain ⟨_, u, rest, eq⟩ := of_mem_scan (List.mem_of_find?_eq_some found)
  rw [classHeader_eq, Option.bind_eq_some_iff] at eq
  obtain ⟨v, _, eq⟩ := eq
  unfold nameAndBases? at eq
  split at eq
  · cases eq
  · next ne =>
    obtain ⟨p, _, eq⟩ := Option.bind_eq_some_iff.1 eq
    have header := (Prod.mk.inj (Option.some.inj eq)).1
    rw [← header]
    exact ⟨ne, fun d mem => List.mem_takeWhile_imp mem⟩

/-! ## Insertions -/

/-- Putting in inside of a front leaves alone what stands behind the front. -/
lemma insertAt_append {i : Nat} {s x y : Text} (le : i ≤ x.length) :
    insertAt i s (x ++ y) = insertAt i s x ++ y := by
  rw [insertAt, insertAt, List.take_append_of_le_length le, List.drop_append_of_le_length le]
  simp only [List.append_assoc]

/-- Putting in makes no text shorter. -/
lemma length_le_insertAt (i : Nat) (s x : Text) : x.length ≤ (insertAt i s x).length := by
  simp only [insertAt, List.length_append, List.length_take, List.length_drop]
  omega

/-- What stands behind all later insertions stays where it is. -/
lemma foldl_insertAt_append {x y : Text} (le : ∀ s ∈ places, s.offset ≤ x.length) :
    ∃ x', places.foldl (fun t s => insertAt s.offset s.text t) (x ++ y) = x' ++ y := by
  induction places generalizing x with
  | nil => exact ⟨x, rfl⟩
  | cons s places ih =>
    rw [List.foldl_cons, insertAt_append (le s List.mem_cons_self)]
    apply ih
    intro s' mem
    exact (le s' (List.mem_cons_of_mem _ mem)).trans (length_le_insertAt _ _ _)

/-- What is put in is found in the result, if the last place comes first. -/
lemma infix_foldl_insertAt {s : Splice} (sorted : places.Pairwise fun a b => b.offset ≤ a.offset)
    (mem : s ∈ places) (le : s.offset ≤ t.length) :
    s.text <:+: places.foldl (fun t s => insertAt s.offset s.text t) t := by
  induction places generalizing t with
  | nil => cases mem
  | cons s' places ih =>
    obtain ⟨later, sorted⟩ := List.pairwise_cons.1 sorted
    rw [List.foldl_cons]
    rcases List.mem_cons.1 mem with rfl | mem
    · -- all other insertions come at the same place or before it
      have front : (t.take s.offset).length = s.offset := by
        rw [List.length_take, Nat.min_eq_left le]
      obtain ⟨x, eq⟩ := foldl_insertAt_append (x := t.take s.offset) (y := s.text ++ t.drop s.offset)
        fun s' mem => (later s' mem).trans_eq front.symm
      rw [insertAt, List.append_assoc, eq]
      exact ⟨x, _, List.append_assoc _ _ _⟩
    · exact ih sorted mem (le.trans (length_le_insertAt _ _ _))

/-- The places are taken from the last one to the first one. -/
lemma sorted_places (places : List Splice) :
    (places.mergeSort fun a b => decide (b.offset ≤ a.offset)).Pairwise
      fun a b => b.offset ≤ a.offset := by
  refine (List.pairwise_mergeSort ?_ ?_ places).imp fun h => of_decide_eq_true h
  · intro a b c ab bc
    rw [decide_eq_true_eq] at ab bc ⊢
    exact bc.trans ab
  · intro a b
    rw [Bool.or_eq_true, decide_eq_true_eq, decide_eq_true_eq]
    exact Nat.le_total _ _

/-- A text that is put in at a place of the text is whole in the end. -/
lemma infix_applyAll {s : Splice} (mem : s ∈ places) (le : s.offset ≤ t.length) :
    s.text <:+: Splice.applyAll places t :=
  infix_foldl_insertAt (sorted_places places) (List.mem_mergeSort.2 mem) le

/-! ## Edited texts -/

/-- A text that prints to the console and has no logger. -/
structure Unlogged (t : Text) : Prop where
  prints : "Console.WriteLine".toList <:+: t
  no_field : ¬ "_logger".toList <:+: t
  no_type : ¬ "ILogger".toList <:+: t

/-- The rule edits the texts that it is for, if it finds all places. -/
lemma apply_eq_edited_iff {u : Text} {n : Nat} : apply t = .edited u n ↔
    Unlogged t ∧ (∃ c places, firstController? t = some c ∧ splices t c = .ok places ∧
      Splice.applyAll places t = u) ∧ n = 1 := by
  unfold apply
  split
  -- the checks in the order of the rule: it prints, it has no logger, it has a controller with all places
  · next quiet =>
    refine ⟨nofun, fun ⟨unlogged, _⟩ => ?_⟩
    rw [occurs_iff.2 unlogged.prints] at quiet
    cases quiet
  · next prints =>
    split
    · next logged =>
      refine ⟨nofun, fun ⟨unlogged, _⟩ => ?_⟩
      rw [Bool.or_eq_true, occurs_iff, occurs_iff] at logged
      exact absurd logged (not_or.2 ⟨unlogged.no_field, unlogged.no_type⟩)
    · next unlogged =>
      rw [Bool.or_eq_true, occurs_iff, occurs_iff, not_or] at unlogged
      rw [Bool.not_eq_true', Bool.not_eq_false, occurs_iff] at prints
      rw [and_iff_right ⟨prints, unlogged.1, unlogged.2⟩]
      cases firstController? t with
      | none => exact ⟨nofun, nofun⟩
      | some c =>
        dsimp only
        cases ok : splices t c with
        | error missing =>
          refine ⟨nofun, ?_⟩
          rintro ⟨⟨_, _, ⟨⟩, ok', _⟩, _⟩
          exact absurd (ok.symm.trans ok') nofun
        | ok places =>
          constructor
          · intro eq
            obtain ⟨rfl, rfl⟩ := Outcome.edited.inj eq
            exact ⟨⟨c, places, rfl, ok, rfl⟩, rfl⟩
          · rintro ⟨⟨_, _, ⟨⟩, ok', rfl⟩, rfl⟩
            obtain rfl := Except.ok.inj (ok.symm.trans ok')
            rfl

/-- The body of a block is inside of the text. -/
lemma add_length_le_of_blockBody? {b : Text} {depth i : Nat} (body : blockBody? depth (t.drop i) = some b) :
    i + b.length ≤ t.length := by
  obtain ⟨z, eq⟩ := eq_of_blockBody? body
  have length := congrArg List.length eq
  rw [List.length_drop, List.length_append, List.length_cons] at length
  omega

/-- A text that was given a logger has the name of its field. -/
lemma logger_of_edited {u : Text} {n : Nat} (eq : apply t = .edited u n) :
    "_logger".toList <:+: u := by
  obtain ⟨_, ⟨c, places, _, ok, rfl⟩, _⟩ := apply_eq_edited_iff.1 eq
  obtain ⟨b, last, only, body, field, _, rfl⟩ := splices_eq_ok_iff.1 ok
  have inside := add_length_le_of_blockBody? body
  have stop := (of_mem_scan (List.mem_of_getLast? field)).1
  have name : "_logger".toList <:+: fieldText (newline t) last.value c.name :=
    calc "_logger".toList <:+: " _logger;".toList := by decide
      _ <:+: fieldText (newline t) last.value c.name := (List.suffix_append _ _).isInfix
  refine name.trans (infix_applyAll (s := Splice.inBodyOf c ⟨last.stop, _⟩) ?_ ?_)
  · exact List.mem_append_right _ List.mem_cons_self
  · exact (Nat.add_le_add_left stop _).trans inside

/-! ## The clock -/

/-- A text that keeps a word from arising when it is put in anywhere: it does not have the word, and at
its two ends stand characters that are not in the word. -/
structure Apart (w x : Text) : Prop where
  first : ∃ c ∈ x.head?, c ∉ w
  last : ∃ c ∈ x.getLast?, c ∉ w
  inner : ¬ w <:+: x

/-- A text that stays apart from a word does not complete it where it is put in. -/
lemma Apart.not_infix_insertAt {w x : Text} {i : Nat} (apart : Apart w x) (not : ¬ w <:+: t) :
    ¬ w <:+: insertAt i x t := by
  obtain ⟨c, first, not_c⟩ := apart.first
  obtain ⟨d, last, not_d⟩ := apart.last
  intro inf
  rw [insertAt, List.append_assoc] at inf
  have head : (x ++ t.drop i).head? = some c := List.mem_head?_append_of_mem_head? first
  rcases infix_append_of_head head not_c inf with inf | inf
  · exact not (inf.trans (List.take_prefix i t).isInfix)
  · rcases infix_append_of_last last not_d inf with inf | inf
    · exact apart.inner inf
    · exact not (inf.trans (List.drop_suffix i t).isInfix)

/-- Splices that stay apart from a word do not complete it. -/
lemma not_infix_applyAll {w : Text} (apart : ∀ s ∈ places, Apart w s.text) (not : ¬ w <:+: t) :
    ¬ w <:+: Splice.applyAll places t := by
  have all : ∀ s ∈ places.mergeSort fun a b => decide (b.offset ≤ a.offset), Apart w s.text :=
    fun s mem => apart s (List.mem_mergeSort.1 mem)
  unfold Splice.applyAll
  generalize places.mergeSort (fun a b => decide (b.offset ≤ a.offset)) = sorted at all
  induction sorted generalizing t with
  | nil => exact not
  | cons s sorted ih =>
    obtain ⟨apart, all⟩ := List.forall_mem_cons.1 all
    exact ih (apart.not_infix_insertAt not) all

/-- A text without dot stays apart from the reading of the clock, if its ends do not belong to it. -/
lemma apart_of_dot {x : Text} (first : ∃ c ∈ x.head?, c ∉ Timestamp.localClock)
    (last : ∃ c ∈ x.getLast?, c ∉ Timestamp.localClock) (dot : '.' ∉ x) :
    Apart Timestamp.localClock x :=
  ⟨first, last, fun inf => dot (inf.subset (by decide))⟩

/-- A text uses the pair or bare newlines. -/
lemma newline_cases (t : Text) : newline t = "\r\n".toList ∨ newline t = "\n".toList := by
  unfold newline
  split
  · exact .inl rfl
  · exact .inr rfl

/-- The import of a logger stays apart from readings of the clock. -/
lemma apart_importSplice (t : Text) : ∀ s ∈ importSplice t, Apart Timestamp.localClock s.text := by
  have below : Apart Timestamp.localClock (newline t ++ importLine) := by
    rcases newline_cases t with nl | nl
    · rw [nl]
      exact ⟨⟨'\r', rfl, by decide⟩, ⟨';', rfl, by decide⟩, by decide⟩
    · rw [nl]
      exact ⟨⟨'\n', rfl, by decide⟩, ⟨';', rfl, by decide⟩, by decide⟩
  have above : Apart Timestamp.localClock (importLine ++ newline t) := by
    rcases newline_cases t with nl | nl
    · rw [nl]
      exact ⟨⟨'u', rfl, by decide⟩, ⟨'\n', rfl, by decide⟩, by decide⟩
    · rw [nl]
      exact ⟨⟨'u', rfl, by decide⟩, ⟨'\n', rfl, by decide⟩, by decide⟩
  unfold importSplice
  split
  · exact nofun
  · split
    · exact List.forall_mem_singleton.2 below
    · exact List.forall_mem_singleton.2 above

/-- A run that stops at dots has none. -/
lemma dot_notMem_takeWhile {p : Char → Bool} (stop : p '.' = false) (t : Text) :
    '.' ∉ t.takeWhile p := by
  intro mem
  exact absurd (stop.symm.trans (List.mem_takeWhile_imp mem)) (by decide)

/-- What begins with a newline does not begin as the inside of a reading. -/
lemma head?_newline (t x : Text) : ∃ c ∈ (newline t ++ x).head?, c ∉ Timestamp.localClock := by
  rcases newline_cases t with nl | nl
  · exact ⟨'\r', by rw [nl]; rfl, by decide⟩
  · exact ⟨'\n', by rw [nl]; rfl, by decide⟩

/-- A newline has no dot. -/
lemma dot_notMem_newline (t : Text) : '.' ∉ newline t := by
  rcases newline_cases t with nl | nl
  · rw [nl]
    decide
  · rw [nl]
    decide

/-- The type of a logger has no dot if the name has none. -/
lemma dot_notMem_loggerType {name : Text} (dot : '.' ∉ name) : '.' ∉ loggerType name := by
  unfold loggerType
  simp only [List.mem_append, not_or]
  exact ⟨⟨by decide, dot⟩, by decide⟩

/-- The field of a logger has no dot if the indentation and the name have none. -/
lemma dot_notMem_fieldText {indent name : Text} (t : Text) (dot : '.' ∉ indent) (dot' : '.' ∉ name) :
    '.' ∉ fieldText (newline t) indent name := by
  unfold fieldText
  simp only [List.mem_append, not_or]
  exact ⟨⟨⟨⟨dot_notMem_newline t, dot⟩, by decide⟩, dot_notMem_loggerType dot'⟩, by decide⟩

/-- The assignment of a logger has no dot if the indentation has none. -/
lemma dot_notMem_assignmentSplice {o : Occurrence ConstructorHead} (t : Text) (dot : '.' ∉ o.value.indent) :
    '.' ∉ (assignmentSplice (newline t) o).text := by
  unfold assignmentSplice
  simp only [List.mem_append, not_or]
  exact ⟨⟨dot_notMem_newline t, dot⟩, by decide⟩

/-- The parameter of a logger has no dot if the name has none. -/
lemma dot_notMem_parameterSplice {o : Occurrence ConstructorHead} {name : Text} (dot : '.' ∉ name) :
    '.' ∉ (parameterSplice name o).text := by
  unfold parameterSplice
  dsimp only
  split
  · simp only [List.mem_append, not_or]
    exact ⟨dot_notMem_loggerType dot, by decide⟩
  · simp only [List.mem_append, not_or]
    exact ⟨⟨by decide, dot_notMem_loggerType dot⟩, by decide⟩

/-- The field of a logger stays apart from readings of the clock. -/
lemma apart_fieldText {indent name : Text} (t : Text) (dot : '.' ∉ indent) (dot' : '.' ∉ name) :
    Apart Timestamp.localClock (fieldText (newline t) indent name) := by
  refine apart_of_dot ?_ ⟨';', ?_, by decide⟩ (dot_notMem_fieldText t dot dot')
  · simp only [fieldText, List.append_assoc]
    exact head?_newline t _
  · rw [fieldText, List.getLast?_append]
    rfl

/-- The assignment of a logger stays apart from readings of the clock. -/
lemma apart_assignmentSplice {o : Occurrence ConstructorHead} (t : Text) (dot : '.' ∉ o.value.indent) :
    Apart Timestamp.localClock (assignmentSplice (newline t) o).text := by
  refine apart_of_dot ?_ ⟨';', ?_, by decide⟩ (dot_notMem_assignmentSplice t dot)
  · rw [assignmentSplice, List.append_assoc]
    exact head?_newline t _
  · rw [assignmentSplice, List.getLast?_append]
    rfl

/-- The parameter of a logger stays apart from readings of the clock. -/
lemma apart_parameterSplice {o : Occurrence ConstructorHead} {name : Text} (dot : '.' ∉ name) :
    Apart Timestamp.localClock (parameterSplice name o).text := by
  have inner : '.' ∉ (parameterSplice name o).text := dot_notMem_parameterSplice dot
  unfold parameterSplice at inner ⊢
  dsimp only at inner ⊢
  split at inner
  · refine apart_of_dot ⟨'I', rfl, by decide⟩ ⟨'r', ?_, by decide⟩ inner
    rw [List.getLast?_append]
    rfl
  · refine apart_of_dot ⟨',', rfl, by decide⟩ ⟨'r', ?_, by decide⟩ inner
    rw [List.getLast?_append]
    rfl

/-- All that is put in for a logger stays apart from readings of the clock. -/
lemma apart_splices (first : firstController? t = some c) (ok : splices t c = .ok places) :
    ∀ s ∈ places, Apart Timestamp.localClock s.text := by
  obtain ⟨b, last, only, _, field, ctor, rfl⟩ := splices_eq_ok_iff.1 ok
  have name : '.' ∉ c.name := by
    intro mem
    exact absurd ((isWord_of_firstController? first).2 _ mem) (by decide)
  have indent : '.' ∉ last.value := by
    obtain ⟨_, u, rest, eq⟩ := of_mem_scan (List.mem_of_getLast? field)
    rw [fieldDeclaration_eq, Option.map_eq_some_iff] at eq
    obtain ⟨_, _, shape⟩ := eq
    rw [← (Prod.mk.inj shape).1]
    exact dot_notMem_takeWhile (by decide) u
  have indent' : '.' ∉ only.value.indent := by
    have mem : only ∈ scan .lineStart (constructorHead c.name) b := by
      rw [ctor]
      exact List.mem_singleton_self _
    obtain ⟨_, u, rest, eq⟩ := of_mem_scan mem
    rw [constructorHead_eq, Option.map_eq_some_iff] at eq
    obtain ⟨_, _, shape⟩ := eq
    rw [← (Prod.mk.inj shape).1]
    exact dot_notMem_takeWhile (by decide) u
  intro s mem
  rcases List.mem_append.1 mem with mem | mem
  · exact apart_importSplice t s mem
  · obtain ⟨s, inner, rfl⟩ := List.mem_map.1 mem
    simp only [List.mem_cons, List.not_mem_nil, or_false] at inner
    rcases inner with rfl | rfl | rfl
    · exact apart_fieldText t indent name
    · exact apart_parameterSplice name
    · exact apart_assignmentSplice t indent'

/-- Giving a logger does not bring a reading of the local clock. -/
lemma not_localClock_of_edited {u : Text} {n : Nat} (eq : apply t = .edited u n)
    (not : ¬ Timestamp.localClock <:+: t) : ¬ Timestamp.localClock <:+: u := by
  obtain ⟨_, ⟨c, places, first, ok, rfl⟩, _⟩ := apply_eq_edited_iff.1 eq
  exact not_infix_applyAll (apart_splices first ok) not

end Mender.Rule.Logger
