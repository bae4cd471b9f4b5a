import Mender.Proofs.Rule.Idempotence
import Mender.Proofs.Rule.Shapes
import Mender.Proofs.Text.LineEnding

/-!
# Line endings under the rules

A text without carriage returns gets none. A paired text with a newline stays paired under the clock rule
(`paired_replace`) and under the logger rule, which takes the newline of the whole text and puts nothing
right behind a carriage return (`clear_splices`). The guards take the carriage return of the line that they
guard. Every line has one but the last, so a paired text stays paired unless its last line is to be
guarded (`paired_guard_iff`, `paired_applyRules_iff`).
-/

namespace Mender

open Text

variable {t : Text}

/-! ## The clock -/

namespace Rule.Timestamp

/-- The reading of the local clock is on one line. -/
lemma oneLine_localClock : OneLine localClock := by decide

/-- The reading of the universal clock is on one line. -/
lemma oneLine_universalClock : OneLine universalClock := by decide

/-- The clock rule leaves a text as it is or replaces the readings in it. -/
lemma textAfter_apply (t : Text) :
    (apply t).textAfter t = t ∨ (apply t).textAfter t = replace localClock universalClock t := by
  unfold apply
  cases count localClock t with
  | zero => exact .inl rfl
  | succ n => exact .inr rfl

end Rule.Timestamp

/-! ## The logger -/

namespace Rule.Logger

variable {c : Controller} {places : List Splice}

/-- A text on one line, perhaps with the newline on one side of it. -/
def Neat (nl x : Text) : Prop := ∃ line, OneLine line ∧ (x = line ∨ x = nl ++ line ∨ x = line ++ nl)

/-- Text that is neat for bare newlines has no carriage return. -/
lemma Neat.carriage_notMem {x : Text} (neat : Neat "\n".toList x) : '\r' ∉ x := by
  obtain ⟨line, one, rfl | rfl | rfl⟩ := neat
  · exact one.2
  · rw [List.mem_append, not_or]
    exact ⟨by decide, one.2⟩
  · rw [List.mem_append, not_or]
    exact ⟨one.2, by decide⟩

/-- Text that is neat for pairs is paired. -/
lemma Neat.paired {x : Text} (neat : Neat "\r\n".toList x) : PairedAfter false x := by
  have pair : ∀ {cr}, PairedAfter cr "\r\n".toList := ⟨nofun, fun _ => rfl, trivial⟩
  obtain ⟨line, one, rfl | rfl | rfl⟩ := neat
  · exact pairedAfter_of_notMem one.1
  · exact pairedAfter_append.2 ⟨pair, pairedAfter_of_notMem one.1⟩
  · exact pairedAfter_append.2 ⟨pairedAfter_of_notMem one.1, pair⟩

/-- Characters of a class without newline and carriage return make one line. -/
lemma oneLine_of_all {p : Char → Bool} {x : Text} (all : ∀ d ∈ x, p d = true) (nl : p '\n' = false)
    (cr : p '\r' = false) : OneLine x := by
  refine ⟨fun mem => ?_, fun mem => ?_⟩
  · exact absurd (nl.symm.trans (all _ mem)) (by decide)
  · exact absurd (cr.symm.trans (all _ mem)) (by decide)

/-- A run of such characters is on one line. -/
lemma oneLine_takeWhile {p : Char → Bool} (nl : p '\n' = false) (cr : p '\r' = false) (t : Text) :
    OneLine (t.takeWhile p) :=
  oneLine_of_all (fun _ mem => List.mem_takeWhile_imp mem) nl cr

/-- The type of a logger is on one line. -/
lemma oneLine_loggerType {name : Text} (one : OneLine name) : OneLine (loggerType name) :=
  (OneLine.append (by decide) one).append (by decide)

/-- The import of a logger is neat for the newline of the text. -/
lemma neat_importSplice (t : Text) : ∀ s ∈ importSplice t, Neat (newline t) s.text := by
  have one : OneLine importLine := by decide
  unfold importSplice
  split
  · exact nofun
  · split
    · exact List.forall_mem_singleton.2 ⟨_, one, .inr (.inl rfl)⟩
    · exact List.forall_mem_singleton.2 ⟨_, one, .inr (.inr rfl)⟩

/-- The parameter of a logger is neat. -/
lemma neat_parameterSplice {name : Text} (nl : Text) (one : OneLine name)
    (o : Occurrence ConstructorHead) : Neat nl (parameterSplice name o).text := by
  unfold parameterSplice
  dsimp only
  split
  · exact ⟨_, (oneLine_loggerType one).append (by decide), .inl rfl⟩
  · exact ⟨_, (OneLine.append (by decide) (oneLine_loggerType one)).append (by decide), .inl rfl⟩

/-- All texts that are put in for a logger are neat. -/
lemma neat_splices (first : firstController? t = some c) (ok : splices t c = .ok places) :
    ∀ s ∈ places, Neat (newline t) s.text := by
  obtain ⟨b, last, only, _, field, ctor, rfl⟩ := splices_eq_ok_iff.1 ok
  have name : OneLine c.name :=
    oneLine_of_all (isWord_of_firstController? first).2 (by decide) (by decide)
  -- both indents are runs of blanks other than newlines, as their recognizers take them
  have indent : OneLine last.value := by
    obtain ⟨_, u, rest, eq⟩ := of_mem_scan (List.mem_of_getLast? field)
    rw [fieldDeclaration_eq, Option.map_eq_some_iff] at eq
    obtain ⟨_, _, shape⟩ := eq
    rw [← (Prod.mk.inj shape).1]
    exact oneLine_takeWhile (by decide) (by decide) u
  have indent' : OneLine only.value.indent := by
    obtain ⟨_, u, rest, eq⟩ := of_mem_scan (ctor ▸ List.mem_singleton_self only)
    rw [constructorHead_eq, Option.map_eq_some_iff] at eq
    obtain ⟨_, _, shape⟩ := eq
    rw [← (Prod.mk.inj shape).1]
    exact oneLine_takeWhile (by decide) (by decide) u
  intro s mem
  rcases List.mem_append.1 mem with mem | mem
  · exact neat_importSplice t s mem
  · obtain ⟨s, inner, rfl⟩ := List.mem_map.1 mem
    simp only [List.mem_cons, List.not_mem_nil, or_false] at inner
    rcases inner with rfl | rfl | rfl
    · refine ⟨last.value ++ "private readonly ".toList ++ loggerType c.name ++ " _logger;".toList,
        ?_, .inr (.inl ?_)⟩
      · exact ((indent.append (by decide)).append (oneLine_loggerType name)).append (by decide)
      · simp only [Splice.inBodyOf, fieldText, List.append_assoc]
    · exact neat_parameterSplice _ name only
    · refine ⟨only.value.indent ++ "    _logger = logger;".toList, indent'.append (by decide),
        .inr (.inl ?_)⟩
      simp only [Splice.inBodyOf, assignmentSplice, List.append_assoc]

/-! ### The places -/

/-- An occurrence of what ends with a character stops right behind that character. -/
lemma behind_stop {α : Type} {anchorage : Anchorage} {r : Recognizer α} {d : Char} {o : Occurrence α}
    (ends : EndsWith r d) (mem : o ∈ scan anchorage r t) : Behind t d o.stop := by
  obtain ⟨inside, rest, read, stop⟩ := readFrom_of_mem_scan mem
  obtain ⟨x, eq⟩ := ends read
  have behind : Behind (t.drop o.start) d ((t.drop o.start).length - rest.length) := by
    refine ⟨x, rest, eq.symm, ?_⟩
    rw [← eq, List.length_append, List.length_cons]
    omega
  rw [stop]
  exact behind.of_drop (y := []) (List.append_nil _).symm

/-- An import directive ends with its semicolon. -/
lemma endsWith_importDirective : EndsWith importDirective ';' := by
  intro t v rest eq
  unfold importDirective at eq
  obtain ⟨u, front, eq⟩ := Option.bind_eq_some_iff.1 eq
  obtain ⟨rest', stop, eq⟩ := Option.bind_eq_some_iff.1 eq
  split at eq
  · cases eq
  · obtain ⟨_, rfl⟩ := Prod.mk.inj (Option.some.inj eq)
    calc ';' :: rest' <:+ trimStart (u.dropWhile isNamePart) :=
          ⟨[], (after?_eq_some_iff.1 stop).symm⟩
      _ <:+ u.dropWhile isNamePart := List.dropWhile_suffix _
      _ <:+ u := List.dropWhile_suffix _
      _ <:+ t := suffix_of_wordAndBlanks front

/-- The import of a logger comes to a place that is clear. -/
lemma clear_importSplice (t : Text) : ∀ s ∈ importSplice t, Clear t s.offset := by
  unfold importSplice
  split
  · exact nofun
  · split
    · next last found =>
      refine List.forall_mem_singleton.2 ?_
      exact (behind_stop endsWith_importDirective (List.mem_of_getLast? found)).clear (by decide)
    · exact List.forall_mem_singleton.2 (clear_zero t)

/-- The parameter goes behind the opening parenthesis, or behind a character that is not blank. -/
lemma clear_parameterSplice {name b : Text} {o : Occurrence ConstructorHead}
    (mem : o ∈ scan .lineStart (constructorHead name) b) :
    ∃ d, d ≠ '\r' ∧ Behind b d (parameterSplice name o).offset := by
  obtain ⟨before, read, behind, located, lead, gap, _, lead_eq, _, _, rfl⟩ :=
    located_of_mem_scan (fun _ _ _ => isHead_of_read) mem
  have start : o.start + o.value.lead = (before ++ lead ++ ['(']).length := by
    rw [located.start, lead_eq]
    simp only [List.length_append, List.length_singleton, Nat.add_assoc]
  have whole := located.text
  have place : IsParameter name _ _ (parameterSplice name o) := isParameter_of_start start
  generalize parameterSplice name o = s at place
  cases place with
  | only _ =>
    refine ⟨'(', by decide, before ++ lead, o.value.params ++ ')' :: (gap ++ openBrace :: behind), ?_, ?_⟩
    · rw [whole]
      simp
    · rw [List.length_append, List.length_singleton]
  | @last x d y cut solid _ =>
    refine ⟨d, ?_, before ++ lead ++ '(' :: x, y ++ ')' :: (gap ++ openBrace :: behind), ?_, ?_⟩
    · rintro rfl
      exact absurd solid (by decide)
    · rw [whole, cut]
      simp
    · simp
      omega

/-- Nothing is put in right behind a carriage return. -/
lemma clear_splices (ok : splices t c = .ok places) : ∀ s ∈ places, Clear t s.offset := by
  obtain ⟨b, last, only, body, field, ctor, rfl⟩ := splices_eq_ok_iff.1 ok
  obtain ⟨z, part⟩ := eq_of_blockBody? body
  have mem_only : only ∈ scan .lineStart (constructorHead c.name) b := ctor ▸ List.mem_singleton_self only
  intro s mem
  rcases List.mem_append.1 mem with mem | mem
  · exact clear_importSplice t s mem
  · obtain ⟨s, inner, rfl⟩ := List.mem_map.1 mem
    simp only [List.mem_cons, List.not_mem_nil, or_false] at inner
    rcases inner with rfl | rfl | rfl
    · have behind := behind_stop endsWith_fieldDeclaration (List.mem_of_getLast? field)
      exact (behind.of_drop part).clear (by decide)
    · obtain ⟨d, ne, behind⟩ := clear_parameterSplice mem_only
      exact (behind.of_drop part).clear ne
    · have behind := behind_stop (endsWith_constructorHead c.name) mem_only
      exact (behind.of_drop part).clear (by decide)

/-! ### Insertions -/

/-- Paired texts at clear places, the last place first, leave a text paired. -/
lemma paired_foldl_insertAt (sorted : places.Pairwise fun a b => b.offset ≤ a.offset)
    (clear : ∀ s ∈ places, Clear t s.offset) (inner : ∀ s ∈ places, PairedAfter false s.text)
    (paired : Paired t) : Paired (places.foldl (fun t s => insertAt s.offset s.text t) t) := by
  induction places generalizing t with
  | nil => exact paired
  | cons s places ih =>
    obtain ⟨later, sorted⟩ := List.pairwise_cons.1 sorted
    obtain ⟨clear_s, clear⟩ := List.forall_mem_cons.1 clear
    obtain ⟨inner_s, inner⟩ := List.forall_mem_cons.1 inner
    refine ih sorted (fun s' mem => ?_) inner (paired_insertAt clear_s paired inner_s)
    exact clear_insertAt (clear s' mem) (later s' mem) clear_s.1

/-- Insertions bring no characters but their own. -/
lemma mem_foldl_insertAt {d : Char} (mem : d ∈ places.foldl (fun t s => insertAt s.offset s.text t) t) :
    d ∈ t ∨ ∃ s ∈ places, d ∈ s.text := by
  induction places generalizing t with
  | nil => exact .inl mem
  | cons s places ih =>
    rcases ih mem with mem | ⟨s', mem', mem⟩
    · dsimp only [insertAt] at mem
      rw [List.mem_append, List.mem_append] at mem
      rcases mem with (mem | mem) | mem
      · exact .inl (List.mem_of_mem_take mem)
      · exact .inr ⟨s, List.mem_cons_self, mem⟩
      · exact .inl (List.mem_of_mem_drop mem)
    · exact .inr ⟨s', List.mem_cons_of_mem _ mem', mem⟩

/-- A text that has the pair somewhere is taken to use it. -/
lemma newline_of_pair (pair : "\r\n".toList <:+: t) : newline t = "\r\n".toList :=
  if_pos (occurs_iff.2 pair)

/-- A text without carriage return is taken to use bare newlines. -/
lemma newline_of_notMem (not : '\r' ∉ t) : newline t = "\n".toList := by
  refine if_neg fun pair => not ?_
  exact (occurs_iff.1 pair).subset (by decide)

/-- The logger rule leaves a paired text paired. -/
lemma paired_textAfter (pair : "\r\n".toList <:+: t) (paired : Paired t) :
    Paired ((apply t).textAfter t) := by
  cases eq : apply t with
  | abstained reason => exact paired
  | edited u n =>
    obtain ⟨_, ⟨c, places, first, ok, rfl⟩, _⟩ := apply_eq_edited_iff.1 eq
    refine paired_foldl_insertAt (sorted_places places) ?_ ?_ paired
    · exact fun s mem => clear_splices ok s (List.mem_mergeSort.1 mem)
    · intro s mem
      have neat := neat_splices first ok s (List.mem_mergeSort.1 mem)
      rw [newline_of_pair pair] at neat
      exact neat.paired

/-- The logger rule brings no carriage return into a text that has none. -/
lemma carriage_notMem_textAfter (not : '\r' ∉ t) : '\r' ∉ (apply t).textAfter t := by
  cases eq : apply t with
  | abstained reason => exact not
  | edited u n =>
    obtain ⟨_, ⟨c, places, first, ok, rfl⟩, _⟩ := apply_eq_edited_iff.1 eq
    intro mem
    rcases mem_foldl_insertAt mem with mem | ⟨s, mem', mem⟩
    · exact not mem
    · have neat := neat_splices first ok s (List.mem_mergeSort.1 mem')
      rw [newline_of_notMem not] at neat
      exact neat.carriage_notMem mem

end Rule.Logger

/-! ## The guards -/

namespace Rule.DebugGuard

variable {s : Statement} {line : Text} {ls : List Text} {stack : Branches}

/-- A newline stands between the first line and the others. -/
lemma unlines_cons_cons (l k : Text) (ls : List Text) :
    unlines (l :: k :: ls) = l ++ '\n' :: unlines (k :: ls) := by
  rw [unlines_cons, below_of_ne_nil (List.cons_ne_nil _ _)]

/-- A text is paired when all its lines but the last end with a carriage return. -/
lemma paired_unlines_iff (nl : ∀ l ∈ ls, '\n' ∉ l) :
    Paired (unlines ls) ↔ ∀ l ∈ ls.dropLast, l.getLast? = some '\r' := by
  rw [paired_iff]
  induction ls with
  | nil => exact iff_of_true trivial (List.forall_mem_nil _)
  | cons l ls ih =>
    obtain ⟨nl_l, nl⟩ := List.forall_mem_cons.1 nl
    cases ls with
    | nil =>
      have one : unlines [l] = l := by rw [unlines_cons, below, List.flatMap_nil, List.append_nil]
      rw [one]
      exact iff_of_true (pairedAfter_of_notMem nl_l) (List.forall_mem_nil _)
    | cons k ls =>
      rw [unlines_cons_cons, pairedAfter_append, and_iff_right (pairedAfter_of_notMem nl_l),
        List.dropLast_cons_cons, List.forall_mem_cons, ← ih nl, ← carry_false_iff]
      exact and_congr_left fun _ => ⟨fun h => h rfl, fun h _ => h⟩

/-- A statement line is no directive. -/
lemma directive?_statement (st : statement? line = some s) : directive? line = none := by
  obtain ⟨tidy, x, eq⟩ := statement?_eq_some st
  have front : trimStart line = head ++ (x ++ ')' :: ';' :: s.carriage) := by
    rw [eq, Pads.trimStart_append_of_blank tidy.indent]
    rfl
  -- what is left of the line begins with the call, not with a number sign
  have not : ∀ w : Text, w.head? = some '#' → w.isPrefixOf (trim line) = false := by
    intro w first
    obtain ⟨w, rfl⟩ := List.head?_eq_some_iff.1 first
    apply Bool.eq_false_iff.2
    intro pre
    obtain ⟨blanks, _, cut⟩ := Logger.trimEnd_append (trimStart line)
    have pre' : '#' :: w <+: head ++ (x ++ ')' :: ';' :: s.carriage) := by
      rw [← front, cut]
      exact (List.isPrefixOf_iff_prefix.1 pre).trans (List.prefix_append _ _)
    exact absurd (List.cons_prefix_cons.1 pre').1 (by decide)
  unfold directive?
  dsimp only
  rw [not _ rfl, not _ rfl, not _ rfl, not _ rfl]
  rfl

/-- A statement opens and closes no branch. -/
lemma after_statement (st : statement? line = some s) : stack.after line = stack := by
  rw [Branches.after, directive?_statement st]

/-- Guarding line by line is what the rule does to every text, also where it abstains. -/
lemma guardLines_of_wrapped (idle : (guardLines stack ls).wrapped = 0) :
    (guardLines stack ls).lines = ls := by
  induction ls generalizing stack with
  | nil => rfl
  | cons line ls ih =>
    cases st : statement? line with
    | none =>
      rw [(guardLines_none st ls).2] at idle
      rw [(guardLines_none st ls).1, ih idle]
    | some s =>
      cases debug : stack.anyDebug with
      | true =>
        rw [(guardLines_debug st debug ls).2] at idle
        rw [(guardLines_debug st debug ls).1, ih idle]
      | false => simp [guardLines, st, debug] at idle

/-- Without statements nothing is wrapped. -/
lemma wrapped_of_no_statement (none : ∀ l ∈ ls, statement? l = none) :
    (guardLines stack ls).wrapped = 0 := by
  induction ls generalizing stack with
  | nil => rfl
  | cons line ls ih =>
    obtain ⟨none_l, none⟩ := List.forall_mem_cons.1 none
    rw [(guardLines_none none_l ls).2]
    exact ih none

/-- The lines of a text stand in it. -/
lemma infix_of_mem_lines (mem : line ∈ lines t) : line <:+: t := by
  obtain ⟨above, under, eq⟩ := List.append_of_mem mem
  have whole := unlines_lines t
  rw [eq] at whole
  rw [← whole]
  clear eq whole mem
  induction above with
  | nil =>
    rw [List.nil_append, unlines_cons]
    exact (List.prefix_append _ _).isInfix
  | cons l above ih =>
    rw [List.cons_append, unlines_cons, below_of_ne_nil (by simp)]
    exact (ih.trans (List.suffix_cons _ _).isInfix).trans (List.suffix_append _ _).isInfix

/-- A text without the call has no statement to wrap. -/
lemma wrapped_of_not_occurs (quiet : ¬ occurs call t) : (guardLines stack (lines t)).wrapped = 0 := by
  refine wrapped_of_no_statement fun line mem => ?_
  rw [Option.eq_none_iff_forall_ne_some]
  intro s st
  obtain ⟨_, x, eq⟩ := statement?_eq_some st
  have call_line : call <:+: line := ⟨s.indent, '(' :: (x ++ ')' :: ';' :: s.carriage), by
    rw [eq, head]
    simp⟩
  exact quiet (occurs_iff.2 (call_line.trans (infix_of_mem_lines mem)))

/-- The guard rule leaves the guarded lines, also where it abstains. -/
lemma textAfter_apply (t : Text) : (apply t).textAfter t = unlines (guardLines [] (lines t)).lines := by
  have idle : (guardLines [] (lines t)).wrapped = 0 → t = unlines (guardLines [] (lines t)).lines := by
    intro idle
    rw [guardLines_of_wrapped idle, unlines_lines]
  unfold apply
  split
  · dsimp only
    split
    · next wrapped => exact idle wrapped
    · rfl
  · next quiet => exact idle (wrapped_of_not_occurs quiet)

/-- The last line of a text is a statement that is to be guarded and has no carriage return. -/
def LooseEnd (t : Text) : Prop := ∃ line ∈ (lines t).getLast?, ∃ s ∈ statement? line,
  s.carriage = [] ∧ ((lines t).dropLast.foldl Branches.after []).anyDebug = false

instance : DecidablePred LooseEnd := fun t =>
  inferInstanceAs (Decidable (∃ line ∈ (lines t).getLast?, ∃ s ∈ statement? line,
    s.carriage = [] ∧ ((lines t).dropLast.foldl Branches.after []).anyDebug = false))

/-- A line that goes on to a carriage return of a statement ends with it. -/
lemma getLast?_of_carriage {x : Text} (carriage : s.carriage = ['\r']) :
    (x ++ s.carriage).getLast? = some '\r' := by
  rw [carriage, List.getLast?_concat]

/-- A statement line that ends with a carriage return has it as the end of the statement. -/
lemma carriage_of_getLast? (st : statement? line = some s) (last : line.getLast? = some '\r') :
    s.carriage = ['\r'] := by
  obtain ⟨tidy, x, eq⟩ := statement?_eq_some st
  refine tidy.carriage.resolve_left fun none => ?_
  rw [eq, none, ← List.append_assoc, ← List.append_assoc, List.getLast?_append] at last
  exact absurd (Option.some.inj last) (by decide)

/-- Guarding keeps a carriage return at every line but the last, unless the last line is a statement
without one that is to be guarded. -/
lemma ends_guardLines_iff (ends : ∀ l ∈ ls, l.getLast? = some '\r') (line : Text) :
    (∀ l ∈ (guardLines stack (ls ++ [line])).lines.dropLast, l.getLast? = some '\r') ↔
      ¬ ∃ s, statement? line = some s ∧ s.carriage = [] ∧
        (ls.foldl Branches.after stack).anyDebug = false := by
  induction ls generalizing stack with
  -- the last line: only if it is wrapped do lines stand above the end of the text
  | nil =>
    rw [List.nil_append, List.foldl_nil]
    cases st : statement? line with
    | none =>
      rw [(guardLines_none st []).1]
      refine iff_of_true (List.forall_mem_nil _) ?_
      rintro ⟨_, ⟨⟩, _⟩
    | some s =>
      cases debug : stack.anyDebug with
      | true =>
        rw [(guardLines_debug st debug []).1]
        refine iff_of_true (List.forall_mem_nil _) ?_
        rintro ⟨_, _, _, ⟨⟩⟩
      | false =>
        rw [guardLines_wrap st debug []]
        obtain ⟨tidy, x, eq⟩ := statement?_eq_some st
        rcases tidy.carriage with none | carriage
        · refine iff_of_false ?_ (not_not.2 ⟨s, rfl, none, rfl⟩)
          intro ends
          have last := ends line (by simp [guardLines])
          rw [carriage_of_getLast? st last] at none
          cases none
        · refine iff_of_true ?_ ?_
          · have line_eq : line = s.indent ++ (head ++ (x ++ [')', ';'])) ++ s.carriage := by simp [eq]
            simp only [guardLines, List.dropLast_cons_cons, List.dropLast_singleton, List.forall_mem_cons]
            refine ⟨getLast?_of_carriage carriage, ?_, List.forall_mem_nil _⟩
            rw [line_eq]
            exact getLast?_of_carriage carriage
          · rintro ⟨s', same, none, _⟩
            obtain rfl := Option.some.inj same
            rw [carriage] at none
            cases none
  | cons l ls ih =>
    obtain ⟨ends_l, ends⟩ := List.forall_mem_cons.1 ends
    have rest : ∀ stack, (guardLines stack (ls ++ [line])).lines ≠ [] :=
      fun stack => guardLines_ne_nil (by simp)
    rw [List.cons_append, List.foldl_cons]
    cases st : statement? l with
    | none =>
      rw [(guardLines_none st _).1, List.dropLast_cons_of_ne_nil (rest _), List.forall_mem_cons,
        and_iff_right ends_l]
      exact ih ends
    | some s =>
      rw [after_statement st]
      cases debug : stack.anyDebug with
      | true =>
        rw [(guardLines_debug st debug _).1, List.dropLast_cons_of_ne_nil (rest _), List.forall_mem_cons,
          and_iff_right ends_l]
        exact ih ends
      | false =>
        -- the directive lines take the carriage return of the statement between them
        have carriage := carriage_of_getLast? st ends_l
        have opening : s.opening.getLast? = some '\r' := getLast?_of_carriage carriage
        have closing : s.closing.getLast? = some '\r' := getLast?_of_carriage carriage
        rw [guardLines_wrap st debug, List.dropLast_cons_of_ne_nil (List.cons_ne_nil _ _),
          List.dropLast_cons_of_ne_nil (List.cons_ne_nil _ _), List.dropLast_cons_of_ne_nil (rest _),
          List.forall_mem_cons, List.forall_mem_cons, List.forall_mem_cons,
          and_iff_right opening, and_iff_right ends_l, and_iff_right closing]
        exact ih ends

/-- A paired text stays paired when it is guarded, unless it has a loose end. -/
lemma paired_guard_iff (paired : Paired t) : Paired ((apply t).textAfter t) ↔ ¬ LooseEnd t := by
  have nl : ∀ l ∈ lines t, '\n' ∉ l := fun _ => newline_notMem_lines
  obtain ⟨above, line, eq⟩ := (List.eq_nil_or_concat' (lines t)).resolve_left (lines_ne_nil t)
  have ends : ∀ l ∈ above, l.getLast? = some '\r' := by
    rw [← unlines_lines t, paired_unlines_iff nl, eq, List.dropLast_concat] at paired
    exact paired
  rw [textAfter_apply, paired_unlines_iff (notMem_guardLines (by decide) (by decide) nl), eq,
    ends_guardLines_iff ends line, LooseEnd, eq, List.getLast?_concat, List.dropLast_concat]
  simp only [Option.mem_def, Option.some.injEq, exists_eq_left']

/-- Joining lines brings newlines only. -/
lemma mem_unlines {d : Char} (mem : d ∈ unlines ls) : d = '\n' ∨ ∃ l ∈ ls, d ∈ l := by
  cases ls with
  | nil => cases mem
  | cons l ls =>
    rw [unlines_cons, List.mem_append] at mem
    rcases mem with mem | mem
    · exact .inr ⟨l, List.mem_cons_self, mem⟩
    · obtain ⟨k, mem', mem⟩ := List.mem_flatMap.1 mem
      rcases List.mem_cons.1 mem with rfl | mem
      · exact .inl rfl
      · exact .inr ⟨k, List.mem_cons_of_mem _ mem', mem⟩

/-- The guard rule brings no carriage return into a text that has none. -/
lemma carriage_notMem_textAfter (not : '\r' ∉ t) : '\r' ∉ (apply t).textAfter t := by
  rw [textAfter_apply]
  intro mem
  rcases mem_unlines mem with eq | ⟨l, mem', mem⟩
  · exact absurd eq (by decide)
  · refine notMem_guardLines (by decide) (by decide) (fun l mem cr => not ?_) l mem' mem
    exact (infix_of_mem_lines mem).subset cr

end Rule.DebugGuard

/-! ## A pass of the rules -/

/-- No rule brings a carriage return into a text that has none. -/
lemma carriage_notMem_leaves (s : RuleSwitches) (r : Rule) (not : '\r' ∉ t) : '\r' ∉ s.leaves r t := by
  unfold RuleSwitches.leaves
  split
  · cases r with
    | timestamp =>
      rcases Rule.Timestamp.textAfter_apply t with same | replaced
      · exact same.symm ▸ not
      · rw [Rule.apply, replaced, mem_replace_iff (by decide) (by decide) (by decide)]
        exact not
    | logger => exact Rule.Logger.carriage_notMem_textAfter not
    | debugGuard => exact Rule.DebugGuard.carriage_notMem_textAfter not
  · exact not

/-- The clock rule leaves a paired text paired, with a pair in it. -/
lemma paired_timestamp (s : RuleSwitches) (pair : "\r\n".toList <:+: t) (paired : Paired t) :
    "\r\n".toList <:+: s.leaves .timestamp t ∧ Paired (s.leaves .timestamp t) := by
  unfold RuleSwitches.leaves
  split
  · rcases Rule.Timestamp.textAfter_apply t with same | replaced
    · rw [Rule.apply, same]
      exact ⟨pair, paired⟩
    · have kept : Paired (replace Rule.Timestamp.localClock Rule.Timestamp.universalClock t) := by
        rw [paired_iff] at paired ⊢
        exact pairedAfter_replace (by decide) Rule.Timestamp.oneLine_localClock (by decide)
          Rule.Timestamp.oneLine_universalClock paired
      rw [Rule.apply, replaced]
      refine ⟨kept.has_pair ?_, kept⟩
      rw [mem_replace_iff (by decide) (by decide) (by decide)]
      exact pair.subset (by decide)
  · exact ⟨pair, paired⟩

/-- The logger rule leaves a paired text paired, whether it is on or off. -/
lemma paired_logger (s : RuleSwitches) (pair : "\r\n".toList <:+: t) (paired : Paired t) :
    Paired (s.leaves .logger t) := by
  unfold RuleSwitches.leaves
  split
  · exact Rule.Logger.paired_textAfter pair paired
  · exact paired

/-- A text without carriage returns gets none from any rules. A text that has the pair and no other
newlines keeps to it, unless the guards are on and find a statement to guard on a last line that has no
newline behind it. -/
theorem paired_applyRules_iff (s : RuleSwitches) (c : Text) :
    ('\r' ∉ c → '\r' ∉ (applyRules s.rules c).2) ∧
      ("\r\n".toList <:+: c → Paired c →
        (Paired (applyRules s.rules c).2 ↔ ¬ (s.debugGuard = true ∧
          Rule.DebugGuard.LooseEnd (s.leaves .logger (s.leaves .timestamp c))))) := by
  rw [text_applyRules]
  constructor
  · intro not
    exact carriage_notMem_leaves s _ (carriage_notMem_leaves s _ (carriage_notMem_leaves s _ not))
  · intro pair paired
    obtain ⟨pair, paired⟩ := paired_timestamp s pair paired
    have logged := paired_logger s pair paired
    generalize s.leaves .logger (s.leaves .timestamp c) = u at logged ⊢
    unfold RuleSwitches.leaves
    cases on : s.isOn .debugGuard with
    | true =>
      have on : s.debugGuard = true := on
      rw [if_pos rfl, and_iff_right on]
      exact Rule.DebugGuard.paired_guard_iff logged
    | false =>
      have off : s.debugGuard = false := on
      rw [if_neg nofun, off]
      exact iff_of_true logged nofun

/-- A last line without a newline makes the guards put bare newlines into a text that had none. -/
theorem not_paired_of_last_line :
    "\r\n".toList <:+: "a\r\nConsole.WriteLine(1);".toList ∧
      Paired "a\r\nConsole.WriteLine(1);" ∧
      ¬ Paired (applyRules (RuleSwitches.mk false true false).rules "a\r\nConsole.WriteLine(1);").2 := by
  decide +kernel

/-- The same text with a newline at its end stays paired under all rules. -/
theorem paired_applyRules_whole_lines :
    "\r\n".toList <:+: "a\r\nConsole.WriteLine(1);\r\n".toList ∧
      Paired "a\r\nConsole.WriteLine(1);\r\n" ∧
      Paired (applyRules (RuleSwitches.mk true true true).rules "a\r\nConsole.WriteLine(1);\r\n").2 := by
  have pair : "\r\n".toList <:+: "a\r\nConsole.WriteLine(1);\r\n".toList := by decide
  have paired : Paired "a\r\nConsole.WriteLine(1);\r\n" := by decide
  refine ⟨pair, paired, ((paired_applyRules_iff _ _).2 pair paired).2 ?_⟩
  decide +kernel

end Mender
