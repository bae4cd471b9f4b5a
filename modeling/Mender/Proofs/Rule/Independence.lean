import Mender.Proofs.Rule.SteadyAnchors

/-!
# Independence of the clocks

Two rules are independent on a text if in either order they make the same of it and report the same
(`Independent`). The clock rule is independent of the others (`Rule.timestamp_independent`), for two reasons.
First, each of them does to a text in universal time what it does to the text itself (`Rule.apply_utc`): guarding
goes through the lines one by one, and what is looked for in a line, or passed over, is the same in both texts;
the places of a logger are found behind what has become longer, and what is put in there is the same. Second,
none of them adds a reading of the clock or takes one away (`Rule.positions_textAfter`), so the clock rule still
has as much to do. By induction the clocks can be changed before any number of other rules or after them all
(`applyRules_utc`).
-/

namespace Mender

/-! ## Outcomes -/

namespace Outcome

/-- An outcome with another text in place of its own. -/
def mapText (f : Text → Text) : Outcome → Outcome
  | .edited t n => .edited (f t) n
  | .abstained reason => .abstained reason

/-- Changing the text of an outcome changes the text that it leaves. -/
@[simp] lemma textAfter_mapText (f : Text → Text) (t : Text) (o : Outcome) :
    (o.mapText f).textAfter (f t) = f (o.textAfter t) := by
  cases o <;> rfl

/-- Two outcomes with the same hits and the same reason to do nothing. -/
structure SameReport (o o' : Outcome) : Prop where
  hits : o.hits = o'.hits
  abstention : o.abstention? = o'.abstention?

/-- Changing the text of an outcome changes nothing that is reported. -/
lemma sameReport_mapText (f : Text → Text) (o : Outcome) : SameReport (o.mapText f) o := by
  cases o <;> exact ⟨rfl, rfl⟩

end Outcome

/-- Two rules that make the same of a text in either order, each with the same report as in the other one. -/
structure Independent (r r' : Rule) (t : Text) : Prop where
  final : (applyRules [r, r'] t).2 = (applyRules [r', r] t).2
  report : Outcome.SameReport (r.apply t) (r.apply ((r'.apply t).textAfter t))
  report' : Outcome.SameReport (r'.apply ((r.apply t).textAfter t)) (r'.apply t)

/-! ## Guards -/

namespace Rule.DebugGuard

open Text Timestamp Pads

variable {stack : Branches}

/-- A reading of the local clock has a dot. -/
lemma dot_mem_localClock : '.' ∈ localClock := by decide

/-- No directive line has a dot. -/
lemma foreign_dot : Foreign '.' := by decide

/-- A line in universal time is the same statement. -/
lemma statement?_utc (line : Text) : statement? (utc line) = statement? line := by
  unfold statement?
  rw [(run_utc isBlank_D line).1, (run_utc isBlank_D line).2, after?_utc (by decide)]
  cases after? (call ++ ['(']) (line.dropWhile isBlank) with
  | none => rfl
  | some body =>
    dsimp only [Option.map_some, Option.bind_eq_bind, Option.bind_some]
    -- an argument may hold readings of the clock, but none reaches over the bracket that ends it
    rw [(run_utc_of_all (by decide) body).2, after?_utc (by decide)]
    cases after? [')', ';'] (body.dropWhile (· ≠ ')')) with
    | none => rfl
    | some rest =>
      dsimp only [Option.map_some, Option.bind_some]
      have same : utc rest = [] ∨ utc rest = ['\r'] ↔ rest = [] ∨ rest = ['\r'] :=
        or_congr utc_eq_nil_iff (utc_eq_iff (by decide))
      by_cases ends : rest = [] ∨ rest = ['\r']
      · have dot : '.' ∉ rest := by
          rcases ends with rfl | rfl
          · decide
          · decide
        rw [if_pos (same.2 ends), if_pos ends, utc_of_notMem dot]
      · rw [if_neg (mt same.1 ends), if_neg ends]

/-- A line in universal time is the same directive. -/
lemma directive?_utc (line : Text) : directive? (utc line) = directive? line := by
  have front : ∀ w : Text, 'D' ∉ w → w.isPrefixOf (utc (trim line)) = w.isPrefixOf (trim line) := by
    intro w lacks
    rw [Bool.eq_iff_iff, List.isPrefixOf_iff_prefix, List.isPrefixOf_iff_prefix]
    exact prefix_utc_iff lacks
  have debug : utc (trim line) = "#if DEBUG".toList ↔ trim line = "#if DEBUG".toList := utc_eq_iff (by decide)
  unfold directive?
  dsimp only
  rw [trim_utc, front _ (by decide), front _ (by decide), front _ (by decide), front _ (by decide)]
  simp only [debug]

/-- Guarding goes through universal time line by line. -/
lemma guardLines_utc (stack : Branches) (ls : List Text) :
    (guardLines stack (ls.map utc)).lines = (guardLines stack ls).lines.map utc ∧
      (guardLines stack (ls.map utc)).wrapped = (guardLines stack ls).wrapped ∧
      (guardLines stack (ls.map utc)).already = (guardLines stack ls).already := by
  induction ls generalizing stack with
  | nil => exact ⟨rfl, rfl, rfl⟩
  | cons line ls ih =>
    have after : stack.after (utc line) = stack.after line := by
      rw [Branches.after, directive?_utc, Branches.after]
    obtain ⟨lines, wrapped, already⟩ := ih (stack.after line)
    obtain ⟨lines', wrapped', already'⟩ := ih stack
    cases st : statement? line with
    | none => simp [guardLines, statement?_utc, st, after, lines, wrapped, already]
    | some s =>
      obtain ⟨tidy, _⟩ := statement?_eq_some st
      cases debug : stack.anyDebug with
      | true => simp [guardLines, statement?_utc, st, debug, lines', wrapped', already']
      | false =>
        have opening : utc s.opening = s.opening := utc_of_notMem (foreign_dot.notMem_opening tidy)
        have closing : utc s.closing = s.closing := utc_of_notMem (foreign_dot.notMem_closing tidy)
        simp [guardLines, statement?_utc, st, debug, lines', wrapped', already', opening, closing]

/-- The lines that are put in have no reading of the clock. -/
lemma positions_guardLines (stack : Branches) (ls : List Text) :
    ((guardLines stack ls).lines.map (positions localClock)).sum = (ls.map (positions localClock)).sum := by
  induction ls generalizing stack with
  | nil => rfl
  | cons line ls ih =>
    cases st : statement? line with
    | none => rw [(guardLines_none st ls).1, List.map_cons, List.sum_cons, ih, List.map_cons, List.sum_cons]
    | some s =>
      obtain ⟨tidy, _⟩ := statement?_eq_some st
      cases debug : stack.anyDebug with
      | true =>
        rw [(guardLines_debug st debug ls).1, List.map_cons, List.sum_cons, ih, List.map_cons, List.sum_cons]
      | false =>
        have opening := positions_eq_zero dot_mem_localClock (foreign_dot.notMem_opening tidy)
        have closing := positions_eq_zero dot_mem_localClock (foreign_dot.notMem_closing tidy)
        rw [guardLines_wrap st debug ls]
        simp only [List.map_cons, List.sum_cons, opening, closing, ih, Nat.zero_add]

/-- The guard rule does to a text in universal time what it does to the text itself. -/
lemma apply_utc (t : Text) : apply (utc t) = (apply t).mapText utc := by
  have prints : occurs call (utc t) = occurs call t := occurs_utc (by decide) (by decide)
  obtain ⟨lines, wrapped, already⟩ := guardLines_utc [] (lines t)
  unfold apply
  rw [prints, lines_utc]
  dsimp only
  rw [lines, wrapped, already, ← utc_unlines]
  split
  · split <;> rfl
  · rfl

/-- Guarding keeps the number of readings. -/
lemma positions_textAfter (t : Text) :
    positions localClock ((apply t).textAfter t) = positions localClock t := by
  rw [textAfter_apply, positions_unlines, positions_guardLines, ← positions_unlines, unlines_lines]

end Rule.DebugGuard

/-! ## The logger -/

namespace Rule.Logger

open Text Timestamp

variable {t b name : Text} {c : Controller} {places : List Splice}

/-- The reading of the local clock stands its ground. -/
lemma robust_localClock : Robust localClock :=
  ⟨by decide, by decide, by decide, by decide, by rintro _ ⟨⟩; decide, by rintro _ ⟨⟩; decide⟩

/-- A controller as it is found in universal time. -/
def Controller.relocate (t : Text) (c : Controller) : Controller := ⟨c.name, moved t c.inside⟩

/-- The first controller is found in universal time, too, where its body has moved to. -/
lemma firstController?_utc (t : Text) :
    firstController? (utc t) = (firstController? t).map (.relocate t) := by
  have same : ∀ o ∈ scan .anywhere classHeader t, o.value.utc.name = o.value.name ∧
      o.value.utc.isController = o.value.isController := by
    intro o mem
    obtain ⟨_, u, rest, eq⟩ := of_mem_scan mem
    obtain ⟨z, header⟩ := headerOf_of_read eq
    rw [header, utc_headerOf]
    exact ⟨takeWhile_isWord_utc z, isController_headerOf_utc z⟩
  have found : (scan .anywhere classHeader t).find? ((·.value.isController) ∘ relocate ClassHeader.utc t) =
      (scan .anywhere classHeader t).find? (·.value.isController) :=
    List.find?_congr fun o mem => (same o mem).2
  unfold firstController?
  rw [steady_classHeader.scan_utc, List.find?_map, found, Option.map_map, Option.map_map]
  refine Option.map_congr fun o mem => ?_
  rw [Function.comp, Function.comp, relocate, Controller.relocate, (same o (List.mem_of_find?_eq_some mem)).1]

/-- The import of a logger comes to the same line in universal time. -/
lemma importSplice_utc (t : Text) : importSplice (utc t) = (importSplice t).map (resplice t) := by
  have known : occurs importLine (utc t) = occurs importLine t := occurs_utc (by decide) (by decide)
  unfold importSplice
  rw [known, newline_utc, steady_importDirective.scan_utc, List.getLast?_map]
  split
  · rfl
  · cases (scan .lineStart importDirective t).getLast? with
    | none => rfl
    | some last => rfl

/-- The body of a controller is found in universal time. -/
lemma body_utc (first : firstController? t = some c) : body (utc t) (c.relocate t) = (body t c).map utc := by
  have unbroken := robust_localClock.unbroken_behind (behind_brace first) (by decide)
  rw [body_eq, body_eq, Controller.relocate, drop_moved unbroken, blockBody?_utc]
  cases blockBody? 0 (t.drop c.inside) <;> rfl

/-- The field of a logger comes behind the same field in universal time. -/
lemma fieldSplice_utc (nl name b : Text) :
    fieldSplice nl name (utc b) = (fieldSplice nl name b).map (resplice b) := by
  unfold fieldSplice
  rw [steady_fieldDeclaration.scan_utc, List.getLast?_map]
  cases (scan .lineStart fieldDeclaration b).getLast? <;> rfl

/-- The sole constructor is the same in universal time. -/
lemma soleConstructor_utc (word : ∀ c ∈ name, isWord c = true) (b : Text) :
    soleConstructor name (utc b) = (soleConstructor name b).map (relocate ConstructorHead.utc b) := by
  unfold soleConstructor
  rw [(steady_constructorHead word).scan_utc]
  rcases scan .lineStart (constructorHead name) b with _ | ⟨o, _ | ⟨o', os⟩⟩ <;> rfl

/-- A parameter of a logger comes behind the other ones, or is the only one. -/
lemma parameterSplice_eq (name : Text) (o : Occurrence ConstructorHead) : parameterSplice name o =
    if trimEnd o.value.params = [] then ⟨o.start + o.value.lead, loggerType name ++ " logger".toList⟩
    else ⟨o.start + o.value.lead + (trimEnd o.value.params).length,
      ", ".toList ++ loggerType name ++ " logger".toList⟩ := by
  unfold parameterSplice
  dsimp only
  split
  · next none => rw [if_pos none]
  · next some => rw [if_neg some]

/-- No reading runs from the text before a constructor into its lead. -/
lemma IsLead.seam {indent lead : Text} (is_lead : IsLead name indent lead) (x y : Text) :
    Seam localClock x (lead ++ y) := by
  obtain ⟨gap, gap', indented, _, _, _, rfl⟩ := is_lead
  -- a lead begins with its indent, and without one with the `p` of its first word
  cases indent with
  | nil => exact seam_of_head rfl (d := 'p') (by decide)
  | cons c indent =>
    refine seam_of_stop_char (fun mem => ?_) x _
    have clear : localClock.all (!isIndent ·) = true := by decide
    have other := List.all_eq_true.1 clear c mem
    rw [indented c List.mem_cons_self] at other
    cases other

/-- From the start of a constructor to its parameters no clock is named, and offsets of the parameters move on
by as much as there. -/
lemma moved_params {o : Occurrence ConstructorHead} {i : Nat} (word : ∀ c ∈ name, isWord c = true)
    (mem : o ∈ scan .lineStart (constructorHead name) b) (le : i ≤ (trimEnd o.value.params).length) :
    moved b (o.start + o.value.lead + i) = moved b o.start + o.value.lead + moved (trimEnd o.value.params) i ∧
      o.start + o.value.lead + i ≤ b.length := by
  obtain ⟨before, read, behind, located, shape⟩ := located_of_mem_scan (fun _ _ _ => isHead_of_read) mem
  obtain ⟨lead, gap, is_lead, length, _, _, rfl⟩ := shape
  obtain ⟨blanks, _, cut⟩ := trimEnd_append o.value.params
  obtain ⟨rest, whole⟩ : ∃ rest, b = before ++ ((lead ++ ['(']) ++ (trimEnd o.value.params ++ rest)) := by
    refine ⟨blanks ++ (')' :: (gap ++ [openBrace]) ++ behind), ?_⟩
    rw [located.text]
    conv_lhs => rw [cut]
    simp only [List.append_assoc, List.cons_append, List.nil_append]
  have front := is_lead.seam before (['('] ++ (trimEnd o.value.params ++ rest))
  rw [← List.append_assoc] at front
  have paren : Seam localClock (lead ++ ['(']) (trimEnd o.value.params ++ rest) :=
    seam_of_last (List.getLast?_concat ..) (by decide)
  have same : utc (lead ++ ['(']) = lead ++ ['('] := utc_of_notMem (by
    rw [List.mem_append, not_or]
    exact ⟨is_lead.dot_notMem word, by decide⟩)
  have concat : (lead ++ ['(']).length = o.value.lead := by
    rw [length, List.length_append, List.length_singleton]
  rw [located.start, whole, ← concat]
  refine ⟨?_, ?_⟩
  · -- offsets are cut twice, before the lead and behind the bracket that opens the parameters
    rw [Nat.add_assoc, moved_append_add front, moved_append_add paren, moved_of_le le, same, moved_append,
      Nat.add_assoc]
  · simp only [List.length_append]
    omega

/-- The parameter of a logger comes to the same place in universal time, inside of the body. -/
lemma parameterSplice_utc {o : Occurrence ConstructorHead} (word : ∀ c ∈ name, isWord c = true)
    (mem : o ∈ scan .lineStart (constructorHead name) b) :
    parameterSplice name (relocate ConstructorHead.utc b o) = resplice b (parameterSplice name o) ∧
      (parameterSplice name o).offset ≤ b.length := by
  have trimmed : trimEnd (relocate ConstructorHead.utc b o).value.params = utc (trimEnd o.value.params) :=
    trimEnd_utc _
  rw [parameterSplice_eq, parameterSplice_eq, trimmed]
  by_cases none : trimEnd o.value.params = []
  · obtain ⟨place, inside⟩ := moved_params word mem (Nat.zero_le _)
    rw [if_pos none, if_pos (utc_eq_nil_iff.2 none), resplice]
    exact ⟨congrArg (Splice.mk · _) place.symm, inside⟩
  · obtain ⟨place, inside⟩ := moved_params word mem le_rfl
    have whole : moved (trimEnd o.value.params) (trimEnd o.value.params).length =
        (utc (trimEnd o.value.params)).length := congrArg (List.length <| utc ·) List.take_length
    rw [whole] at place
    rw [if_neg none, if_neg (mt utc_eq_nil_iff.1 none), resplice]
    exact ⟨congrArg (Splice.mk · _) place.symm, inside⟩

/-- What is put into the body of a controller is put into the text at the place that it has moved to. -/
lemma inBodyOf_resplice {z : Text} {s : Splice} (unbroken : Unbroken localClock t c.inside)
    (cut : t.drop c.inside = b ++ z) (inside : s.offset ≤ b.length) :
    (resplice b s).inBodyOf (c.relocate t) = resplice t (s.inBodyOf c) := by
  have offset : moved t (c.inside + s.offset) = moved t c.inside + moved b s.offset := by
    rw [moved_add unbroken, cut, moved_of_le inside]
  rw [resplice, Splice.inBodyOf, resplice, Splice.inBodyOf, offset]
  rfl

/-- The field of a logger comes to a place inside of the body. -/
lemma offset_le_of_fieldSplice {nl : Text} {s : Splice} (eq : fieldSplice nl name b = .ok s) :
    s.offset ≤ b.length := by
  unfold fieldSplice at eq
  split at eq
  · cases eq
  · next last found =>
    obtain rfl := Except.ok.inj eq
    exact (of_mem_scan (List.mem_of_getLast? found)).1

/-- A sole constructor is found by the scan for constructors. -/
lemma mem_of_soleConstructor {o : Occurrence ConstructorHead} (eq : soleConstructor name b = .ok o) :
    o ∈ scan .lineStart (constructorHead name) b := by
  unfold soleConstructor at eq
  split at eq
  · cases eq
  · next only found =>
    obtain rfl := Except.ok.inj eq
    rw [found]
    exact List.mem_singleton_self _
  · cases eq

/-- The places of a logger are found, or the same one is missing, in both texts. -/
lemma splices_utc (first : firstController? t = some c) :
    splices (utc t) (c.relocate t) = (splices t c).map (·.map (resplice t)) := by
  have unbroken := robust_localClock.unbroken_behind (behind_brace first) (by decide)
  have word := (isWord_of_firstController? first).2
  have name : (c.relocate t).name = c.name := rfl
  unfold splices
  rw [newline_utc, body_utc first, body_eq, name]
  cases block : blockBody? 0 (t.drop c.inside) with
  | none => rfl
  | some b =>
    obtain ⟨z, cut⟩ := eq_of_blockBody? block
    dsimp only [Except.map]
    rw [ok_bind, ok_bind, fieldSplice_utc, soleConstructor_utc word]
    cases field : fieldSplice (newline t) c.name b with
    | error missing => rfl
    | ok s =>
      cases ctor : soleConstructor c.name b with
      | error missing => rfl
      | ok o =>
        have found := mem_of_soleConstructor ctor
        obtain ⟨parameter, inside⟩ := parameterSplice_utc word found
        -- each of the three texts is put where the clock has moved its place to
        have put_field := inBodyOf_resplice unbroken cut (offset_le_of_fieldSplice field)
        have put_parameter := inBodyOf_resplice unbroken cut inside
        have put_assignment : (assignmentSplice (newline t) (relocate ConstructorHead.utc b o)).inBodyOf
            (c.relocate t) = resplice t ((assignmentSplice (newline t) o).inBodyOf c) :=
          inBodyOf_resplice (s := assignmentSplice (newline t) o) unbroken cut (of_mem_scan found).1
        refine congrArg Except.ok ?_
        simp only [List.map_append, List.map_cons, List.map_nil]
        rw [importSplice_utc, parameter, put_field, put_parameter, put_assignment]

/-- The logger rule does to a text in universal time what it does to the text itself. -/
lemma apply_utc (t : Text) : apply (utc t) = (apply t).mapText utc := by
  have prints : occurs "Console.WriteLine" (utc t) = occurs "Console.WriteLine" t :=
    occurs_utc (by decide) (by decide)
  have field : occurs "_logger" (utc t) = occurs "_logger" t := occurs_utc (by decide) (by decide)
  have type : occurs "ILogger" (utc t) = occurs "ILogger" t := occurs_utc (by decide) (by decide)
  unfold apply
  rw [prints, field, type, firstController?_utc]
  split
  · rfl
  split
  · rfl
  cases first : firstController? t with
  | none => rfl
  | some c =>
    dsimp only [Option.map_some]
    rw [splices_utc first]
    cases ok : splices t c with
    | error missing => rfl
    | ok places =>
      obtain ⟨a, rfl⟩ := exists_attachment first ok
      exact congrArg (Outcome.edited · 1) (utc_applyAll (robust_localClock.harmless_segments a)
        fun s mem => (apart_splices first ok s mem).inner).symm

/-- The logger rule keeps the number of readings. -/
lemma positions_textAfter (t : Text) :
    positions localClock ((apply t).textAfter t) = positions localClock t := by
  cases eq : apply t with
  | abstained reason => rfl
  | edited u n =>
    obtain ⟨_, ⟨c, places, first, ok, rfl⟩, _⟩ := apply_eq_edited_iff.1 eq
    obtain ⟨a, rfl⟩ := exists_attachment first ok
    have none : (a.segments.map fun s => positions localClock s.text).sum = 0 := by
      rw [List.sum_eq_zero_iff]
      intro n mem
      obtain ⟨s, put, rfl⟩ := List.mem_map.1 mem
      exact positions_eq_zero_iff.2 (apart_splices first ok s put).inner
    rw [Outcome.textAfter, positions_applyAll localClock_ne_nil (robust_localClock.harmless_segments a), none,
      Nat.add_zero]

end Rule.Logger

/-! ## Every other rule -/

namespace Rule

open Timestamp

variable {r : Rule}

/-- A rule that is not about clocks does to a text in universal time what it does to the text itself. -/
theorem apply_utc (other : r ≠ .timestamp) (t : Text) : r.apply (utc t) = (r.apply t).mapText utc := by
  cases r with
  | timestamp => exact absurd rfl other
  | debugGuard => exact DebugGuard.apply_utc t
  | logger => exact Logger.apply_utc t

/-- A rule that is not about clocks neither adds a reading of the clock nor takes one away. -/
theorem positions_textAfter (other : r ≠ .timestamp) (t : Text) :
    Text.positions localClock ((r.apply t).textAfter t) = Text.positions localClock t := by
  cases r with
  | timestamp => exact absurd rfl other
  | debugGuard => exact DebugGuard.positions_textAfter t
  | logger => exact Logger.positions_textAfter t

/-- The clock rule reports the same for texts with as many readings. -/
lemma Timestamp.sameReport {t t' : Text} (same : Text.positions localClock t = Text.positions localClock t') :
    Outcome.SameReport (Timestamp.apply t) (Timestamp.apply t') := by
  have hits : (Timestamp.apply t).hits = (Timestamp.apply t').hits := by
    rw [hits_eq_positions, hits_eq_positions, same]
  refine ⟨hits, ?_⟩
  rw [hits_apply, hits_apply] at hits
  unfold Timestamp.apply
  rw [hits]
  cases Text.count localClock t' <;> rfl

/-- The clock rule is independent of every other rule. -/
lemma timestamp_independent_of_ne (other : r ≠ .timestamp) (t : Text) : Independent .timestamp r t := by
  have clocks : ∀ t, ((Rule.timestamp).apply t).textAfter t = utc t := textAfter_eq_utc
  have report := Timestamp.sameReport (positions_textAfter other t).symm
  refine ⟨?_, report, ?_⟩
  · simp only [applyRules, clocks, apply_utc other, Outcome.textAfter_mapText]
  · rw [clocks, apply_utc other]
    exact Outcome.sameReport_mapText utc _

/-- Whether the clocks are changed before or after statements are guarded, or before or after a logger is put in,
the text comes to be the same, and each rule reports the same. -/
theorem timestamp_independent (t : Text) :
    Independent .timestamp .debugGuard t ∧ Independent .timestamp .logger t :=
  ⟨timestamp_independent_of_ne (r := .debugGuard) nofun t, timestamp_independent_of_ne (r := .logger) nofun t⟩

end Rule

/-- What an application came to with another text in place of its own. -/
def Application.mapText (f : Text → Text) (a : Application) : Application := ⟨a.rule, a.outcome.mapText f⟩

/-- The clocks can be changed before any number of other rules, or after them all. -/
theorem applyRules_utc {rs : List Rule} (others : Rule.timestamp ∉ rs) (t : Text) :
    applyRules rs (Rule.Timestamp.utc t) =
      Prod.map (List.map (.mapText Rule.Timestamp.utc)) Rule.Timestamp.utc (applyRules rs t) := by
  induction rs generalizing t with
  | nil => rfl
  | cons r rs ih =>
    rw [List.mem_cons, not_or] at others
    rw [applyRules, applyRules, Rule.apply_utc (Ne.symm others.1), Outcome.textAfter_mapText, ih others.2]
    rfl

end Mender
