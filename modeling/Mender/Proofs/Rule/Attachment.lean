import Mender.Proofs.Rule.LineEndings

/-!
# Attached loggers

A logger is attached to the first controller of a text, behind the last field and to the only constructor
between its braces (`Attachment`). What is put in, and where, is written out in terms of the text as it was
(`Attachment.Parts`). The texts are put in one after the other, from the last place to the first one, and
that comes to putting them in all at once: what is left without them is the text as it was
(`inserts_applyAll`). So the rule leaves a text alone or adds just these parts to it (`apply_additive`).
-/

namespace Mender.Rule.Logger

open Text

variable {α : Type} {t : Text} {c : Controller} {places : List Splice}

/-! ## Insertions all at once -/

/-- A piece of a text that others have been put into: a character that was there, or a text put in. -/
inductive Piece where
  | old (c : Char)
  | new (x : Text)

namespace Piece

/-- What a piece is in the text. -/
def text : Piece → Text
  | .old c => [c]
  | .new x => x

/-- What a piece was before anything was put in. -/
def kept : Piece → Text
  | .old c => [c]
  | .new _ => []

/-- The texts that were put in, each at the number of characters before it that were there. -/
def splices : (offset : Nat) → List Piece → List Splice
  | _, [] => []
  | i, .old _ :: pieces => splices (i + 1) pieces
  | i, .new x :: pieces => ⟨i, x⟩ :: splices i pieces

/-- Characters that were there make up the text that was there. -/
lemma flatMap_olds {f : Piece → Text} (same : ∀ c, f (.old c) = [c]) (x : Text) :
    (x.map old).flatMap f = x := by
  induction x with
  | nil => rfl
  | cons c x ih => rw [List.map_cons, List.flatMap_cons, same, ih, List.singleton_append]

/-- Nothing is put in among characters that were there. -/
lemma splices_olds (i : Nat) (x : Text) (pieces : List Piece) :
    splices i (x.map old ++ pieces) = splices (i + x.length) pieces := by
  induction x generalizing i with
  | nil => rfl
  | cons c x ih =>
    rw [List.map_cons, List.cons_append, splices, ih, List.length_cons]
    congr 1
    omega

end Piece

/-- The text `u` is the text `t` with other texts put in at offsets of `t`, all at once: taken out again,
they leave `t`. Texts with the same offset stand in some order. -/
structure Inserts (places : List Splice) (t u : Text) : Prop where
  inside : ∀ s ∈ places, s.offset ≤ t.length
  pieces : ∃ pieces : List Piece, pieces.flatMap Piece.text = u ∧ pieces.flatMap Piece.kept = t ∧
    (Piece.splices 0 pieces).Perm places

/-- Going from the last place to the first one, each step cuts the text where nothing was put in yet. -/
lemma pieces_of_foldl (front : Text) (sorted : places.Pairwise fun a b => b.offset ≤ a.offset)
    (inside : ∀ s ∈ places, s.offset ≤ front.length) (pieces : List Piece) :
    ∃ pieces' : List Piece,
      pieces'.flatMap Piece.text =
        places.foldl (fun t s => insertAt s.offset s.text t) (front ++ pieces.flatMap Piece.text) ∧
      pieces'.flatMap Piece.kept = front ++ pieces.flatMap Piece.kept ∧
      (Piece.splices 0 pieces').Perm (places ++ Piece.splices front.length pieces) := by
  induction places generalizing front pieces with
  | nil =>
    refine ⟨front.map .old ++ pieces, ?_, ?_, ?_⟩
    · rw [List.flatMap_append, Piece.flatMap_olds fun _ => rfl]
      rfl
    · rw [List.flatMap_append, Piece.flatMap_olds fun _ => rfl]
    · rw [Piece.splices_olds, Nat.zero_add]
      exact .refl _
  | cons s places ih =>
    obtain ⟨later, sorted⟩ := List.pairwise_cons.1 sorted
    obtain ⟨inside_s, inside⟩ := List.forall_mem_cons.1 inside
    have cut : (front.take s.offset).length = s.offset := by
      rw [List.length_take, Nat.min_eq_left inside_s]
    -- what is behind the place is settled now: its characters stay, and the new text comes before them
    obtain ⟨pieces', text, kept, perm⟩ := ih (front.take s.offset) sorted
      (fun s' mem => (later s' mem).trans_eq cut.symm)
      (.new s.text :: ((front.drop s.offset).map .old ++ pieces))
    refine ⟨pieces', ?_, ?_, ?_⟩
    · rw [text, List.foldl_cons, insertAt_append inside_s, insertAt, List.flatMap_cons,
        List.flatMap_append, Piece.flatMap_olds fun _ => rfl]
      simp only [Piece.text, List.append_assoc]
    · rw [kept, List.flatMap_cons, List.flatMap_append, Piece.flatMap_olds fun _ => rfl]
      simp only [Piece.kept, List.nil_append]
      rw [← List.append_assoc, List.take_append_drop]
    · have rest : s.offset + (front.drop s.offset).length = front.length := by
        rw [List.length_drop]
        omega
      refine perm.trans ?_
      rw [cut, Piece.splices, Piece.splices_olds, rest]
      exact List.perm_middle

/-- Putting texts in one after the other comes to putting them in all at once. -/
lemma inserts_applyAll (inside : ∀ s ∈ places, s.offset ≤ t.length) :
    Inserts places t (Splice.applyAll places t) := by
  obtain ⟨pieces, text, kept, perm⟩ := pieces_of_foldl t (sorted_places places)
    (fun s mem => inside s (List.mem_mergeSort.1 mem)) []
  refine ⟨inside, pieces, ?_, ?_, ?_⟩
  · rw [text, List.flatMap_nil, List.append_nil]
    rfl
  · rw [kept, List.flatMap_nil, List.append_nil]
  · rw [Piece.splices, List.append_nil] at perm
    exact perm.trans (List.mergeSort_perm _ _)

/-! ## What a logger is attached to -/

/-- The first controller of a text, the text between its braces, the last field there and the only
constructor. -/
structure Attachment (t : Text) where
  controller : Controller
  body : Text
  field : Occurrence Text
  ctor : Occurrence ConstructorHead
  first : firstController? t = some controller
  closed : blockBody? 0 (t.drop controller.inside) = some body
  last : (scan .lineStart fieldDeclaration body).getLast? = some field
  sole : scan .lineStart (constructorHead controller.name) body = [ctor]

namespace Attachment

variable (a : Attachment t)

/-- The field that is put in. -/
def fieldSplice : Splice :=
  Splice.inBodyOf a.controller ⟨a.field.stop, fieldText (newline t) a.field.value a.controller.name⟩

/-- The constructor parameter that is put in. -/
def parameterSplice : Splice := (Logger.parameterSplice a.controller.name a.ctor).inBodyOf a.controller

/-- The assignment that is put in. -/
def assignmentSplice : Splice := (Logger.assignmentSplice (newline t) a.ctor).inBodyOf a.controller

/-- All that is put in for a logger. -/
def segments : List Splice := importSplice t ++ [a.fieldSplice, a.parameterSplice, a.assignmentSplice]

end Attachment

/-- A controller with all places for a logger is attached to. -/
lemma exists_attachment {c : Controller} {places : List Splice} (first : firstController? t = some c)
    (ok : splices t c = .ok places) : ∃ a : Attachment t, a.segments = places := by
  obtain ⟨b, last, only, body, field, ctor, rfl⟩ := splices_eq_ok_iff.1 ok
  exact ⟨⟨c, b, last, only, first, body, field, ctor⟩, rfl⟩

/-- The rule edits the texts that it is for, if there is something to attach a logger to. -/
lemma apply_eq_edited_iff_attachment {u : Text} {n : Nat} : apply t = .edited u n ↔
    Unlogged t ∧ (∃ a : Attachment t, Splice.applyAll a.segments t = u) ∧ n = 1 := by
  rw [apply_eq_edited_iff]
  refine and_congr_right fun _ => and_congr_left fun _ => ?_
  constructor
  · rintro ⟨c, places, first, ok, rfl⟩
    obtain ⟨a, rfl⟩ := exists_attachment first ok
    exact ⟨a, rfl⟩
  · rintro ⟨a, rfl⟩
    exact ⟨a.controller, a.segments, a.first, splices_eq_ok_iff.2
      ⟨a.body, a.field, a.ctor, a.closed, a.last, a.sole, rfl⟩, rfl⟩

/-- A text that the rule hits is given a logger. -/
lemma attachment_of_hit (hit : (apply t).hits = 1) :
    Unlogged t ∧ ∃ a : Attachment t, Splice.applyAll a.segments t = (apply t).textAfter t := by
  cases eq : apply t with
  | abstained reason =>
    rw [eq] at hit
    cases hit
  | edited u n =>
    obtain ⟨unlogged, attached, _⟩ := apply_eq_edited_iff_attachment.1 eq
    exact ⟨unlogged, attached⟩

/-! ## What is put in, and where -/

/-- An occurrence in the body of a controller as one in the whole text. -/
def inBodyOf (c : Controller) (o : Occurrence α) : Occurrence α :=
  ⟨c.inside + o.start, c.inside + o.stop, o.value⟩

/-- What is located in the body of a controller is located in the text. -/
lemma Located.inBodyOf {b front rest before read behind : Text} {o : Occurrence α}
    (located : Located b o before read behind) (whole : t = front ++ (b ++ rest))
    (inside : front.length = c.inside) :
    Located t (Logger.inBodyOf c o) (front ++ before) read (behind ++ rest) := by
  refine ⟨?_, ?_, ?_⟩
  · rw [whole, located.text]
    simp only [List.append_assoc]
  · rw [Logger.inBodyOf, located.start, ← inside, List.length_append]
  · rw [Logger.inBodyOf, located.stop, ← inside, List.length_append, Nat.add_assoc]

/-- The import: none for a text that has it, else one behind the semicolon of the last import directive,
or at the top of a text that has no directive. -/
inductive ImportPart (t : Text) : List Splice → Prop where
  | present :
    importLine <:+: t →
    ImportPart t []
  | below {o before read behind} :
    ¬ importLine <:+: t →
    (scan .lineStart importDirective t).getLast? = some o →
    Located t o before read behind →
    IsImport read →
    ImportPart t [⟨before.length + read.length, newline t ++ importLine⟩]
  | top :
    ¬ importLine <:+: t →
    scan .lineStart importDirective t = [] →
    ImportPart t [⟨0, importLine ++ newline t⟩]

/-- The import of a logger goes where it should. -/
lemma importPart (t : Text) : ImportPart t (importSplice t) := by
  unfold importSplice
  split
  · next has => exact .present (occurs_iff.1 has)
  · next lacks =>
    rw [occurs_iff] at lacks
    split
    · next o last =>
      obtain ⟨before, read, behind, located, shape⟩ :=
        located_of_mem_scan (fun _ _ _ => isImport_of_read) (List.mem_of_getLast? last)
      rw [located.stop]
      exact .below lacks last located shape
    · next none => exact .top lacks (List.getLast?_eq_none_iff.1 none)

/-- What is put in for a logger, and where, said of the text as it was. -/
structure Attachment.Parts (a : Attachment t) (imports : List Splice)
    (field parameter assignment : Splice) : Prop where
  /-- The body is what stands between a brace and the brace that closes it. -/
  braces : ∃ before behind, t = before ++ openBrace :: (a.body ++ closeBrace :: behind) ∧
    a.controller.inside = before.length + 1
  imports : ImportPart t imports
  /-- The field goes right behind the semicolon of the last one, indented like it. -/
  field : ∃ before read behind, Located t (inBodyOf a.controller a.field) before read behind ∧
    IsField a.field.value read ∧
    field = ⟨before.length + read.length, newline t ++ a.field.value ++ "private readonly ".toList ++
      loggerType a.controller.name ++ " _logger;".toList⟩
  /-- The parameter goes into the head of the constructor, and the assignment right behind its brace, one
  step further in than the constructor. -/
  head : ∃ before lead gap behind, Located t (inBodyOf a.controller a.ctor) before
      (lead ++ '(' :: (a.ctor.value.params ++ ')' :: (gap ++ [openBrace]))) behind ∧
    IsLead a.controller.name a.ctor.value.indent lead ∧ ')' ∉ a.ctor.value.params ∧ Blank gap ∧
    IsParameter a.controller.name (before ++ lead ++ ['(']) a.ctor.value.params parameter ∧
    assignment = ⟨(before ++ lead ++ '(' :: (a.ctor.value.params ++ ')' :: (gap ++ [openBrace]))).length,
      newline t ++ a.ctor.value.indent ++ "    _logger = logger;".toList⟩

/-- The body of a controller begins behind an opening brace. -/
lemma behind_brace {c : Controller} (first : firstController? t = some c) : Behind t openBrace c.inside := by
  obtain ⟨o, found, rfl⟩ := Option.map_eq_some_iff.1 first
  exact behind_stop endsWith_classHeader (List.mem_of_find?_eq_some found)

namespace Attachment

variable (a : Attachment t)

/-- The body of a controller stands between an opening brace and the brace that closes it. -/
lemma braces : ∃ before behind, t = before ++ openBrace :: (a.body ++ closeBrace :: behind) ∧
    a.controller.inside = before.length + 1 := by
  obtain ⟨before, rest, whole, stop⟩ := behind_brace a.first
  have inside : a.controller.inside = (before ++ [openBrace]).length := by
    rw [stop, List.length_append, List.length_singleton]
  obtain ⟨behind, cut⟩ := eq_of_blockBody? a.closed
  have tail : t.drop (before ++ [openBrace]).length = rest := by
    rw [List.append_cons] at whole
    rw [whole, List.drop_left]
  rw [inside, tail] at cut
  refine ⟨before, behind, ?_, ?_⟩
  · rw [← cut]
    exact whole
  · rw [inside, List.length_append, List.length_singleton]

/-- Everything that is put in for a logger is what it should be, at its place. -/
lemma parts : a.Parts (importSplice t) a.fieldSplice a.parameterSplice a.assignmentSplice := by
  obtain ⟨x, z, whole, inside⟩ := a.braces
  have front : (x ++ [openBrace]).length = a.controller.inside := by
    rw [inside, List.length_append, List.length_singleton]
  rw [List.append_cons] at whole
  refine ⟨a.braces, importPart t, ?_, ?_⟩
  · obtain ⟨before, read, behind, located, shape⟩ :=
      located_of_mem_scan (fun _ _ _ => isField_of_read) (List.mem_of_getLast? a.last)
    have located := located.inBodyOf whole front
    refine ⟨_, _, _, located, shape, ?_⟩
    rw [← located.stop]
    rfl
  · have mem : a.ctor ∈ scan .lineStart (constructorHead a.controller.name) a.body := by
      rw [a.sole]
      exact List.mem_singleton_self _
    obtain ⟨before, read, behind, located, lead, gap, is_lead, lead_eq, params, blank, rfl⟩ :=
      located_of_mem_scan (fun _ _ _ => isHead_of_read) mem
    have start : a.ctor.start + a.ctor.value.lead = (before ++ lead ++ ['(']).length := by
      rw [located.start, lead_eq]
      simp only [List.length_append, List.length_singleton, Nat.add_assoc]
    have located := located.inBodyOf whole front
    refine ⟨_, lead, gap, _, located, is_lead, params, blank, ?_, ?_⟩
    · have place : IsParameter a.controller.name _ _ a.parameterSplice :=
        (isParameter_of_start start).inBodyOf (x ++ [openBrace]) front
      simp only [List.append_assoc] at place ⊢
      exact place
    · rw [List.append_assoc, List.length_append, ← located.stop]
      rfl

/-- Everything is put in inside of the text. -/
lemma offset_le : ∀ s ∈ a.segments, s.offset ≤ t.length := by
  have ok := splices_eq_ok_iff.2 ⟨a.body, a.field, a.ctor, a.closed, a.last, a.sole, rfl⟩
  exact fun s mem => (clear_splices ok s mem).1

end Attachment

/-- The rule leaves a text as it is and says why, or it hits once, and what comes out is the text with a
logger put in, all at once and at places of the text as it was: the import, the field, the constructor
parameter and the assignment. -/
theorem apply_additive (t : Text) :
    ((apply t).textAfter t = t ∧ (apply t).hits = 0 ∧ ∃ reason, (apply t).abstention? = some reason) ∨
      ((apply t).hits = 1 ∧ (apply t).abstention? = none ∧
        ∃ (a : Attachment t) (imports : List Splice) (field parameter assignment : Splice),
          a.Parts imports field parameter assignment ∧
          Inserts (imports ++ [field, parameter, assignment]) t ((apply t).textAfter t)) := by
  cases eq : apply t with
  | abstained reason => exact .inl ⟨rfl, rfl, reason, rfl⟩
  | edited u n =>
    obtain ⟨_, ⟨a, rfl⟩, rfl⟩ := apply_eq_edited_iff_attachment.1 eq
    exact .inr ⟨rfl, rfl, a, _, _, _, _, a.parts, inserts_applyAll a.offset_le⟩

end Mender.Rule.Logger
