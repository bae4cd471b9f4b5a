import Mender.Proofs.Rule.Attachment
import Mender.Proofs.Text.Positions

/-!
# One logger

What is put in for a logger breaks no word that can stand its ground (`Robust`), and makes none together
with what it comes to stand beside, so the positions of such a word add up (`positions_applyAll`). The names
of the logger's type and field, the import and the console call are such words. So a text that is given a
logger has each name just where it was put in, and the import once if it lacked it, and is given no other
one (`logger_added_once`).
-/

namespace Mender.Rule.Logger

open Text

variable {t w : Text} {places : List Splice}

/-! ## Words that stand their ground -/

/-- A text has none of the characters of another one. -/
def Lacks (x y : Text) : Prop := ∀ c ∈ y, c ∉ x

instance (x : Text) : DecidablePred (Lacks x) := List.decidableBAll fun c => c ∉ x

/-- A word that nothing put in for a logger breaks or completes: the characters that come first in what is
put in can only begin it, those behind which something is put in can only end it, and what stands around a
constructor parameter is not in it. -/
structure Robust (w : Text) : Prop where
  nonempty : w ≠ []
  starts : Lacks w.tail "\r\nI,u".toList
  ends : Lacks w.dropLast [';', '\n', '(', openBrace]
  parts : Lacks w "<>)\r\n".toList
  first : ∀ c ∈ w.head?, c ∉ " logger".toList
  last : ∀ c ∈ w.getLast?, isBlank c = false

/-- The name of the logger field stands its ground. -/
lemma robust_field : Robust "_logger".toList :=
  ⟨by decide, by decide, by decide, by decide, by rintro _ ⟨⟩; decide, by rintro _ ⟨⟩; decide⟩

/-- The type of the logger stands its ground. -/
lemma robust_type : Robust "ILogger".toList :=
  ⟨by decide, by decide, by decide, by decide, by rintro _ ⟨⟩; decide, by rintro _ ⟨⟩; decide⟩

/-- The import of the logger stands its ground. -/
lemma robust_import : Robust importLine :=
  ⟨by decide, by decide, by decide, by decide, by rintro _ ⟨⟩; decide, by rintro _ ⟨⟩; decide⟩

/-- The call that prints stands its ground. -/
lemma robust_call : Robust "Console.WriteLine".toList :=
  ⟨by decide, by decide, by decide, by decide, by rintro _ ⟨⟩; decide, by rintro _ ⟨⟩; decide⟩

/-! ## Harmless places -/

/-- A text to put in at a place where it breaks no occurrence of a word and makes none. -/
structure Harmless (w t : Text) (s : Splice) : Prop where
  inside : s.offset ≤ t.length
  unbroken : Unbroken w t s.offset
  seals : Sealed w s.text

/-- A harmless place further up stays harmless when something harmless is put in. -/
lemma Harmless.insertAt {s s' : Splice} (harmless' : Harmless w t s') (harmless : Harmless w t s)
    (le : s'.offset ≤ s.offset) : Harmless w (insertAt s.offset s.text t) s' where
  inside := harmless'.inside.trans (length_le_insertAt _ _ _)
  unbroken := harmless'.unbroken.insertAt harmless.seals le harmless.inside
  seals := harmless'.seals

/-- Harmless insertions, the last place first, add the positions that they have themselves. -/
lemma positions_foldl (ne : w ≠ []) (sorted : places.Pairwise fun a b => b.offset ≤ a.offset)
    (harmless : ∀ s ∈ places, Harmless w t s) :
    positions w (places.foldl (fun t s => insertAt s.offset s.text t) t) =
      positions w t + (places.map fun s => positions w s.text).sum := by
  induction places generalizing t with
  | nil => rfl
  | cons s places ih =>
    obtain ⟨later, sorted⟩ := List.pairwise_cons.1 sorted
    obtain ⟨harmless_s, harmless⟩ := List.forall_mem_cons.1 harmless
    have rest := ih sorted fun s' mem => (harmless s' mem).insertAt harmless_s (later s' mem)
    rw [List.foldl_cons, rest, positions_insertAt harmless_s.seals harmless_s.unbroken ne, List.map_cons,
      List.sum_cons, Nat.add_assoc]

/-- The positions of a word add up, if nothing that is put in harms it. -/
lemma positions_applyAll (ne : w ≠ []) (harmless : ∀ s ∈ places, Harmless w t s) :
    positions w (Splice.applyAll places t) =
      positions w t + (places.map fun s => positions w s.text).sum := by
  have all := positions_foldl ne (sorted_places places) fun s mem => harmless s (List.mem_mergeSort.1 mem)
  rw [Splice.applyAll, all]
  congr 1
  exact ((List.mergeSort_perm _ _).map _).sum_nat

/-! ## What is put in is harmless -/

/-- The type of a logger is its interface, the name in angle brackets, and what follows. -/
lemma loggerType_append (name x : Text) :
    loggerType name ++ x = "ILogger<".toList ++ name ++ '>' :: x := by
  unfold loggerType
  exact List.append_assoc _ _ _

section robust

variable (robust : Robust w)

include robust

/-- A robust word does not run over the place behind a semicolon, a newline or an opening bracket. -/
lemma Robust.unbroken_behind {d : Char} {i : Nat} (behind : Behind t d i)
    (stop : d ∈ [';', '\n', '(', openBrace]) : Unbroken w t i := by
  obtain ⟨x, y, rfl, rfl⟩ := behind
  refine seam_of_last ?_ (robust.ends d stop)
  rw [List.append_cons, List.take_append_of_le_length (by simp), List.take_of_length_le (by simp)]
  exact List.getLast?_concat ..

/-- A robust word does not run over the blanks before a closing parenthesis. -/
lemma Robust.unbroken_blanks {x y z : Text} (blank : Blank y) : Unbroken w (x ++ (y ++ ')' :: z)) x.length := by
  unfold Unbroken
  rw [List.take_left, List.drop_left]
  exact seam_of_run blank (robust.parts _ (by decide)) robust.last

/-- A text is sealed for a robust word if it begins with what can only begin the word and ends with what can
only end it. -/
lemma Robust.sealed {c d : Char} {x : Text} (first : x.head? = some c) (start : c ∈ "\r\nI,u".toList)
    (last : x.getLast? = some d) (stop : d ∈ [';', '\n', '(', openBrace]) : Sealed w x where
  first := ⟨c, first, robust.starts c start⟩
  last _ := seam_of_last last (robust.ends d stop)

/-- A line of its own that ends with a semicolon is sealed for a robust word. -/
lemma Robust.sealed_line {x : Text} (last : x.getLast? = some ';') : Sealed w (newline t ++ x) := by
  have ends : (newline t ++ x).getLast? = some ';' := by rw [List.getLast?_append, last]; rfl
  rcases newline_cases t with nl | nl
  · exact robust.sealed (c := '\r') (by rw [nl]; rfl) (by decide) ends (by decide)
  · exact robust.sealed (c := '\n') (by rw [nl]; rfl) (by decide) ends (by decide)

/-- The parameter of a logger is sealed for a robust word. -/
lemma Robust.sealed_parameter {name front params : Text} {s : Splice}
    (param : IsParameter name front params s) : Sealed w s.text := by
  have last (x y : Text) : Seam w (x ++ '>' :: " logger".toList) y :=
    seam_of_stop (robust.parts _ (by decide)) robust.first
  cases param with
  | only _ =>
    refine ⟨⟨'I', rfl, robust.starts _ (by decide)⟩, fun y => ?_⟩
    rw [loggerType_append]
    exact last _ y
  | last _ _ _ =>
    refine ⟨⟨',', rfl, robust.starts _ (by decide)⟩, fun y => ?_⟩
    rw [List.append_assoc, loggerType_append, ← List.append_assoc]
    exact last _ y

/-- A robust word does not run over the end of an anchor that stops at a semicolon, a newline or an opening
bracket. -/
lemma Robust.unbroken_stop {α : Type} {o : Occurrence α} {before read behind : Text} {d : Char}
    (located : Located t o before read behind) (last : read.getLast? = some d)
    (stop : d ∈ [';', '\n', '(', openBrace]) : Unbroken w t (before.length + read.length) := by
  obtain ⟨x, rfl⟩ := List.getLast?_eq_some_iff.1 last
  refine robust.unbroken_behind ⟨before ++ x, behind, ?_, ?_⟩ stop
  · rw [located.text]
    simp only [List.append_assoc, List.singleton_append]
  · simp only [List.length_append, List.length_singleton, Nat.add_assoc]

/-- A robust word does not run over the place of a parameter. -/
lemma Robust.unbroken_parameter {α : Type} {o : Occurrence α} {name before lead params rest behind : Text}
    {s : Splice} (located : Located t o before (lead ++ '(' :: (params ++ ')' :: rest)) behind)
    (param : IsParameter name (before ++ lead ++ ['(']) params s) : Unbroken w t s.offset := by
  cases param with
  | only _ =>
    refine robust.unbroken_behind (d := '(') ⟨before ++ lead, params ++ ')' :: rest ++ behind, ?_, ?_⟩ (by decide)
    · rw [located.text]
      simp only [List.append_assoc, List.cons_append]
    · rw [List.length_append, List.length_singleton]
  | @last x d y cut _ blank =>
    -- an occurrence over the place would end in the blanks behind it, or hold the parenthesis
    have whole : t = (before ++ lead ++ ['('] ++ (x ++ [d])) ++ (y ++ ')' :: (rest ++ behind)) := by
      rw [located.text, cut]
      simp only [List.append_assoc, List.cons_append, List.nil_append]
    have length : (before ++ lead ++ ['(']).length + (x.length + 1) =
        (before ++ lead ++ ['('] ++ (x ++ [d])).length := by
      simp only [List.length_append, List.length_singleton]
    rw [whole]
    dsimp only
    rw [length]
    exact robust.unbroken_blanks blank

/-- The import of a logger breaks no robust word and makes none. -/
lemma Robust.harmless_imports {imports : List Splice} (part : ImportPart t imports) :
    ∀ s ∈ imports, Unbroken w t s.offset ∧ Sealed w s.text := by
  cases part with
  | present _ => exact nofun
  | below _ _ located shape =>
    obtain ⟨gap, name, gap', _, _, _, _, _, rfl⟩ := shape
    refine List.forall_mem_singleton.2
      ⟨robust.unbroken_stop located (d := ';') ?_ (by decide), robust.sealed_line rfl⟩
    simp only [← List.append_assoc, List.getLast?_concat]
  | top _ _ =>
    refine List.forall_mem_singleton.2 ⟨?_, ?_⟩
    · rintro a b rfl ne_a _ suffix _
      exact ne_a (List.suffix_nil.1 suffix)
    · refine robust.sealed (c := 'u') rfl (by decide) (d := '\n') ?_ (by decide)
      rcases newline_cases t with nl | nl
      · rw [nl]; rfl
      · rw [nl]; rfl

/-- All segments of a logger are harmless for a robust word. -/
lemma Robust.harmless_segments (a : Attachment t) : ∀ s ∈ a.segments, Harmless w t s := by
  obtain ⟨_, imports, field, head⟩ := a.parts
  intro s mem
  suffices Unbroken w t s.offset ∧ Sealed w s.text from ⟨a.offset_le s mem, this.1, this.2⟩
  rcases List.mem_append.1 mem with mem | mem
  · exact robust.harmless_imports imports s mem
  simp only [List.mem_cons, List.not_mem_nil, or_false] at mem
  obtain ⟨before, lead, gap, behind, located, _, _, _, param, assignment⟩ := head
  rcases mem with rfl | rfl | rfl
  · obtain ⟨before, read, behind, located, shape, field⟩ := field
    obtain ⟨gap, gap', declarator, _, _, _, _, _, _, _, rfl⟩ := shape
    rw [field]
    refine ⟨robust.unbroken_stop located (d := ';') ?_ (by decide), ?_⟩
    · simp only [← List.append_assoc, List.getLast?_concat]
    · simp only [List.append_assoc]
      refine robust.sealed_line ?_
      simp only [← List.append_assoc]
      exact List.getLast?_append_of_ne_nil _ (by decide)
  · exact ⟨robust.unbroken_parameter located param, robust.sealed_parameter param⟩
  · rw [assignment, List.append_assoc, List.length_append]
    refine ⟨robust.unbroken_stop located (d := openBrace) ?_ (by decide), ?_⟩
    · refine List.getLast?_eq_some_iff.2 ⟨lead ++ '(' :: (a.ctor.value.params ++ ')' :: gap), ?_⟩
      simp only [List.append_assoc, List.cons_append]
    · rw [List.append_assoc]
      refine robust.sealed_line ?_
      exact List.getLast?_append_of_ne_nil _ (by decide)

end robust

/-! ## What is put in, counted -/

/-- A newline that is put in parts the positions of a word. -/
lemma Robust.positions_newline (robust : Robust w) (t x y : Text) :
    positions w (x ++ (newline t ++ y)) = positions w x + positions w y := by
  rcases newline_cases t with nl | nl
  · have split : x ++ ("\r\n".toList ++ y) = x ++ '\r' :: ([] ++ '\n' :: y) := rfl
    rw [nl, split, positions_append_cons robust.nonempty (robust.parts _ (by decide)),
      positions_append_cons robust.nonempty (robust.parts _ (by decide)), positions_nil robust.nonempty,
      Nat.zero_add]
  · rw [nl]
    exact positions_append_cons robust.nonempty (robust.parts _ (by decide)) x y

/-- The import brings its own positions, unless the text has it. -/
lemma Robust.positions_imports (robust : Robust w) (t : Text) :
    ((importSplice t).map fun s => positions w s.text).sum =
      if importLine <:+: t then 0 else positions w importLine := by
  have part := importPart t
  generalize importSplice t = imports at part
  cases part with
  | present has => rw [if_pos has, List.map_nil, List.sum_nil]
  | below lacks _ _ _ =>
    have line := robust.positions_newline t [] importLine
    rw [positions_nil robust.nonempty, Nat.zero_add] at line
    rw [if_neg lacks, List.map_singleton, List.sum_singleton]
    exact line
  | top lacks _ =>
    have line := robust.positions_newline t importLine []
    rw [positions_nil robust.nonempty, Nat.add_zero, List.append_nil] at line
    rw [if_neg lacks, List.map_singleton, List.sum_singleton]
    exact line

/-- What the segments of a logger come to is the sum over the import, the field, the parameter and the
assignment. -/
lemma Attachment.sum_segments (a : Attachment t) (f : Splice → Nat) :
    (a.segments.map f).sum =
      ((importSplice t).map f).sum + (f a.fieldSplice + f a.parameterSplice + f a.assignmentSplice) := by
  rw [Attachment.segments, List.map_append, List.sum_append]
  simp only [List.map_cons, List.map_nil, List.sum_cons, List.sum_nil]
  omega

/-- A word with a dot is only put in with the import. -/
lemma Robust.positions_segments_of_dot (robust : Robust w) (dot : '.' ∈ w) (a : Attachment t) :
    (a.segments.map fun s => positions w s.text).sum =
      if importLine <:+: t then 0 else positions w importLine := by
  obtain ⟨_, _, ⟨_, _, _, _, field, _⟩, ⟨_, _, _, _, _, head, _⟩⟩ := a.parts
  have name : '.' ∉ a.controller.name := fun mem =>
    absurd ((isWord_of_firstController? a.first).2 _ mem) (by decide)
  have indent : '.' ∉ a.field.value := fun mem => absurd (field.indented _ mem) (by decide)
  have indent' : '.' ∉ a.ctor.value.indent := fun mem => absurd (head.indented _ mem) (by decide)
  have field_count : positions w a.fieldSplice.text = 0 :=
    positions_eq_zero dot (dot_notMem_fieldText t indent name)
  have parameter_count : positions w a.parameterSplice.text = 0 :=
    positions_eq_zero dot (dot_notMem_parameterSplice name)
  have assignment_count : positions w a.assignmentSplice.text = 0 :=
    positions_eq_zero dot (dot_notMem_assignmentSplice t indent')
  rw [a.sum_segments, robust.positions_imports, field_count, parameter_count, assignment_count]
  rfl

/-! ## Names -/

/-- A name that a logger brings with it: blanks part it from what stands around it. -/
structure LoggerName (w : Text) : Prop extends Robust w where
  mark : 'g' ∈ w
  solid : ' ' ∉ w
  unimported : ¬ w <:+: importLine

/-- The name of the logger field is a name that a logger brings with it. -/
lemma loggerName_field : LoggerName "_logger".toList := ⟨robust_field, by decide, by decide, by decide⟩

/-- The type of the logger is a name that a logger brings with it. -/
lemma loggerName_type : LoggerName "ILogger".toList := ⟨robust_type, by decide, by decide, by decide⟩

section name

variable (token : LoggerName w)

include token

/-- A name stands in the type of a logger as often as in the parts of the type. -/
lemma LoggerName.positions_typed (name x : Text) :
    positions w (loggerType name ++ x) =
      positions w "ILogger".toList + (positions w name + positions w x) := by
  have split : "ILogger<".toList ++ name ++ '>' :: x = "ILogger".toList ++ '<' :: (name ++ '>' :: x) :=
    List.append_assoc _ _ _
  rw [loggerType_append, split, positions_append_cons token.nonempty (token.parts _ (by decide)),
    positions_append_cons token.nonempty (token.parts _ (by decide))]

/-- In a line that is put in, nothing is counted before what the line says. -/
lemma LoggerName.positions_line {indent x : Text} (indented : ∀ c ∈ indent, isIndent c = true)
    (front : 'g' ∉ x) (y : Text) :
    positions w (newline t ++ indent ++ (x ++ ' ' :: y)) = positions w y := by
  have none : 'g' ∉ indent ++ x := by
    rw [List.mem_append, not_or]
    exact ⟨fun mem => absurd (indented _ mem) (by decide), front⟩
  have line := token.positions_newline t [] (indent ++ x ++ ' ' :: y)
  rw [positions_append_cons token.nonempty token.solid, positions_eq_zero token.mark none,
    positions_nil token.nonempty, Nat.zero_add, Nat.zero_add] at line
  rw [← line]
  simp only [List.append_assoc, List.nil_append]

/-- A name stands in the field of a logger as often as in the parts of the field. -/
lemma LoggerName.positions_field {indent : Text} (indented : ∀ c ∈ indent, isIndent c = true) (name : Text) :
    positions w (fieldText (newline t) indent name) =
      positions w "ILogger".toList + (positions w name + positions w " _logger;".toList) := by
  have front : "private readonly ".toList = "private readonly".toList ++ [' '] := rfl
  have split : fieldText (newline t) indent name = newline t ++ indent ++
      ("private readonly".toList ++ ' ' :: (loggerType name ++ " _logger;".toList)) := by
    rw [fieldText, front]
    simp only [List.append_assoc, List.cons_append, List.nil_append]
  rw [split, token.positions_line indented (by decide), token.positions_typed]

/-- A name stands in the parameter of a logger as often as in the parts of the parameter. -/
lemma LoggerName.positions_parameter {name front params : Text} {s : Splice}
    (param : IsParameter name front params s) :
    positions w s.text = positions w "ILogger".toList + (positions w name + positions w " logger".toList) := by
  cases param with
  | only _ => exact token.positions_typed name _
  | last _ _ _ =>
    have split : ", ".toList ++ loggerType name ++ " logger".toList =
        [','] ++ ' ' :: (loggerType name ++ " logger".toList) := List.append_assoc _ _ _
    dsimp only
    rw [split, positions_append_cons token.nonempty token.solid, positions_eq_zero token.mark (by decide),
      Nat.zero_add, token.positions_typed]

/-- A name that a text does not have is put in with the field, the parameter and the assignment. -/
lemma LoggerName.positions_segments (a : Attachment t) (absent : ¬ w <:+: t) :
    (a.segments.map fun s => positions w s.text).sum =
      positions w "ILogger".toList + positions w " _logger;".toList +
      (positions w "ILogger".toList + positions w " logger".toList) +
      positions w "_logger = logger;".toList := by
  obtain ⟨_, _, ⟨_, _, _, _, shape, _⟩, head⟩ := a.parts
  obtain ⟨before, lead, gap, behind, located, is_lead, _, _, param, assignment⟩ := head
  have imports := token.positions_imports t
  rw [positions_eq_zero_iff.2 token.unimported, ite_self] at imports
  have name : positions w a.controller.name = 0 := by
    refine positions_eq_zero_iff.2 fun inf => absent (inf.trans ?_)
    calc a.controller.name <:+: lead := is_lead.name_infix
      _ <:+: lead ++ '(' :: (a.ctor.value.params ++ ')' :: (gap ++ [openBrace])) :=
        (List.prefix_append _ _).isInfix
      _ <:+: t := located.isInfix
  have field_count : positions w a.fieldSplice.text = _ := token.positions_field shape.indented a.controller.name
  have parameter_count := token.positions_parameter param
  rw [name, Nat.zero_add] at field_count parameter_count
  have assignment_count : positions w a.assignmentSplice.text = positions w "_logger = logger;".toList := by
    rw [assignment]
    exact token.positions_line (x := "   ".toList) is_lead.indented (by decide) _
  rw [a.sum_segments, imports, field_count, parameter_count, assignment_count, Nat.zero_add]

end name

/-! ## The whole text -/

/-- Attaching a logger adds the positions of a robust word in the segments. -/
lemma positions_attached (robust : Robust w) (a : Attachment t) :
    positions w (Splice.applyAll a.segments t) =
      positions w t + (a.segments.map fun s => positions w s.text).sum :=
  positions_applyAll robust.nonempty (robust.harmless_segments a)

/-- A text that prints to the console and has the field of a logger has one already. -/
lemma apply_eq_alreadyDone (prints : "Console.WriteLine".toList <:+: t) (field : "_logger".toList <:+: t) :
    apply t = .abstained .alreadyDone := by
  rw [apply, occurs_iff.2 prints, occurs_iff.2 field]
  rfl

/-- A text that the rule hits has then the type of a logger and the name of its field at two positions
each, the import once if it did not have it and else as often as before, and it still prints to the console;
the rule leaves it as it is from then on. -/
theorem logger_added_once (t : Text) (hit : (apply t).hits = 1) :
    let u := (apply t).textAfter t
    positions "ILogger".toList u = 2 ∧ positions "_logger".toList u = 2 ∧
      positions importLine u = (if importLine <:+: t then positions importLine t else 1) ∧
      "Console.WriteLine".toList <:+: u ∧
      (apply u).textAfter u = u ∧ (apply u).hits = 0 ∧ (apply u).abstention? = some .alreadyDone := by
  obtain ⟨unlogged, a, attached⟩ := attachment_of_hit hit
  rw [← attached]
  -- in each segment a name stands as often as the segment is made to have it
  have type_count : positions "ILogger".toList (Splice.applyAll a.segments t) = 2 := by
    rw [positions_attached robust_type, positions_eq_zero_iff.2 unlogged.no_type,
      loggerName_type.positions_segments a unlogged.no_type]
    decide
  have field_count : positions "_logger".toList (Splice.applyAll a.segments t) = 2 := by
    rw [positions_attached robust_field, positions_eq_zero_iff.2 unlogged.no_field,
      loggerName_field.positions_segments a unlogged.no_field]
    decide
  have import_count : positions importLine (Splice.applyAll a.segments t) =
      if importLine <:+: t then positions importLine t else 1 := by
    rw [positions_attached robust_import, robust_import.positions_segments_of_dot (by decide)]
    split
    · rfl
    · next lacks =>
      rw [positions_eq_zero_iff.2 lacks]
      decide
  have prints : "Console.WriteLine".toList <:+: Splice.applyAll a.segments t := by
    apply infix_of_positions
    rw [positions_attached robust_call]
    intro none
    exact positions_eq_zero_iff.1 (Nat.add_eq_zero_iff.1 none).1 unlogged.prints
  have field : "_logger".toList <:+: Splice.applyAll a.segments t := by
    apply infix_of_positions
    rw [field_count]
    decide
  dsimp only
  rw [apply_eq_alreadyDone prints field]
  exact ⟨type_count, field_count, import_count, prints, rfl, rfl, rfl⟩

/-- A controller that prints to the console and has all places for a logger. -/
def printingController : Text :=
  "using System;\npublic class FooController\n\x7b\n  private readonly int x;\n".toList ++
  "  public FooController(int y)\n  \x7b\n    Console.WriteLine(y);\n  \x7d\n\x7d\n".toList

/-- The controller of the sample gets its logger and its import once. -/
theorem logger_added_once_printing :
    (apply printingController).hits = 1 ∧
      positions importLine ((apply printingController).textAfter printingController) = 1 := by
  have runs : (apply printingController).hits = 1 ∧ occurs importLine printingController = false := by
    decide +kernel
  have lacks : ¬ importLine <:+: printingController := by
    rw [← occurs_iff, runs.2]
    decide
  obtain ⟨_, _, imports, _⟩ := logger_added_once printingController runs.1
  rw [if_neg lacks] at imports
  exact ⟨runs.1, imports⟩

end Mender.Rule.Logger
