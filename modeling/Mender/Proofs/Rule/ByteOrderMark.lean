import Mender.Proofs.Rule.Attachment

/-!
# Byte order marks

A text may begin with a byte order mark. No rule writes marks or takes any out, so a text keeps as many as it
has (`count_leaves`). The mark is neither blank nor part of a word, so the clock rule and the guards also keep
it in front (`head?_replace`, `Pads.read`). The logger rule does not always: to it the mark is part of the
first line, which is then no import directive. A text that has no directive on another line gets its import
on top, before the mark (`head?_textAfter`, `mark_stays_iff`).
-/

namespace Mender

open Text

variable {t : Text}

/-- The character that tells the byte order of a file when it stands in front. -/
def byteOrderMark : Char := '\ufeff'

/-! ## The clock -/

namespace Text

variable {w r : Text} {d : Char}

/-- A character that is in neither word comes as often as before. -/
lemma count_replace (ne : w ≠ []) (not : d ∉ w) (not' : d ∉ r) (t : Text) :
    List.count d (replace w r t) = List.count d t := by
  induction t using word_induction ne with
  | nil => rfl
  | word t ih =>
    rw [replace_word ne, List.count_append, List.count_append, ih, List.count_eq_zero.2 not,
      List.count_eq_zero.2 not']
  | other c t other ih => rw [replace_other other, List.count_cons, List.count_cons, ih]

/-- A character that the word does not have stays in front. -/
lemma head?_replace (ne : w ≠ []) (not : d ∉ w) (front : t.head? = some d) :
    (replace w r t).head? = some d := by
  obtain ⟨t, rfl⟩ := List.head?_eq_some_iff.1 front
  unfold replace
  rw [replaceFrom, if_neg]
  · rfl
  · intro pre
    obtain ⟨c, w, rfl⟩ := List.exists_cons_of_ne_nil ne
    obtain ⟨rfl, _⟩ := List.cons_prefix_cons.1 (List.isPrefixOf_iff_prefix.1 pre)
    exact not List.mem_cons_self

end Text

/-! ## The logger -/

namespace Rule.Logger

variable {places : List Splice} {d : Char}

/-- Insertions without a character do not change how often it comes. -/
lemma count_foldl_insertAt (not : ∀ s ∈ places, d ∉ s.text) (t : Text) :
    List.count d (places.foldl (fun t s => insertAt s.offset s.text t) t) = List.count d t := by
  induction places generalizing t with
  | nil => rfl
  | cons s places ih =>
    obtain ⟨not_s, not⟩ := List.forall_mem_cons.1 not
    rw [List.foldl_cons, ih not, insertAt, List.count_append, List.count_append,
      List.count_eq_zero.2 not_s, Nat.add_zero, ← List.count_append, List.take_append_drop]

/-- What comes to stand in front: the character that was there, or that all texts begin with which are put
in there. -/
lemma head?_foldl_insertAt (tops : ∀ s ∈ places, s.offset = 0 → s.text.head? = some d)
    (front : t.head? = some d ∨ ∃ s ∈ places, s.offset = 0) :
    (places.foldl (fun t s => insertAt s.offset s.text t) t).head? = some d := by
  induction places generalizing t with
  | nil => exact front.resolve_right (by simp)
  | cons s places ih =>
    obtain ⟨top, tops⟩ := List.forall_mem_cons.1 tops
    refine ih tops ?_
    cases offset : s.offset with
    | zero =>
      left
      dsimp only
      rw [insertAt, offset, List.take_zero, List.nil_append, List.head?_append, top offset]
      rfl
    | succ i =>
      rcases front with front | ⟨s', mem, zero⟩
      · left
        obtain ⟨t, rfl⟩ := List.head?_eq_some_iff.1 front
        dsimp only
        rw [insertAt, offset]
        rfl
      · rcases List.mem_cons.1 mem with rfl | mem
        · rw [zero] at offset
          cases offset
        · exact .inr ⟨s', mem, zero⟩

/-- Characters of a class without the mark are no marks. -/
lemma mark_notMem_of_all {p : Char → Bool} {x : Text} (all : ∀ c ∈ x, p c = true)
    (not : p byteOrderMark = false) : byteOrderMark ∉ x :=
  fun mem => absurd (not.symm.trans (all _ mem)) (by decide)

/-- The mark is no part of a word. -/
lemma isWord_mark : isWord byteOrderMark = false := by decide +kernel

/-- A newline has no mark. -/
lemma mark_notMem_newline (t : Text) : byteOrderMark ∉ newline t := by
  rcases newline_cases t with nl | nl
  · rw [nl]
    decide
  · rw [nl]
    decide

/-- The import of a logger has no mark. -/
lemma ImportPart.mark_notMem {imports : List Splice} (part : ImportPart t imports) :
    ∀ s ∈ imports, byteOrderMark ∉ s.text := by
  have line : byteOrderMark ∉ importLine := by decide
  have nl := mark_notMem_newline t
  cases part with
  | present _ => exact List.forall_mem_nil _
  | below _ _ _ _ =>
    rw [List.forall_mem_singleton, List.mem_append, not_or]
    exact ⟨nl, line⟩
  | top _ _ =>
    rw [List.forall_mem_singleton, List.mem_append, not_or]
    exact ⟨line, nl⟩

/-- Nothing that is put in for a logger has a mark in it. -/
lemma Attachment.mark_notMem (a : Attachment t) : ∀ s ∈ a.segments, byteOrderMark ∉ s.text := by
  obtain ⟨_, imports, ⟨_, _, _, _, is_field, field⟩, ⟨_, _, _, _, _, is_lead, _, _, param, assign⟩⟩ := a.parts
  have nl := mark_notMem_newline t
  have name := mark_notMem_of_all (isWord_of_firstController? a.first).2 isWord_mark
  have typed : byteOrderMark ∉ loggerType a.controller.name := by
    unfold loggerType
    simp only [List.mem_append, not_or]
    exact ⟨⟨by decide, name⟩, by decide⟩
  have indent := mark_notMem_of_all is_field.indented (by decide)
  have indent' := mark_notMem_of_all is_lead.indented (by decide)
  unfold Attachment.segments
  rw [List.forall_mem_append, List.forall_mem_cons, List.forall_mem_cons, List.forall_mem_singleton]
  refine ⟨imports.mark_notMem, ?_, ?_, ?_⟩
  · rw [field]
    simp only [List.mem_append, not_or]
    exact ⟨⟨⟨⟨nl, indent⟩, by decide⟩, typed⟩, by decide⟩
  · generalize a.parameterSplice = s at param
    cases param with
    | only _ =>
      simp only [List.mem_append, not_or]
      exact ⟨typed, by decide⟩
    | last _ _ _ =>
      simp only [List.mem_append, not_or]
      exact ⟨⟨by decide, typed⟩, by decide⟩
  · rw [assign]
    simp only [List.mem_append, not_or]
    exact ⟨⟨nl, indent'⟩, by decide⟩

/-- The logger rule keeps as many marks as there are. -/
lemma count_textAfter (t : Text) :
    List.count byteOrderMark ((apply t).textAfter t) = List.count byteOrderMark t := by
  cases eq : apply t with
  | abstained reason => rfl
  | edited u n =>
    obtain ⟨_, ⟨a, rfl⟩, _⟩ := apply_eq_edited_iff_attachment.1 eq
    exact count_foldl_insertAt (fun s mem => a.mark_notMem s (List.mem_mergeSort.1 mem)) t

/-- The rule adds its import and finds no directive behind a newline to put it below. -/
def LacksDirective (t : Text) : Prop :=
  (apply t).hits = 1 ∧ ¬ importLine <:+: t ∧ ∀ x y, t = x ++ '\n' :: y → importDirective y = none

/-- A directive cannot be read where a mark is. -/
lemma scan_importDirective_eq_nil_iff (front : t.head? = some byteOrderMark) :
    scan .lineStart importDirective t = [] ↔ ∀ x y, t = x ++ '\n' :: y → importDirective y = none := by
  obtain ⟨t, rfl⟩ := List.head?_eq_some_iff.1 front
  rw [scan, scanFrom_lineStart_eq_nil_iff rfl]
  exact and_iff_right fun _ => rfl

/-- All but the import goes between the braces of the controller. -/
lemma Attachment.offset_pos (a : Attachment t) :
    ∀ s ∈ [a.fieldSplice, a.parameterSplice, a.assignmentSplice], 0 < s.offset := by
  obtain ⟨before, _, _, inside⟩ := a.braces
  have pos : ∀ s : Splice, 0 < (s.inBodyOf a.controller).offset := by
    intro s
    exact Nat.add_pos_left (inside ▸ Nat.succ_pos _) _
  rw [List.forall_mem_cons, List.forall_mem_cons, List.forall_mem_singleton]
  exact ⟨pos _, pos _, pos _⟩

/-- The import is put in front of a text when it has no directive, and it begins with a letter. -/
lemma ImportPart.cases_offset {imports : List Splice} (part : ImportPart t imports) :
    (¬ importLine <:+: t ∧ scan .lineStart importDirective t = [] ∧
      (∃ s ∈ imports, s.offset = 0) ∧ ∀ s ∈ imports, s.text.head? = some 'u') ∨
    (¬ (¬ importLine <:+: t ∧ scan .lineStart importDirective t = []) ∧ ∀ s ∈ imports, 0 < s.offset) := by
  cases part with
  | present has => exact .inr ⟨fun lacks => lacks.1 has, List.forall_mem_nil _⟩
  | below _ last _ shape =>
    refine .inr ⟨fun lacks => ?_, ?_⟩
    · rw [lacks.2] at last
      cases last
    · obtain ⟨gap, name, gap', _, _, _, _, _, rfl⟩ := shape
      rw [List.forall_mem_singleton, List.length_append]
      exact Nat.add_pos_right _ (Nat.add_pos_left (by decide) _)
  | top lacks none =>
    refine .inl ⟨lacks, none, ⟨_, List.mem_singleton_self _, rfl⟩, ?_⟩
    rw [List.forall_mem_singleton]
    rfl

/-- A mark in front stays there, unless the import is put on top. Then the import is in front. -/
lemma head?_textAfter (front : t.head? = some byteOrderMark) :
    (LacksDirective t → ((apply t).textAfter t).head? = some 'u') ∧
      (¬ LacksDirective t → ((apply t).textAfter t).head? = some byteOrderMark) := by
  unfold LacksDirective
  rw [← scan_importDirective_eq_nil_iff front]
  cases eq : apply t with
  | abstained reason => exact ⟨fun lacks => absurd lacks.1 Nat.zero_ne_one, fun _ => front⟩
  | edited u n =>
    obtain ⟨_, ⟨a, rfl⟩, rfl⟩ := apply_eq_edited_iff_attachment.1 eq
    have later := a.offset_pos
    refine ⟨fun lacks => ?_, fun has => ?_⟩
    · obtain ⟨_, _, ⟨s, mem, zero⟩, letter⟩ | ⟨has, _⟩ := (importPart t).cases_offset
      · refine head?_foldl_insertAt (fun s' mem' zero' => ?_)
          (.inr ⟨s, List.mem_mergeSort.2 (List.mem_append_left _ mem), zero⟩)
        rcases List.mem_append.1 (List.mem_mergeSort.1 mem') with mem' | mem'
        · exact letter s' mem'
        · exact absurd zero' (later s' mem').ne'
      · exact absurd lacks.2 has
    · obtain ⟨lacks, none, _⟩ | ⟨_, pos⟩ := (importPart t).cases_offset
      · exact absurd ⟨rfl, lacks, none⟩ has
      · refine head?_foldl_insertAt (fun s mem zero => ?_) (.inl front)
        rcases List.mem_append.1 (List.mem_mergeSort.1 mem) with mem | mem
        · exact absurd zero (pos s mem).ne'
        · exact absurd zero (later s mem).ne'

end Rule.Logger

/-! ## The guards -/

namespace Rule.DebugGuard

/-- A padded text has as many of a character that no directive line has. -/
lemma Pads.count_eq {m : Mode} {t t' : Text} {d : Char} (foreign : Foreign d) (pads : Pads m t t') :
    List.count d t' = List.count d t := by
  have nl : d ≠ '\n' := by
    rintro rfl
    exact absurd foreign.solid (by decide)
  induction pads with
  | nil => rfl
  | keep _ ih => rw [List.count_cons, List.count_cons, ih]
  | opening tidy _ _ ih =>
    rw [List.count_append, List.count_eq_zero.2 (foreign.notMem_opening tidy), List.count_cons_of_ne nl.symm,
      ih, Nat.zero_add]
  | solid _ _ ih => rw [List.count_cons, List.count_cons, ih]
  | semicolon _ ih => rw [List.count_cons, List.count_cons, ih]
  | carriage _ ih => rw [List.count_cons, List.count_cons, ih]
  | closing tidy _ _ ih =>
    rw [List.count_cons_of_ne nl.symm, List.count_append, List.count_eq_zero.2 (foreign.notMem_closing tidy),
      ih, Nat.zero_add]

/-- A plain character stays in front. -/
lemma head?_textAfter {d : Char} (plain : Pads.Plain d) (sc : d ≠ ';') (front : t.head? = some d) :
    ((apply t).textAfter t).head? = some d := by
  have nl : d ≠ '\n' := by
    rintro rfl
    exact absurd plain.1 (by decide)
  have pads := pads_apply t
  obtain ⟨u, rfl⟩ := List.head?_eq_some_iff.1 front
  obtain ⟨u', eq, _⟩ := pads.read (.inr plain) nl sc
  rw [eq]
  rfl

end Rule.DebugGuard

/-! ## A pass of the rules -/

/-- No rule adds marks to a text or takes any out. -/
lemma count_leaves (s : RuleSwitches) (r : Rule) (t : Text) :
    List.count byteOrderMark (s.leaves r t) = List.count byteOrderMark t := by
  unfold RuleSwitches.leaves
  split
  · cases r with
    | timestamp =>
      rcases Rule.Timestamp.textAfter_apply t with same | replaced
      · rw [Rule.apply, same]
      · rw [Rule.apply, replaced, count_replace (by decide) (by decide) (by decide)]
    | logger => exact Rule.Logger.count_textAfter t
    | debugGuard => exact Rule.DebugGuard.Pads.count_eq (by decide) (Rule.DebugGuard.pads_apply t)
  · rfl

/-- The clock rule keeps a mark in front. -/
lemma head?_timestamp (s : RuleSwitches) (front : t.head? = some byteOrderMark) :
    (s.leaves .timestamp t).head? = some byteOrderMark := by
  unfold RuleSwitches.leaves
  split
  · rcases Rule.Timestamp.textAfter_apply t with same | replaced
    · rw [Rule.apply, same]
      exact front
    · rw [Rule.apply, replaced]
      exact head?_replace (by decide) (by decide) front
  · exact front

/-- The guard rule keeps a plain character in front. -/
lemma head?_debugGuard (s : RuleSwitches) {d : Char} (plain : Rule.DebugGuard.Pads.Plain d) (sc : d ≠ ';')
    (front : t.head? = some d) : (s.leaves .debugGuard t).head? = some d := by
  unfold RuleSwitches.leaves
  split
  · exact Rule.DebugGuard.head?_textAfter plain sc front
  · exact front

/-- A text keeps as many byte order marks as it has, whatever rules are on. One at its front stays there,
unless the logger rule adds its import and finds no directive behind a newline. -/
theorem mark_stays_iff (s : RuleSwitches) (c : Text) :
    List.count byteOrderMark (applyRules s.rules c).2 = List.count byteOrderMark c ∧
      (c.head? = some byteOrderMark →
        ((applyRules s.rules c).2.head? = some byteOrderMark ↔
          ¬ (s.logger = true ∧ Rule.Logger.LacksDirective (s.leaves .timestamp c)))) := by
  rw [text_applyRules]
  refine ⟨?_, fun front => ?_⟩
  · rw [count_leaves, count_leaves, count_leaves]
  · have front := head?_timestamp s front
    generalize s.leaves .timestamp c = t at front ⊢
    obtain ⟨moves, stays⟩ := Rule.Logger.head?_textAfter front
    by_cases top : s.logger = true ∧ Rule.Logger.LacksDirective t
    · have letter : (s.leaves .logger t).head? = some 'u' := by
        have on : s.isOn .logger = true := top.1
        rw [RuleSwitches.leaves, if_pos on]
        exact moves top.2
      rw [head?_debugGuard s (by decide) (by decide) letter]
      exact iff_of_false (by decide) (not_not.2 top)
    · have mark : (s.leaves .logger t).head? = some byteOrderMark := by
        unfold RuleSwitches.leaves
        split
        · next on => exact stays fun lacks => top ⟨on, lacks⟩
        · exact front
      rw [head?_debugGuard s (by decide) (by decide) mark]
      exact iff_of_true rfl top

/-- A controller that prints. -/
def printingController : Text :=
  "public class FooController\n\x7b\n  private readonly int x;\n  public FooController()\n  \x7b\n" ++
    "    Console.WriteLine(x);\n  \x7d\n\x7d\n"

/-- With its only directive on the line of the mark, a text gets its import before the mark. -/
theorem mark_behind_import :
    (byteOrderMark :: ("using System;\n".toList ++ printingController)).head? = some byteOrderMark ∧
      (applyRules (RuleSwitches.mk false false true).rules
        (byteOrderMark :: ("using System;\n".toList ++ printingController))).2.head? = some 'u' := by
  have alone : ∀ t, (applyRules (RuleSwitches.mk false false true).rules t).2 =
      (Rule.Logger.apply t).textAfter t := text_applyRules _
  rw [alone]
  refine ⟨rfl, (Rule.Logger.head?_textAfter rfl).1 ⟨?_, ?_, ?_⟩⟩
  · decide +kernel
  · decide +kernel
  · rw [← Rule.Logger.scan_importDirective_eq_nil_iff rfl]
    decide +kernel

/-- With a directive on the line below, the mark stays in front under all rules. -/
theorem mark_stays_above_directives :
    (applyRules (RuleSwitches.mk true true true).rules
      (byteOrderMark :: ("using System;\nusing System.Text;\n".toList ++ printingController))).2.head? =
        some byteOrderMark := by
  refine ((mark_stays_iff _ _).2 rfl).2 ?_
  rintro ⟨_, _, _, none⟩
  have clock : (RuleSwitches.mk true true true).leaves .timestamp
      (byteOrderMark :: ("using System;\nusing System.Text;\n".toList ++ printingController)) =
        byteOrderMark :: "using System;".toList ++
          '\n' :: ("using System.Text;\n".toList ++ printingController) := by
    decide +kernel
  have directive :
      (Rule.Logger.importDirective ("using System.Text;\n".toList ++ printingController)).isSome = true := by
    decide +kernel
  rw [none _ _ clock] at directive
  cases directive

end Mender
