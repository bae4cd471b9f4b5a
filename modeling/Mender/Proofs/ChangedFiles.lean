import Mender.Proofs.Diff.LineCounts
import Mender.Proofs.Rule.Clock
import Mender.Proofs.Rule.LineEndings
import Mender.Proofs.Sweep.Accounting

/-!
# Files that change

A rule only adds to a text: what it leaves has all characters of the text in their order
(`Rule.sublist_textAfter`), and more of them if the rule hit. So no rule undoes what another one did, and a
pipeline leaves a text as it was only if no rule hit it (`applyRules_eq_self_iff`). A text that grew has a
line that was inserted (`Diff.inserted_pos`). Hence the status of a file, the hits of its rules and its line
counts say the same (`mend_changed_iff`).
-/

namespace Mender

namespace Text

variable {t : Text}

/-- A text with characters left out has fewer bytes. -/
lemma byteLength_lt_of_sublist {a b : Text} (sub : a.Sublist b) (ne : a ≠ b) : byteLength a < byteLength b := by
  induction sub with
  | slnil => exact absurd rfl ne
  | @cons a b c sub _ =>
    have le := FileTree.byteLength_le_of_sublist sub
    have pos := c.utf8Size_pos
    rw [byteLength]
    omega
  | cons_cons c _ ih =>
    rw [byteLength, byteLength]
    exact Nat.add_lt_add_left (ih fun same => ne (congrArg _ same)) _

/-- Replacing a word by one that has its characters in order leaves those of the text. -/
lemma sublist_replace {w r : Text} (ne : w ≠ []) (sub : w.Sublist r) (t : Text) : t.Sublist (replace w r t) := by
  induction t using word_induction ne with
  | nil => exact List.nil_sublist _
  | word t ih =>
    rw [replace_word ne]
    exact sub.append ih
  | other c t other ih =>
    rw [replace_other other]
    exact ih.cons_cons c

/-- Putting in leaves the characters of the text. -/
lemma sublist_insertAt (i : Nat) (s t : Text) : t.Sublist (insertAt i s t) := by
  conv_lhs => rw [← List.take_append_drop i t]
  exact (List.sublist_append_left _ s).append_right _

end Text

/-! ## Rules add to a text -/

namespace Rule

open Text

variable {t : Text}

namespace DebugGuard

/-- Joining more lines leaves the characters of those that were there. -/
lemma sublist_unlines {ls ls' : List Text} (sub : ls.Sublist ls') : (unlines ls).Sublist (unlines ls') := by
  rcases eq_or_ne ls [] with rfl | ne
  · exact List.nil_sublist _
  · have ne' : ls' ≠ [] := by
      rintro rfl
      exact ne (List.sublist_nil.1 sub)
    have below : (below ls).Sublist (below ls') := sub.flatMap _
    rw [below_of_ne_nil ne, below_of_ne_nil ne'] at below
    exact List.cons_sublist_cons.1 below

/-- Guarding leaves all lines in their order. -/
lemma sublist_guardLines (stack : Branches) (ls : List Text) : ls.Sublist (guardLines stack ls).lines := by
  induction ls generalizing stack with
  | nil => exact List.nil_sublist _
  | cons line ls ih =>
    cases st : statement? line with
    | none =>
      rw [(guardLines_none st ls).1]
      exact (ih _).cons_cons line
    | some s =>
      cases debug : stack.anyDebug with
      | true =>
        rw [(guardLines_debug st debug ls).1]
        exact (ih _).cons_cons line
      | false =>
        rw [guardLines_wrap st debug ls]
        exact (((ih _).cons s.closing).cons_cons line).cons s.opening

end DebugGuard

/-- Splices leave the characters of the text. -/
lemma Logger.sublist_applyAll (places : List Splice) (t : Text) : t.Sublist (Splice.applyAll places t) := by
  unfold Splice.applyAll
  induction places.mergeSort fun a b => b.offset ≤ a.offset generalizing t with
  | nil => exact .refl t
  | cons s places ih => exact (sublist_insertAt s.offset s.text t).trans (ih _)

/-- What a rule leaves of a text has all its characters in their order. -/
lemma sublist_textAfter (r : Rule) (t : Text) : t.Sublist ((r.apply t).textAfter t) := by
  cases r with
  | timestamp =>
    rw [Rule.apply, Timestamp.textAfter_eq_replace]
    exact sublist_replace (by decide) (by decide) t
  | debugGuard =>
    rw [Rule.apply, DebugGuard.textAfter_apply]
    conv_lhs => rw [← unlines_lines t]
    exact DebugGuard.sublist_unlines (DebugGuard.sublist_guardLines [] _)
  | logger =>
    cases eq : Rule.logger.apply t with
    | abstained reason => exact .refl t
    | edited u n =>
      obtain ⟨_, ⟨c, places, _, _, rfl⟩, _⟩ := Logger.apply_eq_edited_iff.1 eq
      exact Logger.sublist_applyAll places t

/-- A rule leaves alone what it has left. -/
lemma abstains_textAfter (r : Rule) (t : Text) : r.Abstains ((r.apply t).textAfter t) := by
  cases r with
  | timestamp => exact abstains_timestamp_iff.2 (not_localClock_timestamp t)
  | debugGuard => exact DebugGuard.abstains_apply t
  | logger =>
    cases eq : Rule.logger.apply t with
    | abstained reason => exact ⟨reason, eq⟩
    | edited u n => exact abstains_logger_of_mention (Logger.logger_of_edited eq)

/-- A rule leaves a text as it was exactly when it does not hit. -/
lemma textAfter_eq_self_iff {r : Rule} : (r.apply t).textAfter t = t ↔ (r.apply t).hits = 0 := by
  rw [← abstains_iff_hits]
  constructor
  · intro same
    have idle := r.abstains_textAfter t
    rwa [same] at idle
  · exact Abstains.textAfter

/-- A rule gives a reason to do nothing unless it hits. -/
lemma abstention?_eq_none_iff {r : Rule} : (r.apply t).abstention? = none ↔ 0 < (r.apply t).hits := by
  cases eq : r.apply t with
  | abstained reason => exact iff_of_false nofun (Nat.lt_irrefl 0)
  | edited u n => exact iff_of_true rfl (hits_pos eq)

end Rule

/-! ## Pipelines -/

/-- A pipeline leaves the characters of a text in their order. -/
lemma sublist_applyRules (rules : List Rule) (t : Text) : t.Sublist (applyRules rules t).2 := by
  induction rules generalizing t with
  | nil => exact .refl t
  | cons r rules ih => exact (r.sublist_textAfter t).trans (ih _)

/-- No rule takes back what another one added: the text at the end is that at the start only if no rule
hit. -/
lemma applyRules_eq_self_iff {rules : List Rule} {t : Text} :
    (applyRules rules t).2 = t ↔ ∀ a ∈ (applyRules rules t).1, a.outcome.hits = 0 := by
  induction rules generalizing t with
  | nil => exact iff_of_true rfl (List.forall_mem_nil _)
  | cons r rules ih =>
    rw [applyRules, List.forall_mem_cons, ← Rule.textAfter_eq_self_iff]
    constructor
    · intro same
      -- the text of the first rule lies between two equal ones
      have first : (r.apply t).textAfter t = t := by
        have final : (applyRules rules ((r.apply t).textAfter t)).2 = t := same
        have rest := sublist_applyRules rules ((r.apply t).textAfter t)
        rw [final] at rest
        exact rest.antisymm (r.sublist_textAfter t)
      refine ⟨first, ?_⟩
      rw [first] at same ⊢
      exact ih.1 same
    · rintro ⟨first, rest⟩
      rw [first] at rest ⊢
      exact ih.2 rest

/-- Each application is that of its rule to some text. -/
lemma mem_applyRules {rules : List Rule} {t : Text} {a : Application} (mem : a ∈ (applyRules rules t).1) :
    ∃ u, a.outcome = a.rule.apply u := by
  induction rules generalizing t with
  | nil => cases mem
  | cons r rules ih =>
    rcases List.mem_cons.1 mem with rfl | mem
    · exact ⟨t, rfl⟩
    · exact ih mem

/-- Every rule of a pipeline is applied once, in order. -/
lemma map_rule_applyRules (rules : List Rule) (t : Text) : (applyRules rules t).1.map (·.rule) = rules := by
  induction rules generalizing t with
  | nil => rfl
  | cons r rules ih => exact congrArg (r :: ·) (ih _)

/-! ## Records -/

/-- A text that has all lines of another, and more, has an inserted line. -/
lemma Diff.inserted_pos {before after : Text} (sub : before.Sublist after) (ne : after ≠ before) :
    0 < (countChanges before after).inserted := by
  obtain ⟨common, onOld, onNew, _, newLength⟩ := exists_common before after
  rw [Nat.pos_iff_ne_zero]
  intro none
  rw [none, Nat.add_zero] at newLength
  have lost : (lines after).flatten.Sublist (lines before).flatten := by
    rw [← onNew.eq_of_length newLength.symm]
    exact onOld.flatten
  rw [flatten_lines, flatten_lines] at lost
  exact ne (lost.antisymm sub)

namespace Recipe

variable {r : Recipe} {p : Path} {before : Text} {backup : Option BackupFate} {s s' : Session}
  {o : FileRecord}

/-- A file that is mended is recorded as what became of its text and its backup. -/
lemma eq_recordOf_of_mend (done : (r.mend p).run s = .ok o s') :
    ∃ before fate, o = r.recordOf p before fate := by
  obtain ⟨f, stop⟩ | ⟨before, fate, tree, _, run⟩ := r.mend_cases p s
  · rw [stop] at done
    cases done
  · rw [run] at done
    exact ⟨before, fate, (EStateM.Result.ok.inj done).1.symm⟩

/-- The records of the rules are those of their applications. -/
lemma rules_recordOf : (r.recordOf p before backup).rules = records (applyRules r.rules before).1 := by
  unfold recordOf
  dsimp only
  split <;> rfl

/-- A record shows a change exactly when the text is another one, and then it has line counts, and a diff in
a preview. -/
lemma changed_recordOf_iff :
    ((r.recordOf p before backup).status = .changed ↔ (applyRules r.rules before).2 ≠ before) ∧
    ((r.recordOf p before backup).lines.isSome = true ↔ (applyRules r.rules before).2 ≠ before) ∧
    ((∃ c ∈ (r.recordOf p before backup).lines, 0 < c.inserted) ↔ (applyRules r.rules before).2 ≠ before) ∧
    ((r.recordOf p before backup).diff.isSome = true ↔
      (applyRules r.rules before).2 ≠ before ∧ r.mode = .preview) := by
  have sub := sublist_applyRules r.rules before
  unfold recordOf
  dsimp only
  split
  · next same => simp [same]
  · next other =>
    refine ⟨iff_of_true rfl other, iff_of_true rfl other, iff_of_true ?_ other, ?_⟩
    · exact ⟨_, rfl, Diff.inserted_pos sub other⟩
    · rw [and_iff_right other]
      cases r.mode with
      | write => exact iff_of_false nofun nofun
      | preview => exact iff_of_true rfl rfl

/-- Some rule is recorded with hits exactly if the text changed. -/
lemma exists_hits_recordOf_iff :
    (∃ a ∈ (r.recordOf p before backup).rules, 0 < a.hits) ↔ (applyRules r.rules before).2 ≠ before := by
  rw [rules_recordOf, Ne, applyRules_eq_self_iff]
  simp [records, Nat.pos_iff_ne_zero]

/-- Every rule either hits a text and makes it longer, or it hits nothing, gives a reason and returns the text
as it is. So a file that was mended is reported as changed exactly when one of its rules hit, when it has line
counts, and when these have an inserted line; it has a diff exactly when it is reported as changed in a
preview. All rules of the recipe are reported in their order, which for switched rules is the fixed one, and
one of them has a reason exactly when it did not hit. -/
theorem mend_changed_iff :
    (∀ (r : Rule) (t : Text),
      ((r.apply t).hits = 0 ∧ (r.apply t).textAfter t = t ∧ (r.apply t).abstention?.isSome = true) ∨
      (0 < (r.apply t).hits ∧ (r.apply t).abstention? = none ∧
        Text.byteLength t < Text.byteLength ((r.apply t).textAfter t))) ∧
    ∀ (r : Recipe) (p : Path) (s s' : Session) (o : FileRecord), (r.mend p).run s = .ok o s' →
      (o.status = .changed ↔ ∃ a ∈ o.rules, 0 < a.hits) ∧
      (o.status = .changed ↔ o.lines.isSome = true) ∧
      (o.status = .changed ↔ ∃ c ∈ o.lines, 0 < c.inserted) ∧
      (o.diff.isSome = true ↔ o.status = .changed ∧ r.mode = .preview) ∧
      o.rules.map (·.rule) = r.rules ∧
      (∀ on : RuleSwitches, r.rules = on.rules →
        o.rules.map (·.rule) = [Rule.timestamp, .logger, .debugGuard].filter on.isOn) ∧
      ∀ a ∈ o.rules, a.abstention = none ↔ 0 < a.hits := by
  refine ⟨fun r t => ?_, fun r p s s' o done => ?_⟩
  · rcases Nat.eq_zero_or_pos (r.apply t).hits with none | hit
    · refine .inl ⟨none, Rule.textAfter_eq_self_iff.2 none, ?_⟩
      rw [← Option.ne_none_iff_isSome, Ne, Rule.abstention?_eq_none_iff, none]
      exact Nat.lt_irrefl 0
    · have other : t ≠ (r.apply t).textAfter t := fun same =>
        hit.ne' (Rule.textAfter_eq_self_iff.1 same.symm)
      exact .inr ⟨hit, Rule.abstention?_eq_none_iff.2 hit,
        Text.byteLength_lt_of_sublist (r.sublist_textAfter t) other⟩
  · obtain ⟨before, fate, rfl⟩ := eq_recordOf_of_mend done
    obtain ⟨status, lines, inserted, diff⟩ := @changed_recordOf_iff r p before fate
    have rules : (r.recordOf p before fate).rules.map (·.rule) = r.rules := by
      rw [rules_recordOf, records, List.map_map]
      exact map_rule_applyRules r.rules before
    rw [status, lines, inserted, diff, exists_hits_recordOf_iff]
    refine ⟨.rfl, .rfl, .rfl, .rfl, rules, fun on same => rules.trans same, fun a mem => ?_⟩
    rw [rules_recordOf] at mem
    obtain ⟨b, applied, rfl⟩ := List.mem_map.1 mem
    obtain ⟨u, eq⟩ := mem_applyRules applied
    rw [eq]
    exact Rule.abstention?_eq_none_iff

end Recipe

/-- In a preview of the sample with two rules on, the source with a reading of the local clock is reported as
changed, by the first rule only. -/
theorem mend_changed_preview : ∃ o s',
    ((Recipe.mk (RuleSwitches.mk true false true).rules defaultBackupSuffix .onChange .preview).mend
        ⟨"a.cs".toList⟩).run ⟨sampleTree, {}⟩ = .ok o s' ∧
      o.status = .changed ∧ o.diff.isSome = true ∧ (∃ c ∈ o.lines, 0 < c.inserted) ∧
      o.rules.map (·.rule) = [.timestamp, .logger] := by
  have text : readText sampleTree ⟨"a.cs".toList⟩ = .ok "var t = DateTime.Now;".toList := by cbv
  obtain ⟨o, s', done, hit⟩ : ∃ o s',
      ((Recipe.mk (RuleSwitches.mk true false true).rules defaultBackupSuffix .onChange .preview).mend
        ⟨"a.cs".toList⟩).run ⟨sampleTree, {}⟩ = .ok o s' ∧ ∃ a ∈ o.rules, 0 < a.hits := by
    rw [Recipe.mend_eq_conclude, text]
    exact ⟨_, _, rfl, by decide +kernel⟩
  obtain ⟨changed, _, inserted, diff, _, rules, _⟩ := Recipe.mend_changed_iff.2 _ _ _ _ o done
  have status := changed.2 hit
  exact ⟨o, s', done, status, diff.2 ⟨status, rfl⟩, inserted.1 status, rules ⟨true, false, true⟩ rfl⟩

end Mender
