import Mender.Proofs.Rule.Guarding
import Mender.Proofs.Rule.Places
import Mender.Rule.Pipeline

/-!
# Repeated passes

A text is settled when every rule of a pipeline gets it and leaves it alone. One pass of the rules
settles nearly every text (`settled_second_pass_iff`). The clock rule leaves no reading of the local
clock, and none arises later. The guards leave no statement to guard. A text that was given a logger
shows it. What is left is a text that was not given a logger before it was guarded and is given one
after: then a statement stands where a class should have its name, and the directive line in front of it
keeps its first word from being taken for the name of a class.
-/

namespace Mender

open Rule

variable {t u : Text} {n : Nat}

/-! ## Rules that leave a text alone -/

/-- A rule leaves a text alone. -/
def Rule.Abstains (r : Rule) (t : Text) : Prop := ∃ reason, r.apply t = .abstained reason

/-- A rule that abstains leaves a text as it is. -/
lemma Rule.Abstains.textAfter {r : Rule} (idle : r.Abstains t) : (r.apply t).textAfter t = t := by
  obtain ⟨reason, eq⟩ := idle
  rw [eq]
  rfl

/-- A rule that edits a text has hit it. -/
lemma Rule.hits_pos {r : Rule} (eq : r.apply t = .edited u n) : 0 < n := by
  cases r with
  | timestamp =>
    unfold Rule.apply Timestamp.apply at eq
    dsimp only at eq
    split at eq
    · cases eq
    · obtain ⟨_, rfl⟩ := Outcome.edited.inj eq
      exact Nat.succ_pos _
  | debugGuard =>
    unfold Rule.apply DebugGuard.apply at eq
    dsimp only at eq
    split at eq
    · split at eq
      · cases eq
      · next wrapped =>
        obtain ⟨_, rfl⟩ := Outcome.edited.inj eq
        exact Nat.pos_of_ne_zero wrapped
    · cases eq
  | logger =>
    obtain ⟨_, _, rfl⟩ := Logger.apply_eq_edited_iff.1 eq
    exact Nat.one_pos

/-- A rule abstains when it does not hit. -/
lemma Rule.abstains_iff_hits {r : Rule} : r.Abstains t ↔ (r.apply t).hits = 0 := by
  unfold Rule.Abstains
  cases eq : r.apply t with
  | abstained reason => exact ⟨fun _ => rfl, fun _ => ⟨reason, rfl⟩⟩
  | edited u n =>
    refine ⟨nofun, fun none => ?_⟩
    exact absurd none (Rule.hits_pos eq).ne'

/-- A rule that does not abstain edits. -/
lemma Rule.not_abstains_iff {r : Rule} : ¬ r.Abstains t ↔ ∃ u n, r.apply t = .edited u n := by
  unfold Rule.Abstains
  cases r.apply t with
  | abstained reason => exact ⟨fun h => absurd ⟨reason, rfl⟩ h, nofun⟩
  | edited u n => exact ⟨fun _ => ⟨u, n, rfl⟩, fun _ => nofun⟩

/-! ## Settled texts -/

/-- Every rule of a pipeline gets the text itself, hits nothing in it and leaves it as it is. -/
structure Settled (rules : List Rule) (t : Text) : Prop where
  idle : ∀ a ∈ (applyRules rules t).1, a.outcome.hits = 0 ∧ a.outcome.textAfter t = t
  same : (applyRules rules t).2 = t

/-- A text is settled when every rule of the pipeline abstains on it. -/
lemma settled_iff {rules : List Rule} : Settled rules t ↔ ∀ r ∈ rules, r.Abstains t := by
  induction rules with
  | nil => exact ⟨fun _ => nofun, fun _ => ⟨nofun, rfl⟩⟩
  | cons r rules ih =>
    have rest : r.Abstains t → (applyRules (r :: rules) t).1 =
        ⟨r, r.apply t⟩ :: (applyRules rules t).1 ∧
          (applyRules (r :: rules) t).2 = (applyRules rules t).2 := by
      intro abstains
      rw [applyRules, abstains.textAfter]
      exact ⟨rfl, rfl⟩
    rw [List.forall_mem_cons]
    constructor
    · intro settled
      have abstains : r.Abstains t := Rule.abstains_iff_hits.2 (settled.idle _ List.mem_cons_self).1
      obtain ⟨list, text⟩ := rest abstains
      refine ⟨abstains, ih.1 ⟨fun a mem => settled.idle a ?_, text.symm.trans settled.same⟩⟩
      rw [list]
      exact List.mem_cons_of_mem _ mem
    · rintro ⟨abstains, others⟩
      obtain ⟨list, text⟩ := rest abstains
      have settled := ih.2 others
      refine ⟨?_, text.trans settled.same⟩
      rw [list, List.forall_mem_cons]
      exact ⟨⟨Rule.abstains_iff_hits.1 abstains, abstains.textAfter⟩, settled.idle⟩

/-! ## One pass -/

/-- What a rule leaves of a text, if it is switched on. -/
def RuleSwitches.leaves (s : RuleSwitches) (r : Rule) (t : Text) : Text :=
  if s.isOn r then (r.apply t).textAfter t else t

/-- Leaving rules out of a pipeline is the same as switching them off in it. -/
lemma applyRules_filter (s : RuleSwitches) (rules : List Rule) (t : Text) :
    (applyRules (rules.filter s.isOn) t).2 = rules.foldl (fun t r => s.leaves r t) t := by
  induction rules generalizing t with
  | nil => rfl
  | cons r rules ih =>
    rw [List.foldl_cons, ← ih, RuleSwitches.leaves, List.filter_cons]
    split
    · rfl
    · rfl

/-- The clocks are changed first, then a logger is put in, and guards come last. -/
lemma text_applyRules (s : RuleSwitches) (c : Text) : (applyRules s.rules c).2 =
    s.leaves .debugGuard (s.leaves .logger (s.leaves .timestamp c)) :=
  applyRules_filter s applicationOrder c

/-! ## The clock -/

/-- The clock rule abstains on texts without readings of the local clock. -/
lemma abstains_timestamp_iff : Rule.timestamp.Abstains t ↔ ¬ Timestamp.localClock <:+: t := by
  rw [← Text.count_eq_zero_iff (by decide)]
  unfold Rule.Abstains Rule.apply Timestamp.apply
  dsimp only
  cases Text.count Timestamp.localClock t with
  | zero => exact ⟨fun _ => rfl, fun _ => ⟨_, rfl⟩⟩
  | succ n => exact ⟨nofun, nofun⟩

/-- Replacing the readings of the local clock leaves none. -/
lemma not_localClock_replace (t : Text) :
    ¬ Timestamp.localClock <:+: Text.replace Timestamp.localClock Timestamp.universalClock t := by
  refine Text.not_infix_replaceFrom (c := 'D') (w := "ateTime.Now".toList)
    (r := "ateTime.UtcNow".toList) (by decide) (by decide) ?_ 0
  rintro z ⟨y, eq⟩
  -- the two readings part behind the dot
  have parts := congrArg (fun x => x.drop 9) eq
  exact absurd (List.cons_eq_cons.1 parts).1 (by decide)

/-- The clock rule leaves no reading of the local clock. -/
lemma not_localClock_timestamp (t : Text) :
    ¬ Timestamp.localClock <:+: (Rule.timestamp.apply t).textAfter t := by
  cases eq : Rule.timestamp.apply t with
  | abstained reason => exact abstains_timestamp_iff.1 ⟨reason, eq⟩
  | edited u n =>
    unfold Rule.apply Timestamp.apply at eq
    dsimp only at eq
    split at eq
    · cases eq
    · obtain ⟨rfl, _⟩ := Outcome.edited.inj eq
      exact not_localClock_replace t

/-- The later rules bring no reading of the local clock. -/
lemma abstains_timestamp_leaves (s : RuleSwitches) {r : Rule} (later : r ≠ .timestamp)
    (abstains : Rule.timestamp.Abstains t) : Rule.timestamp.Abstains (s.leaves r t) := by
  unfold RuleSwitches.leaves
  split
  · rw [abstains_timestamp_iff] at abstains ⊢
    cases r with
    | timestamp => exact absurd rfl later
    | logger =>
      cases eq : Rule.logger.apply t with
      | abstained reason => exact abstains
      | edited u n => exact Logger.not_localClock_of_edited eq abstains
    | debugGuard =>
      rw [(DebugGuard.pads_apply t).infix_iff (by decide +kernel)] at abstains
      exact abstains
  · exact abstains

/-! ## The logger -/

/-- The logger rule abstains on a text that mentions the field. -/
lemma abstains_logger_of_mention (name : "_logger".toList <:+: t) : Rule.logger.Abstains t := by
  by_contra edits
  obtain ⟨u, n, eq⟩ := Rule.not_abstains_iff.1 edits
  exact (Logger.apply_eq_edited_iff.1 eq).1.no_field name

/-- A text that a logger fits only once it is guarded, because a statement stands where a class should
have its name. -/
structure LateLogger (t : Text) : Prop where
  dangling : Logger.Dangling t
  before : (Rule.logger.apply t).hits = 0
  after : (Rule.logger.apply ((Rule.debugGuard.apply t).textAfter t)).hits ≠ 0

/-- The guard rule pads a text, whether it is on or off. -/
lemma pads_leaves (s : RuleSwitches) (t : Text) :
    DebugGuard.Pads (.outer true) t (s.leaves .debugGuard t) := by
  unfold RuleSwitches.leaves
  split
  · exact DebugGuard.pads_apply t
  · exact DebugGuard.Pads.refl t

/-- After a pass the logger rule leaves the text alone, unless guarding made a logger fit. -/
lemma abstains_logger_iff (s : RuleSwitches) (t : Text) :
    Rule.logger.Abstains (s.leaves .debugGuard ((Rule.logger.apply t).textAfter t)) ↔
      ¬ (s.debugGuard = true ∧ LateLogger t) := by
  cases eq : Rule.logger.apply t with
  | edited u n =>
    have name : "_logger".toList <:+: s.leaves .debugGuard u := by
      rw [← (pads_leaves s u).infix_iff (by decide +kernel)]
      exact Logger.logger_of_edited eq
    refine iff_of_true (abstains_logger_of_mention name) ?_
    rintro ⟨_, late⟩
    have before := late.before
    rw [eq] at before
    exact absurd before (Rule.hits_pos eq).ne'
  | abstained reason =>
    rw [Outcome.textAfter, RuleSwitches.leaves]
    split
    · next on =>
      constructor
      · rintro abstains ⟨_, late⟩
        exact late.after (Rule.abstains_iff_hits.1 abstains)
      · intro not
        by_contra edits
        refine not ⟨on, ?_, Rule.abstains_iff_hits.1 ⟨reason, eq⟩,
          fun none => edits (Rule.abstains_iff_hits.2 none)⟩
        -- where every header has its name, both texts get a logger or neither does
        by_contra named
        have edits_t := (Logger.edits_iff (DebugGuard.pads_apply t) named).2
          (Rule.not_abstains_iff.1 edits)
        exact (Rule.not_abstains_iff (r := .logger)).2 edits_t ⟨reason, eq⟩
    · next off => exact iff_of_true ⟨reason, eq⟩ fun both => off both.1

/-! ## The second pass -/

/-- The rules of a pipeline are those that are on. -/
lemma mem_rules_iff {s : RuleSwitches} {r : Rule} : r ∈ s.rules ↔ s.isOn r = true := by
  have all : r ∈ applicationOrder := by cases r <;> decide
  rw [RuleSwitches.rules, List.mem_filter, and_iff_right all]

/-- A second pass of the rules does nothing to any text, unless both the logger rule and the guards are
on and a logger fits the text only once it is guarded. -/
theorem settled_second_pass_iff (s : RuleSwitches) (c : Text) :
    Settled s.rules (applyRules s.rules c).2 ↔
      ¬ (s.logger = true ∧ s.debugGuard = true ∧ LateLogger (s.leaves .timestamp c)) := by
  rw [settled_iff, text_applyRules]
  have logger_on : s.logger = true → s.leaves .logger (s.leaves .timestamp c) =
      (Rule.logger.apply (s.leaves .timestamp c)).textAfter (s.leaves .timestamp c) := fun on => if_pos on
  constructor
  · rintro abstains ⟨logger, guards⟩
    have idle := abstains .logger (mem_rules_iff.2 logger)
    rw [logger_on logger] at idle
    exact (abstains_logger_iff s _).1 idle guards
  · intro not r mem
    have on := mem_rules_iff.1 mem
    cases r with
    | timestamp =>
      have first : Rule.timestamp.Abstains (s.leaves .timestamp c) := by
        rw [abstains_timestamp_iff, RuleSwitches.leaves, if_pos on]
        exact not_localClock_timestamp c
      exact abstains_timestamp_leaves s nofun (abstains_timestamp_leaves s nofun first)
    | debugGuard =>
      rw [RuleSwitches.leaves, if_pos on]
      exact DebugGuard.abstains_apply _
    | logger =>
      rw [logger_on on]
      exact (abstains_logger_iff s _).2 fun guards => not ⟨on, guards⟩

/-- A controller that has all places for a logger. -/
def sampleController : Text :=
  "public class FooController\n\x7b\n  private readonly int x;\n  public FooController()\n  \x7b\n  \x7d\n\x7d\n"

/-- With all rules on, a class without a name before a statement keeps the controller below it from
its logger in the first pass, and no longer in the second one. -/
theorem not_settled_of_nameless_class :
    ¬ Settled (RuleSwitches.mk true true true).rules
      (applyRules (RuleSwitches.mk true true true).rules
        ("public class\nConsole.WriteLine(1);\n".toList ++ sampleController)).2 := by
  have first : (applyRules (RuleSwitches.mk true true true).rules
      ("public class\nConsole.WriteLine(1);\n".toList ++ sampleController)).2 =
        "public class\n#if DEBUG\nConsole.WriteLine(1);\n#endif\n".toList ++ sampleController := by
    decide +kernel
  have hits : (Rule.logger.apply
      ("public class\n#if DEBUG\nConsole.WriteLine(1);\n#endif\n".toList ++ sampleController)).hits = 1 := by
    decide +kernel
  rw [first, settled_iff]
  intro abstains
  have none := Rule.abstains_iff_hits.1 (abstains .logger (by decide))
  exact absurd (hits.symm.trans none) (by decide)

end Mender
