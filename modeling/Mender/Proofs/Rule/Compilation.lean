import Mender.Proofs.Rule.LineEndings

/-!
# Conditional compilation

A build says which condition directives hold. It compiles the lines of a text that are in selected branches
only (`activeLines`): of the branches of a conditional, the first one whose condition holds. The guards
follow conditionals with less care. They know of each open conditional whether it is in its debug branch, and
nothing about the others (`Follows`). That is enough: a debug build compiles the same lines of a guarded text
as of the text itself, and any other build compiles the same lines but the statements
(`activeLines_guarded`).
-/

namespace Mender.Rule.DebugGuard

open Text

variable {line : Text} {ls : List Text}

/-! ## Builds -/

/-- Which condition directives hold in a build. A directive is known by its line without the blanks at the
two ends. -/
abbrev Build := Text → Bool

/-- The directive that debug builds select. -/
def debugDirective : Text := "#if DEBUG"

/-- What a line says about conditional compilation. -/
inductive Branching where
  /-- Opens a conditional with a branch under a condition. -/
  | opens (condition : Text)
  /-- Starts another branch of the innermost conditional, under a condition. -/
  | elif (condition : Text)
  /-- Starts the branch of the innermost conditional for all other cases. -/
  | otherwise
  /-- Closes the innermost conditional. -/
  | closes

/-- Reads a line that steers conditional compilation. -/
def branching? (line : Text) : Option Branching :=
  let d := trim line
  if ("#if" : Text).isPrefixOf d then some (.opens d)
  else if ("#else" : Text).isPrefixOf d then some .otherwise
  else if ("#elif" : Text).isPrefixOf d then some (.elif d)
  else if ("#endif" : Text).isPrefixOf d then some .closes
  else none

/-- An open conditional in a build: whether its branch here is selected, and whether one of its branches
has been selected up to here. -/
structure Conditional where
  selected : Bool
  settled : Bool

/-- Starts another branch of the innermost conditional. It is selected when its condition holds and no
branch before it was. Outside of all conditionals it means nothing. -/
def nextBranch (holds : Bool) : List Conditional → List Conditional
  | [] => []
  | c :: outer => ⟨!c.settled && holds, c.settled || holds⟩ :: outer

/-- The open conditionals, innermost first, behind a line that steers conditional compilation. -/
def Branching.step (build : Build) (stack : List Conditional) : Branching → List Conditional
  | .opens d => ⟨build d, build d⟩ :: stack
  | .elif d => nextBranch (build d) stack
  | .otherwise => nextBranch true stack
  | .closes => stack.tail

/-- The lines that a build compiles, below the given open conditionals. -/
def activeFrom (build : Build) : List Conditional → List Text → List Text
  | _, [] => []
  | stack, line :: below =>
    match branching? line with
    | some b => activeFrom build (b.step build stack) below
    | none =>
      if stack.all (·.selected) then line :: activeFrom build stack below
      else activeFrom build stack below

/-- The lines of a text that a build compiles. -/
def activeLines (build : Build) (t : Text) : List Text := activeFrom build [] (lines t)

/-! ## Statement lines -/

/-- A line is blanks, a call of `Console.WriteLine` up to its first closing parenthesis, a semicolon and
perhaps a carriage return. -/
def IsStatement (line : Text) : Prop :=
  ∃ indent args carriage, (∀ c ∈ indent, isBlank c = true) ∧ ')' ∉ args ∧
    (carriage = [] ∨ carriage = ['\r']) ∧
    line = indent ++ ("Console.WriteLine(".toList ++ (args ++ (");".toList ++ carriage)))

/-- The lines of this shape are those that are read as statements. -/
lemma isStatement_iff : IsStatement line ↔ ∃ s, statement? line = some s := by
  simp only [statement?, Option.bind_eq_bind, Option.bind_eq_some_iff, after?_eq_some_iff]
  constructor
  · rintro ⟨indent, args, carriage, blank, open_args, ends, rfl⟩
    have front : (indent ++ ("Console.WriteLine(".toList ++ (args ++ (");".toList ++ carriage)))).dropWhile
        isBlank = call ++ ['('] ++ (args ++ (");".toList ++ carriage)) :=
      List.dropWhile_append_of_pos blank
    have back : (args ++ (");".toList ++ carriage)).dropWhile (· ≠ ')') = [')', ';'] ++ carriage := by
      refine List.dropWhile_append_of_pos fun c mem => ?_
      rw [decide_eq_true_eq]
      rintro rfl
      exact open_args mem
    exact ⟨_, _, front, carriage, back, if_pos ends⟩
  · rintro ⟨s, body, front, carriage, back, ends⟩
    rw [Option.ite_none_right_eq_some] at ends
    refine ⟨line.takeWhile isBlank, body.takeWhile (· ≠ ')'), carriage,
      fun c mem => List.mem_takeWhile_imp mem, ?_, ends.1, ?_⟩
    · intro mem
      exact absurd (List.mem_takeWhile_imp mem) (by decide)
    · calc line = line.takeWhile isBlank ++ (call ++ ['('] ++ body) := by
            rw [← front, List.takeWhile_append_dropWhile]
        _ = line.takeWhile isBlank ++ (call ++ ['('] ++
              (body.takeWhile (· ≠ ')') ++ ([')', ';'] ++ carriage))) := by
            rw [← back, List.takeWhile_append_dropWhile]
        _ = _ := rfl

instance : DecidablePred IsStatement := fun line =>
  decidable_of_iff ((statement? line).isSome = true) (by rw [isStatement_iff, Option.isSome_iff_exists])

/-! ## What the guards know -/

/-- What the guards know of a line is what it says about conditional compilation, less the conditions. -/
def Branching.directive : Branching → Directive
  | .opens d => .opens (d = debugDirective)
  | .elif _ => .switches
  | .otherwise => .switches
  | .closes => .closes

/-- What a directive does is known from how it steers compilation. -/
lemma directive?_eq (line : Text) : directive? line = (branching? line).map Branching.directive := by
  unfold directive? branching?
  dsimp only
  split
  · rfl
  · cases ("#else" : Text).isPrefixOf (trim line) with
    | true => rfl
    | false =>
      cases ("#elif" : Text).isPrefixOf (trim line) with
      | true => rfl
      | false =>
        cases ("#endif" : Text).isPrefixOf (trim line) with
        | true => rfl
        | false => rfl

/-- A statement does not steer compilation. -/
lemma branching?_statement {s : Statement} (st : statement? line = some s) : branching? line = none := by
  have none := directive?_statement st
  rw [directive?_eq, Option.map_eq_none_iff] at none
  exact none

/-- The open conditionals of a build and what the guards know of them: a conditional is in its debug branch
only if the build has selected that branch just when it is a debug build. -/
def Follows (build : Build) (known : Branches) (stack : List Conditional) : Prop :=
  List.Forall₂ (fun debug c => debug = true → c.selected = build debugDirective) known stack

variable {build : Build} {known : Branches} {stack : List Conditional}

/-- Another branch is no debug branch, on either side. -/
lemma Follows.nextBranch (follows : Follows build known stack) (holds : Bool) :
    Follows build (known.step .switches) (nextBranch holds stack) := by
  cases follows with
  | nil => exact .nil
  | cons _ outer => exact .cons nofun outer

/-- The guards keep up with every line that steers conditional compilation. -/
lemma Follows.step (follows : Follows build known stack) (b : Branching) :
    Follows build (known.step b.directive) (b.step build stack) := by
  cases b with
  | opens d =>
    refine .cons (fun debug => ?_) follows
    rw [of_decide_eq_true debug]
  | elif d => exact follows.nextBranch _
  | otherwise => exact follows.nextBranch _
  | closes =>
    cases follows with
    | nil => exact .nil
    | cons _ outer => exact outer

/-- A line does to the known branches what its way of steering compilation says. -/
lemma after_eq (known : Branches) (line : Text) : known.after line =
    match branching? line with
    | none => known
    | some b => known.step b.directive := by
  rw [Branches.after, directive?_eq]
  cases branching? line with
  | none => rfl
  | some b => rfl

/-- A build that is no debug build compiles nothing in a debug branch. -/
lemma Follows.not_selected (follows : Follows build known stack) (release : build debugDirective = false)
    (debug : known.anyDebug = true) : stack.all (·.selected) = false := by
  induction follows with
  | nil => cases debug
  | @cons b c known stack head _ ih =>
    rw [List.all_cons]
    cases b with
    | true => rw [head rfl, release, Bool.false_and]
    | false => rw [ih debug, Bool.and_false]

/-! ## Guarded lines -/

/-- A line that steers compilation is not compiled itself. -/
lemma activeFrom_branching {b : Branching} (br : branching? line = some b) (ls : List Text) :
    activeFrom build stack (line :: ls) = activeFrom build (b.step build stack) ls := by
  rw [activeFrom, br]

/-- Another line is compiled when all open conditionals have their branch selected. -/
lemma activeFrom_none (br : branching? line = none) (ls : List Text) :
    activeFrom build stack (line :: ls) =
      if stack.all (·.selected) then line :: activeFrom build stack ls else activeFrom build stack ls := by
  rw [activeFrom, br]

/-- The line above a guarded statement opens a conditional for debug builds. -/
lemma branching?_opening {s : Statement} (tidy : s.Tidy) :
    branching? s.opening = some (.opens debugDirective) := by
  have eq : trim s.opening = debugDirective := trim_directive tidy rfl rfl rfl rfl
  rw [branching?, eq]
  rfl

/-- The line below a guarded statement closes a conditional. -/
lemma branching?_closing {s : Statement} (tidy : s.Tidy) : branching? s.closing = some .closes := by
  have eq : trim s.closing = "#endif".toList := trim_directive tidy rfl rfl rfl rfl
  rw [branching?, eq]
  rfl

/-- A wrapped statement is compiled where it was before, but in debug builds only. -/
lemma activeFrom_wrapped {s : Statement} (st : statement? line = some s) (ls : List Text) :
    activeFrom build stack (s.opening :: line :: s.closing :: ls) =
      if build debugDirective && stack.all (·.selected) then line :: activeFrom build stack ls
      else activeFrom build stack ls := by
  have tidy := (statement?_eq_some st).1
  rw [activeFrom_branching (branching?_opening tidy), activeFrom_none (branching?_statement st),
    activeFrom_branching (branching?_closing tidy)]
  rfl

/-- The lines that are left of what a build compiles: all of them in debug builds, and all but the
statements in the others. -/
def remaining (build : Build) (ls : List Text) : List Text :=
  if build debugDirective then ls else ls.filter (¬ IsStatement ·)

/-- A line remains in debug builds, and in other builds if it is no statement. -/
lemma remaining_cons (ls : List Text) : remaining build (line :: ls) =
    if build debugDirective = true ∨ ¬ IsStatement line then line :: remaining build ls
    else remaining build ls := by
  unfold remaining
  split
  · next debug => rw [if_pos (.inl debug)]
  · next release =>
    rw [List.filter_cons]
    simp only [release, false_or, decide_eq_true_eq, Bool.false_eq_true]

/-- Guarding keeps the lines that a debug build compiles, and takes the statements out of what any other
build compiles. -/
lemma activeFrom_guardLines (follows : Follows build known stack) :
    activeFrom build stack (guardLines known ls).lines = remaining build (activeFrom build stack ls) := by
  induction ls generalizing known stack with
  | nil => exact (ite_self _).symm
  | cons line ls ih =>
    cases st : statement? line with
    | none =>
      have kept : ¬ IsStatement line := by
        rw [isStatement_iff, st]
        exact nofun
      rw [(guardLines_none st ls).1, after_eq]
      cases br : branching? line with
      | some b =>
        rw [activeFrom_branching br, activeFrom_branching br]
        exact ih (follows.step b)
      | none =>
        rw [activeFrom_none br, activeFrom_none br]
        dsimp only
        rw [ih follows]
        split
        · rw [remaining_cons, if_pos (.inr kept)]
        · rfl
    | some s =>
      have isStatement : IsStatement line := isStatement_iff.2 ⟨s, st⟩
      rw [activeFrom_none (branching?_statement st) ls]
      cases debug : known.anyDebug with
      | true =>
        rw [(guardLines_debug st debug ls).1, activeFrom_none (branching?_statement st), ih follows]
        split
        · next selected =>
          -- the line is compiled in a debug branch, so this is a debug build
          have holds : build debugDirective = true := by
            by_contra release
            have not := follows.not_selected (Bool.eq_false_iff.2 release) debug
            exact absurd (not.symm.trans selected) (by decide)
          rw [remaining_cons, if_pos (.inl holds)]
        · rfl
      | false =>
        rw [guardLines_wrap st debug ls, activeFrom_wrapped st, ih follows]
        cases holds : build debugDirective with
        | true =>
          rw [Bool.true_and]
          split
          · rw [remaining_cons, if_pos (.inl holds)]
          · rfl
        | false =>
          rw [Bool.false_and, if_neg nofun]
          split
          · rw [remaining_cons, if_neg]
            rintro (debug | other)
            · exact absurd (holds.symm.trans debug) (by decide)
            · exact other isStatement
          · rfl

/-- A debug build compiles the same lines of a guarded text as of the text itself, in order. A build that
is no debug build compiles the same lines without the statements. -/
theorem activeLines_guarded (build : Build) (t : Text) :
    activeLines build ((apply t).textAfter t) =
      if build "#if DEBUG" then activeLines build t
      else (activeLines build t).filter (¬ IsStatement ·) := by
  rw [textAfter_apply, activeLines, lines_unlines_guardLines (lines_ne_nil t) fun _ => newline_notMem_lines]
  exact activeFrom_guardLines .nil

end Mender.Rule.DebugGuard
