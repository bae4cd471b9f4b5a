import Mender.Proofs.Rule.Attachment

/-!
# Nested blocks

The brace that closes a block is the first one that finds all inner blocks closed
(`blockBody?_eq_some_iff`), and a text that closes no more than it opens has none
(`blockBody?_eq_none_iff`). So the body of a controller is `Balanced`, and a place in it has as many braces
opened as closed before it if no inner block is around it, and only then (`level_iff`). The field and the
parameter of a logger go to places of the controller's body, so that holds there (`member_level_iff`). But
the last field between the braces can be one of another class (`field_in_nested_class`).
-/

namespace Mender.Rule.Logger

open Text

variable {t b p q x y : Text} {c : Char} {depth d i : Nat}

/-! ## Balanced texts -/

/-- How many braces of a text open a block. -/
def opens (x : Text) : Nat := List.count openBrace x

/-- How many braces of a text close a block. -/
def closes (x : Text) : Nat := List.count closeBrace x

/-- No brace of the empty text opens a block. -/
@[simp] lemma opens_nil : opens [] = 0 := rfl

/-- No brace of the empty text closes a block. -/
@[simp] lemma closes_nil : closes [] = 0 := rfl

/-- The braces that open blocks add up. -/
@[simp] lemma opens_append (x y : Text) : opens (x ++ y) = opens x + opens y := List.count_append

/-- The braces that close blocks add up. -/
@[simp] lemma closes_append (x y : Text) : closes (x ++ y) = closes x + closes y := List.count_append

/-- An opening brace opens one block more. -/
@[simp] lemma opens_openBrace (x : Text) : opens (openBrace :: x) = opens x + 1 := List.count_cons_self

/-- A closing brace closes one block more. -/
@[simp] lemma closes_closeBrace (x : Text) : closes (closeBrace :: x) = closes x + 1 := List.count_cons_self

/-- Another character opens no block. -/
lemma opens_cons_of_ne (ne : c ≠ openBrace) (x : Text) : opens (c :: x) = opens x := List.count_cons_of_ne ne

/-- Another character closes no block. -/
lemma closes_cons_of_ne (ne : c ≠ closeBrace) (x : Text) : closes (c :: x) = closes x :=
  List.count_cons_of_ne ne

/-- A closing brace opens no block. -/
@[simp] lemma opens_closeBrace (x : Text) : opens (closeBrace :: x) = opens x :=
  opens_cons_of_ne (by decide) x

/-- An opening brace closes no block. -/
@[simp] lemma closes_openBrace (x : Text) : closes (openBrace :: x) = closes x :=
  closes_cons_of_ne (by decide) x

/-- A text that closes no more than `depth` blocks that it did not open. -/
def Within (depth : Nat) (x : Text) : Prop := ∀ p, p <+: x → closes p ≤ opens p + depth

/-- A text that closes all blocks that it opens, and no others. -/
structure Balanced (x : Text) : Prop where
  level : opens x = closes x
  within : Within 0 x

/-- The empty text stays within any depth. -/
lemma within_nil (depth : Nat) : Within depth [] := by
  intro p pre
  rw [List.prefix_nil.1 pre]
  exact Nat.zero_le _

/-- A closing brace leaves depth zero. -/
lemma not_within_closeBrace (x : Text) : ¬ Within 0 (closeBrace :: x) := by
  intro within
  exact absurd (within [closeBrace] (List.prefix_append _ x)) (by decide)

/-! ## Closing braces -/

/-- A step that leaves a block open counts the brace that it reads. -/
lemma counts_of_nextDepth? (step : nextDepth? depth c = some d) (x : Text) :
    d + closes (c :: x) + opens x = depth + opens (c :: x) + closes x := by
  unfold nextDepth? at step
  split at step
  · next eq =>
    obtain rfl := Option.some.inj step
    subst eq
    rw [opens_openBrace, closes_openBrace]
    omega
  · next ne =>
    split at step
    · next eq =>
      subst eq
      split at step
      · cases step
      · obtain rfl := Option.some.inj step
        rw [opens_closeBrace, closes_closeBrace]
        omega
    · next ne' =>
      obtain rfl := Option.some.inj step
      rw [opens_cons_of_ne ne, closes_cons_of_ne ne']
      omega

/-- Only a closing brace at depth zero ends a block. -/
lemma nextDepth?_eq_none_iff : nextDepth? depth c = none ↔ c = closeBrace ∧ depth = 0 := by
  constructor
  · intro step
    unfold nextDepth? at step
    split at step
    · cases step
    · split at step
      · next eq =>
        split at step
        · exact ⟨eq, rfl⟩
        · cases step
      · cases step
  · rintro ⟨rfl, rfl⟩
    rfl

/-- A text stays within a depth when what is behind its first character stays within the next one. -/
lemma within_cons (step : nextDepth? depth c = some d) : Within depth (c :: x) ↔ Within d x := by
  constructor
  · intro within p pre
    have bound := within (c :: p) (List.cons_prefix_cons.2 ⟨rfl, pre⟩)
    have counts := counts_of_nextDepth? step p
    omega
  · intro within p pre
    rcases List.prefix_cons_iff.1 pre with rfl | ⟨p, rfl, inner⟩
    · exact Nat.zero_le _
    · have bound := within p inner
      have counts := counts_of_nextDepth? step p
      omega

/-- A block is closed by the first brace that finds all inner blocks closed. -/
lemma blockBody?_eq_some_iff : blockBody? depth t = some b ↔
    (∃ z, t = b ++ closeBrace :: z) ∧ closes b = opens b + depth ∧ Within depth b := by
  induction t generalizing depth b with
  | nil =>
    refine ⟨nofun, ?_⟩
    rintro ⟨⟨z, eq⟩, _⟩
    exact absurd eq.symm (by simp)
  | cons c t ih =>
    rw [blockBody?_cons]
    cases step : nextDepth? depth c with
    | none =>
      obtain ⟨rfl, rfl⟩ := nextDepth?_eq_none_iff.1 step
      constructor
      · intro eq
        obtain rfl := Option.some.inj eq
        exact ⟨⟨t, rfl⟩, rfl, within_nil 0⟩
      · rintro ⟨⟨z, eq⟩, _, within⟩
        cases b with
        | nil => rfl
        | cons c' b =>
          obtain ⟨rfl, _⟩ := List.cons.inj eq
          exact absurd within (not_within_closeBrace b)
    | some d =>
      dsimp only
      rw [Option.map_eq_some_iff]
      constructor
      · rintro ⟨b, eq, rfl⟩
        obtain ⟨⟨z, rfl⟩, level, within⟩ := ih.1 eq
        have counts := counts_of_nextDepth? step b
        exact ⟨⟨z, rfl⟩, by omega, (within_cons step).2 within⟩
      · rintro ⟨⟨z, eq⟩, level, within⟩
        cases b with
        | nil =>
          -- the brace that closes the block would stand here
          have last : depth = 0 := ((Nat.zero_add _).symm.trans level.symm)
          have none := nextDepth?_eq_none_iff.2 ⟨(List.cons.inj eq).1, last⟩
          exact absurd (step.symm.trans none) nofun
        | cons c' b =>
          obtain ⟨rfl, rest⟩ := List.cons.inj eq
          have counts := counts_of_nextDepth? step b
          exact ⟨b, ih.2 ⟨⟨z, rest⟩, by omega, (within_cons step).1 within⟩, rfl⟩

/-- A block stays open in just the texts that do not close it. -/
lemma blockBody?_eq_none_iff : blockBody? depth t = none ↔ Within depth t := by
  induction t generalizing depth with
  | nil => exact ⟨fun _ => within_nil depth, fun _ => rfl⟩
  | cons c t ih =>
    rw [blockBody?_cons]
    cases step : nextDepth? depth c with
    | none =>
      obtain ⟨rfl, rfl⟩ := nextDepth?_eq_none_iff.1 step
      exact ⟨nofun, fun within => absurd within (not_within_closeBrace t)⟩
    | some d =>
      dsimp only
      rw [Option.map_eq_none_iff, ih, within_cons step]

/-! ## Inner blocks -/

/-- A text closes all blocks that it opens, or what stands behind the last brace whose block stays open
closes no block but its own. -/
lemma unclosed_or (x : Text) : (∀ q, q <:+ x → opens q ≤ closes q) ∨
    ∃ y z, x = y ++ openBrace :: z ∧ Within 0 z := by
  induction x with
  | nil =>
    refine .inl fun q suffix => ?_
    rw [List.suffix_nil.1 suffix]
    exact Nat.le_refl _
  | cons c x ih =>
    rcases ih with closed | ⟨y, z, rfl, within⟩
    · by_cases found : c = openBrace ∧ opens x = closes x
      · obtain ⟨rfl, level⟩ := found
        refine .inr ⟨[], x, rfl, ?_⟩
        -- no end of the rest opens more than it closes, so no front of it closes more than it opens
        rintro p ⟨q, rfl⟩
        have rest := closed q (List.suffix_append _ _)
        rw [opens_append, closes_append] at level
        omega
      · refine .inl fun q suffix => ?_
        rcases List.suffix_cons_iff.1 suffix with rfl | inner
        · have rest := closed x (List.suffix_refl _)
          by_cases eq : c = openBrace
          · subst eq
            have ne : opens x ≠ closes x := fun level => found ⟨rfl, level⟩
            rw [opens_openBrace, closes_openBrace]
            omega
          · rw [opens_cons_of_ne eq]
            exact rest.trans (List.Sublist.count_le _ (List.sublist_cons_self _ _))
        · exact closed q inner
    · exact .inr ⟨c :: y, z, rfl, within⟩

/-- A block that opens behind one offset of a text and has another one in it. -/
def InnerBlock (t : Text) (i j : Nat) : Prop :=
  ∃ x y z, t = x ++ openBrace :: (y ++ closeBrace :: z) ∧ Balanced y ∧
    i ≤ x.length ∧ x.length < j ∧ j ≤ x.length + 1 + y.length

/-- The text between two offsets. -/
def between (t : Text) (i j : Nat) : Text := (t.take j).drop i

/-- What stands between the ends of a part is the part. -/
lemma between_append (front p rest : Text) :
    between (front ++ (p ++ rest)) front.length (front.length + p.length) = p := by
  rw [between, ← List.append_assoc, ← List.length_append, List.take_left, List.drop_left]

/-- A block around a place is open there. -/
lemma InnerBlock.closes_lt_opens {j : Nat} (inner : InnerBlock t i j) (within : Within 0 (between t i j)) :
    closes (between t i j) < opens (between t i j) := by
  obtain ⟨x, y, z, rfl, balanced, le, lt, inside⟩ := inner
  obtain ⟨k, rfl⟩ := Nat.exists_eq_add_of_le (Nat.succ_le_of_lt lt)
  have short : k ≤ y.length := by omega
  have split : between (x ++ openBrace :: (y ++ closeBrace :: z)) i (x.length + 1 + k) =
      x.drop i ++ openBrace :: y.take k := by
    rw [between, Nat.add_assoc, List.take_length_add_append, Nat.add_comm 1, List.take_succ_cons,
      List.take_append_of_le_length short, List.drop_append_of_le_length le]
  rw [Nat.succ_eq_add_one, split] at within ⊢
  have front := within (x.drop i) (List.prefix_append _ _)
  have block := balanced.within (y.take k) (List.take_prefix _ _)
  rw [opens_append, closes_append, opens_openBrace, closes_openBrace]
  omega

/-- A brace that closes a block does not stand in a text that closes no block. -/
lemma length_le_of_within {z : Text} (within : Within 0 y) (level : closes b = opens b)
    (cut : y ++ q = b ++ closeBrace :: z) : y.length ≤ b.length := by
  rcases List.append_eq_append_iff.1 cut with ⟨a, rfl, _⟩ | ⟨a, rfl, rest⟩
  · rw [List.length_append]
    exact Nat.le_add_right _ _
  · cases a with
    | nil => rw [List.append_nil]
    | cons c a =>
      obtain ⟨rfl, _⟩ := List.cons.inj rest
      have bound := within (b ++ [closeBrace]) ⟨a, by rw [List.append_assoc, List.singleton_append]⟩
      rw [opens_append, closes_append, opens_closeBrace, closes_closeBrace, opens_nil, closes_nil] at bound
      omega

/-- If more braces are opened than closed before a place of a balanced text, the last of those that are not
closed opens a block around it. -/
lemma innerBlock_of_closes_lt (front rest : Text) (balanced : Balanced (p ++ q)) (lt : closes p < opens p) :
    InnerBlock (front ++ (p ++ (q ++ rest))) front.length (front.length + p.length) := by
  rcases unclosed_or p with closed | ⟨x, y, rfl, within⟩
  · have all := closed p (List.suffix_refl _)
    omega
  have level := balanced.level
  have before := balanced.within x (by rw [List.append_assoc]; exact List.prefix_append _ _)
  simp only [opens_append, closes_append, opens_openBrace, closes_openBrace] at level
  cases eq : blockBody? 0 (y ++ q) with
  | none =>
    -- but the rest closes the block
    have open_end := blockBody?_eq_none_iff.1 eq _ (List.prefix_refl _)
    rw [opens_append, closes_append] at open_end
    omega
  | some body =>
    obtain ⟨⟨z, cut⟩, level', within'⟩ := blockBody?_eq_some_iff.1 eq
    refine ⟨front ++ x, body, z ++ rest, ?_, ⟨level'.symm, within'⟩, ?_, ?_, ?_⟩
    · have rest_eq : body ++ closeBrace :: (z ++ rest) = y ++ (q ++ rest) := by
        rw [← List.cons_append, ← List.append_assoc, ← cut, List.append_assoc]
      rw [rest_eq]
      simp only [List.append_assoc, List.cons_append]
    · rw [List.length_append]
      omega
    · simp only [List.length_append, List.length_cons]
      omega
    · have late := length_le_of_within within level' cut
      simp only [List.length_append, List.length_cons]
      omega

/-- A place of a balanced text has as many braces opened as closed before it, if no inner block is around
it, and only then. -/
lemma level_iff (front rest : Text) (balanced : Balanced (p ++ q)) : opens p = closes p ↔
    ¬ InnerBlock (front ++ (p ++ (q ++ rest))) front.length (front.length + p.length) := by
  have within : Within 0 p := fun r pre => balanced.within r (pre.trans (List.prefix_append _ _))
  constructor
  · intro level inner
    rw [← between_append front p (q ++ rest)] at within
    have lt := inner.closes_lt_opens within
    rw [between_append, level] at lt
    exact absurd lt (Nat.lt_irrefl _)
  · intro outer
    have le := within p (List.prefix_refl _)
    have ge := Nat.not_lt.1 fun lt => outer (innerBlock_of_closes_lt front rest balanced lt)
    omega

/-! ## Where the members of a logger go -/

namespace Attachment

variable (a : Attachment t)

/-- The body of a controller is balanced. -/
lemma balanced : Balanced a.body := by
  obtain ⟨_, level, within⟩ := blockBody?_eq_some_iff.1 a.closed
  exact ⟨level.symm, within⟩

/-- The field and the parameter go to places inside of the body. -/
lemma exists_offset : ∀ s ∈ [a.fieldSplice, a.parameterSplice],
    ∃ i, i ≤ a.body.length ∧ s.offset = a.controller.inside + i := by
  have field := (of_mem_scan (List.mem_of_getLast? a.last)).1
  have parameter : (Logger.parameterSplice a.controller.name a.ctor).offset ≤ a.body.length := by
    obtain ⟨d, _, x, y, body, offset⟩ := clear_parameterSplice (a.sole ▸ List.mem_singleton_self a.ctor)
    rw [offset, body, List.length_append, List.length_cons]
    omega
  intro s mem
  simp only [List.mem_cons, List.not_mem_nil, or_false] at mem
  rcases mem with rfl | rfl
  · exact ⟨_, field, rfl⟩
  · exact ⟨_, parameter, rfl⟩

/-- Up to a place in the body as many blocks are closed as opened, unless an inner block is open there. -/
lemma level_iff (inside : i ≤ a.body.length) :
    Within 0 (between t a.controller.inside (a.controller.inside + i)) ∧
      (opens (between t a.controller.inside (a.controller.inside + i)) =
          closes (between t a.controller.inside (a.controller.inside + i)) ↔
        ¬ InnerBlock t a.controller.inside (a.controller.inside + i)) := by
  obtain ⟨before, behind, whole, brace⟩ := a.braces
  have front : (before ++ [openBrace]).length = a.controller.inside := by
    rw [brace, List.length_append, List.length_singleton]
  have length : (a.body.take i).length = i := by rw [List.length_take, Nat.min_eq_left inside]
  have text : before ++ [openBrace] ++ (a.body.take i ++ (a.body.drop i ++ closeBrace :: behind)) = t := by
    rw [← List.append_assoc (a.body.take i), List.take_append_drop, List.append_assoc]
    exact whole.symm
  have balanced : Balanced (a.body.take i ++ a.body.drop i) := by
    rw [List.take_append_drop]
    exact a.balanced
  have part := between_append (before ++ [openBrace]) (a.body.take i) (a.body.drop i ++ closeBrace :: behind)
  have level := Logger.level_iff (before ++ [openBrace]) (closeBrace :: behind) balanced
  rw [text, front, length] at part level
  rw [part]
  exact ⟨fun p pre => a.balanced.within p (pre.trans (List.take_prefix _ _)), level⟩

end Attachment

/-- A logger's field and parameter go to places that the controller's brace has not been closed before. As
many braces are opened as closed between that brace and such a place, if no inner block is around the place,
and only then. -/
theorem member_level_iff (t : Text) (hit : (apply t).hits = 1) :
    ∃ a : Attachment t, Splice.applyAll a.segments t = (apply t).textAfter t ∧
      ∀ s ∈ [a.fieldSplice, a.parameterSplice],
        a.controller.inside ≤ s.offset ∧ Within 0 (between t a.controller.inside s.offset) ∧
        (opens (between t a.controller.inside s.offset) = closes (between t a.controller.inside s.offset) ↔
          ¬ InnerBlock t a.controller.inside s.offset) := by
  obtain ⟨_, a, attached⟩ := attachment_of_hit hit
  refine ⟨a, attached, fun s mem => ?_⟩
  obtain ⟨i, inside, offset⟩ := a.exists_offset s mem
  rw [offset]
  exact ⟨Nat.le_add_right _ _, a.level_iff inside⟩

/-- A controller with a field, and a class in it with another one. -/
def nestedController : Text :=
  "public class FooController\n\x7b\n  private readonly int x;\n  public FooController()\n  \x7b\n".toList ++
  "    Console.WriteLine(x);\n  \x7d\n".toList ++
  "  class Inner\n  \x7b\n    private readonly int y;\n  \x7d\n\x7d\n".toList

/-- The last field between the braces of the controller is the one of the class in it. -/
lemma nestedController_scan : (apply nestedController).hits = 1 ∧
    firstController? nestedController = some ⟨"FooController".toList, 28⟩ ∧
    blockBody? 0 (nestedController.drop 28) = some ((nestedController.drop 28).take 136) ∧
    (scan .lineStart fieldDeclaration ((nestedController.drop 28).take 136)).getLast?.map (·.stop) = some 131 ∧
    opens (between nestedController 28 159) = 2 ∧ closes (between nestedController 28 159) = 1 := by
  decide +kernel

/-- Two blocks open before the place of the field in the sample, and one of them closes. -/
lemma nestedController_counts (a : Attachment nestedController) :
    opens (between nestedController a.controller.inside a.fieldSplice.offset) = 2 ∧
      closes (between nestedController a.controller.inside a.fieldSplice.offset) = 1 := by
  obtain ⟨_, first, closed, last, counts⟩ := nestedController_scan
  have inside : a.controller.inside = 28 :=
    congrArg Controller.inside (Option.some.inj (a.first.symm.trans first))
  have body := a.closed
  rw [inside, closed] at body
  rw [Option.some.inj body, a.last] at last
  have offset : a.fieldSplice.offset = 28 + 131 := congrArg₂ (· + ·) inside (Option.some.inj last)
  rw [inside, offset]
  exact counts

/-- The field of the sample goes into a nested class. -/
theorem member_level_iff_nested :
    (apply nestedController).hits = 1 ∧ ∃ a : Attachment nestedController,
      InnerBlock nestedController a.controller.inside a.fieldSplice.offset := by
  have hit := nestedController_scan.1
  obtain ⟨a, _, places⟩ := member_level_iff nestedController hit
  obtain ⟨_, _, level⟩ := places a.fieldSplice List.mem_cons_self
  obtain ⟨opened, closed⟩ := nestedController_counts a
  refine ⟨hit, a, ?_⟩
  by_contra outer
  have even := level.2 outer
  rw [opened, closed] at even
  cases even

/-- The field of a logger can go into a class that is in the controller: two braces are opened between the
controller's brace and the field, and one is closed. -/
theorem field_in_nested_class :
    (apply nestedController).hits = 1 ∧ ∃ a : Attachment nestedController,
      Splice.applyAll a.segments nestedController = (apply nestedController).textAfter nestedController ∧
      opens (between nestedController a.controller.inside a.fieldSplice.offset) = 2 ∧
      closes (between nestedController a.controller.inside a.fieldSplice.offset) = 1 := by
  have hit := nestedController_scan.1
  obtain ⟨_, a, attached⟩ := attachment_of_hit hit
  exact ⟨hit, a, attached, nestedController_counts a⟩

end Mender.Rule.Logger
