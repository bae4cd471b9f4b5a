import Mathlib

/-!
# Results

How results that may be errors or missing are passed on: what follows a result works on it, and nothing
follows an error. Two computations whose results correspond (`Option.Rel`) go on to results that
correspond.
-/

namespace Option.Rel

variable {α β γ δ : Type} {R : α → β → Prop} {S : γ → δ → Prop} {x : Option α} {y : Option β}

/-- Results that correspond are both there or both missing. -/
lemma isSome_eq (rel : Option.Rel R x y) : x.isSome = y.isSome := by
  cases rel with
  | some _ => rfl
  | none => rfl

/-- Computations that correspond at corresponding results go on to results that correspond. -/
lemma bind {f : α → Option γ} {g : β → Option δ} (rel : Option.Rel R x y)
    (next : ∀ a b, R a b → Option.Rel S (f a) (g b)) : Option.Rel S (x.bind f) (y.bind g) := by
  cases rel with
  | some r => exact next _ _ r
  | none => exact .none

/-- Functions that keep a correspondence map results that correspond to results that do. -/
lemma map {f : α → γ} {g : β → δ} (rel : Option.Rel R x y) (next : ∀ a b, R a b → S (f a) (g b)) :
    Option.Rel S (x.map f) (y.map g) := by
  cases rel with
  | some r => exact .some (next _ _ r)
  | none => exact .none

/-- What corresponds may be changed on one side, if it then corresponds in another way. -/
lemma map_right {T : α → δ → Prop} {g : β → δ} (rel : Option.Rel R x y)
    (next : ∀ a ∈ x, ∀ b, R a b → T a (g b)) : Option.Rel T x (y.map g) := by
  cases rel with
  | some r => exact .some (next _ rfl _ r)
  | none => exact .none

/-- Results that correspond still do so if both are dropped under the same condition. -/
lemma ite {p : Prop} [Decidable p] (rel : Option.Rel R x y) :
    Option.Rel R (if p then x else Option.none) (if p then y else Option.none) := by
  split
  · exact rel
  · exact .none

/-- The first results of two searches correspond if the results at every place do. -/
lemma findSome? {ι : Type} {f : ι → Option α} {g : ι → Option β} {l : List ι}
    (rel : ∀ i ∈ l, Option.Rel R (f i) (g i)) : Option.Rel R (l.findSome? f) (l.findSome? g) := by
  induction l with
  | nil => exact .none
  | cons i l ih =>
    rw [List.findSome?_cons, List.findSome?_cons]
    have front := rel i List.mem_cons_self
    generalize f i = a, g i = b at front
    cases front with
    | some r => exact .some r
    | none => exact ih fun j mem => rel j (List.mem_cons_of_mem _ mem)

end Option.Rel

namespace Mender

/-- What follows a result goes on with it. -/
@[simp] lemma ok_bind {ε α β : Type} (a : α) (f : α → Except ε β) : (Except.ok a >>= f) = f a := rfl

/-- Nothing follows an error. -/
@[simp] lemma error_bind {ε α β : Type} (e : ε) (f : α → Except ε β) :
    (Except.error e >>= f) = .error e := rfl

/-- To throw an error is to end with it. -/
@[simp] lemma throw_eq_error {ε α : Type} (e : ε) : (throw e : Except ε α) = .error e := rfl

/-- What is given back without more is the result. -/
@[simp] lemma pure_eq_ok {ε α : Type} (a : α) : (pure a : Except ε α) = .ok a := rfl

end Mender
