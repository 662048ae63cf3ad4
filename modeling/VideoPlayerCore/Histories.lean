import Mathlib.Data.List.Basic

/-!
# Histories

A history is a list that grows at its end; what holds of an entry may depend on the entries
before it.

    AtEach Q (l ++ [y]) ↔ AtEach Q l ∧ Q l y                                 (atEach_concat)
    first p (l ++ [y]) = (first p l).or (if p l y then some y else none)     (first_concat)
-/

namespace Histories

variable {α : Type*} {Q : List α → α → Prop} {p : List α → α → Bool} {l : List α} {y : α}

/-- `Q` holds of every entry, with those before it. -/
def AtEach (Q : List α → α → Prop) (l : List α) : Prop :=
  ∀ before x after, l = before ++ x :: after → Q before x

theorem atEach_nil : AtEach Q [] := by
  intro before x after heq
  simp at heq

theorem atEach_concat : AtEach Q (l ++ [y]) ↔ AtEach Q l ∧ Q l y := by
  constructor
  · intro h
    refine ⟨fun before x after heq => ?_, h l y [] rfl⟩
    exact h before x (after ++ [y]) (by rw [heq, List.append_assoc, List.cons_append])
  · rintro ⟨hl, hy⟩ before x after heq
    rcases List.eq_nil_or_concat after with rfl | ⟨after', last, rfl⟩
    · obtain ⟨rfl, hx⟩ := List.append_inj' heq rfl
      rw [← List.singleton_inj.mp hx]
      exact hy
    · have hsplit : l ++ [y] = (before ++ x :: after') ++ [last] := by
        rw [heq, List.concat_eq_append, List.append_assoc, List.cons_append]
      exact hl before x after' (List.append_inj' hsplit rfl).1

/-- The first entry of `rest` for which `p` holds, behind `before`. -/
def firstFrom (p : List α → α → Bool) : List α → List α → Option α
  | _, [] => none
  | before, x :: rest => if p before x then some x else firstFrom p (before ++ [x]) rest

/-- The first entry for which `p` holds. -/
def first (p : List α → α → Bool) (l : List α) : Option α := firstFrom p [] l

theorem firstFrom_concat (before : List α) :
    firstFrom p before (l ++ [y]) =
      (firstFrom p before l).or (if p (before ++ l) y then some y else none) := by
  induction l generalizing before with
  | nil => simp [firstFrom]
  | cons x l ih =>
    rw [List.cons_append, firstFrom, firstFrom, ih, List.append_assoc, List.singleton_append]
    split
    · rfl
    · rfl

theorem first_concat :
    first p (l ++ [y]) = (first p l).or (if p l y then some y else none) :=
  firstFrom_concat []

end Histories
