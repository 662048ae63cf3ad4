import Mathlib.Data.List.Basic

/-!
# Overload resolution

What is needed of it to see which function a call takes.  An argument has a conversion
to each parameter, or none; the viable function whose conversion is better than those of
all the others is called, and of two equal ones the one that is no template.

    resolve convert overloads arg = some p     the call takes the function with parameter `p`
    resolve convert overloads arg = none       no function is viable, or none is best

    p ∈ overloads → (∀ q ∈ overloads, q = p ∨ better convert arg p q) →
      resolve convert overloads arg = some p.param                       (resolve_eq_some)
-/

namespace Overloads

/-- The ranks that implicit conversions of a class argument have, the best first. -/
inductive Rank
  | exact | derivedToBase | userDefined
  deriving DecidableEq

def Rank.order : Rank → Nat
  | .exact => 0
  | .derivedToBase => 1
  | .userDefined => 2

variable {A P : Type}

/-- A parameter in a set of overloads. -/
structure Overload (P : Type) where
  param : P
  /-- an instance of a template -/
  isTemplate : Bool
  deriving DecidableEq

/-- Of two functions the call takes `p` rather than `q`. -/
def better (convert : A → P → Option Rank) (arg : A) (p q : Overload P) : Bool :=
  match convert arg p.param, convert arg q.param with
  | some r, some r' => r.order < r'.order || (r.order == r'.order && !p.isTemplate && q.isTemplate)
  | some _, none => true
  | none, _ => false

/-- The function that a call with one argument takes. -/
def resolve [DecidableEq P] (convert : A → P → Option Rank) (overloads : List (Overload P))
    (arg : A) : Option P :=
  (overloads.find? fun p =>
    (convert arg p.param).isSome && overloads.all fun q => q == p || better convert arg p q).map
      Overload.param

variable {convert : A → P → Option Rank} {arg : A} {p q : Overload P}

theorem better_asymm (h : better convert arg p q = true) : better convert arg q p = false := by
  unfold better at h ⊢
  cases hp : convert arg p.param with
  | none =>
    rw [hp] at h
    cases h
  | some r =>
    cases hq : convert arg q.param with
    | none => rfl
    | some r' =>
      rw [hp, hq] at h
      simp only [Bool.or_eq_true, Bool.and_eq_true, decide_eq_true_eq, beq_iff_eq] at h
      rcases h with hlt | ⟨⟨heq, hno⟩, -⟩
      · simp only [Bool.or_eq_false_iff, decide_eq_false_iff_not, Bool.and_eq_false_iff]
        refine ⟨by omega, .inl (.inl ?_)⟩
        rw [beq_eq_false_iff_ne]
        omega
      · have hp' : p.isTemplate = false := by simpa using hno
        simp [heq, hp']

/-- The call takes a function that is better than all the others. -/
theorem resolve_eq_some [DecidableEq P] {overloads : List (Overload P)} (hp : p ∈ overloads)
    (hviable : (convert arg p.param).isSome = true)
    (hbest : ∀ q ∈ overloads, q = p ∨ better convert arg p q = true) :
    resolve convert overloads arg = some p.param := by
  unfold resolve
  rw [Option.map_eq_some_iff]
  refine ⟨p, ?_, rfl⟩
  cases hfind : overloads.find? _ with
  | none =>
    rw [List.find?_eq_none] at hfind
    refine absurd ?_ (hfind p hp)
    rw [Bool.and_eq_true, List.all_eq_true]
    exact ⟨hviable, fun q hq => by simpa using hbest q hq⟩
  | some q =>
    have hq := List.mem_of_find?_eq_some hfind
    have hall := List.find?_some hfind
    rw [Bool.and_eq_true, List.all_eq_true] at hall
    rcases hbest q hq with rfl | hbetter
    · rfl
    · have hback := hall.2 p hp
      rw [better_asymm hbetter, Bool.or_false, beq_iff_eq] at hback
      rw [hback]

end Overloads
