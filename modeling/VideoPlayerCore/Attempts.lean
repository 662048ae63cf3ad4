import Mathlib.Data.List.Basic

/-!
# Programs that an exception can end

A program over a state passes points at which something may be thrown.  `Attempt σ α` has
the states that it would leave behind at each of them, in order, and what the program ends
with if nothing is thrown; a program that goes on for ever has no end.

    p.Ensures s E Q → (∀ a t, Q a t → (f a).Ensures t E R) →
      (p >>= f).Ensures s E R                                             (Ensures.bind)
-/

universe u v

def Attempt (σ : Type u) (α : Type v) := σ → List σ × Option (α × σ)

namespace Attempt

variable {σ : Type u} {α β : Type v} {p : Attempt σ α} {f : α → Attempt σ β}
  {s t : σ} {a : α} {E E' : σ → Prop} {Q Q' : α → σ → Prop} {R : β → σ → Prop}

/-- The states that exceptions leave behind. -/
def thrown (p : Attempt σ α) (s : σ) : List σ := (p s).1

/-- The end without an exception. -/
def result (p : Attempt σ α) (s : σ) : Option (α × σ) := (p s).2

instance : Monad (Attempt σ) where
  pure a := fun s => ([], some (a, s))
  bind p f := fun s =>
    match p s with
    | (points, none) => (points, none)
    | (points, some (a, t)) => (points ++ (f a).thrown t, (f a).result t)

/-- `n` points at each of which the state is left as it is. -/
def points (n : Nat) : Attempt σ PUnit := fun s => (List.replicate n s, some (⟨⟩, s))

/-- A point at which more has happened than would have without the exception. -/
def leaving (g : σ → σ) : Attempt σ PUnit := fun s => ([g s], some (⟨⟩, s))

/-- A part in which nothing is thrown. -/
def always (g : σ → Option (α × σ)) : Attempt σ α := fun s => ([], g s)

/-- It reads the state. -/
def reads (g : σ → Option α) : Attempt σ α := always fun s => (g s).map fun a => (a, s)

/-- It goes on for ever, or does what has no result. -/
def never : Attempt σ α := fun _ => ([], none)

/-! ## The end -/

@[simp] theorem result_pure (a : α) (s : σ) : (pure a : Attempt σ α).result s = some (a, s) := rfl

@[simp] theorem result_bind (p : Attempt σ α) (f : α → Attempt σ β) (s : σ) :
    (p >>= f).result s = (p.result s).bind fun r => (f r.1).result r.2 := by
  simp only [result, bind]
  split
  · next points hp => rw [hp, Option.bind_none]
  · next points a t hp => rw [hp, Option.bind_some]

@[simp] theorem result_points (n : Nat) (s : σ) : (points n).result s = some (⟨⟩, s) := rfl

@[simp] theorem result_leaving (g : σ → σ) (s : σ) : (leaving g).result s = some (⟨⟩, s) := rfl

@[simp] theorem result_always (g : σ → Option (α × σ)) (s : σ) : (always g).result s = g s := rfl

@[simp] theorem result_reads (g : σ → Option α) (s : σ) :
    (reads g).result s = (g s).map fun a => (a, s) := rfl

theorem result_reads_bind {γ : Type v} {g : σ → Option α} {k : α → Option γ} {φ : γ → β × σ}
    (h : ∀ a, g s = some a → (f a).result s = (k a).map φ) :
    (reads g >>= f).result s = ((g s).bind k).map φ := by
  rw [result_bind, result_reads, Option.bind_map, Option.map_bind]
  exact Option.bind_congr h

@[simp] theorem result_never (s : σ) : (never : Attempt σ α).result s = none := rfl

/-! ## What is left behind -/

theorem thrown_bind (h : p.result s = some (a, t)) :
    (p >>= f).thrown s = p.thrown s ++ (f a).thrown t := by
  have hp : p s = (p.thrown s, some (a, t)) := Prod.ext rfl h
  simp only [thrown, bind]
  rw [hp]

theorem thrown_reads_bind {g : σ → Option α} (h : g s = some a) :
    (reads g >>= f).thrown s = (f a).thrown s :=
  thrown_bind (by rw [result_reads, h]; rfl)

theorem thrown_points_bind {f : PUnit → Attempt σ β} (n : Nat) (s : σ) :
    (points n >>= f).thrown s = List.replicate n s ++ (f ⟨⟩).thrown s :=
  thrown_bind (result_points n s)

theorem thrown_leaving_bind {f : PUnit → Attempt σ β} (g : σ → σ) (s : σ) :
    (leaving g >>= f).thrown s = g s :: (f ⟨⟩).thrown s :=
  thrown_bind (result_leaving g s)

/-- What goes on for ever throws what it throws. -/
theorem thrown_bind_of_none (h : p.result s = none) : (p >>= f).thrown s = p.thrown s := by
  have hp : p s = (p.thrown s, none) := Prod.ext rfl h
  simp only [thrown, bind]
  rw [hp]

/-- What an exception leaves behind meets `E`, what the program ends with meets `Q`. -/
structure Ensures (p : Attempt σ α) (s : σ) (E : σ → Prop) (Q : α → σ → Prop) : Prop where
  thrown : ∀ u ∈ p.thrown s, E u
  result : ∀ a t, p.result s = some (a, t) → Q a t

theorem Ensures.mono (h : p.Ensures s E Q) (hE : ∀ u, E u → E' u) (hQ : ∀ a t, Q a t → Q' a t) :
    p.Ensures s E' Q' :=
  ⟨fun u hu => hE u (h.thrown u hu), fun a t hr => hQ a t (h.result a t hr)⟩

theorem Ensures.bind (hp : p.Ensures s E Q) (hf : ∀ a t, Q a t → (f a).Ensures t E R) :
    (p >>= f).Ensures s E R := by
  cases hr : p.result s with
  | none =>
    refine ⟨fun u hu => hp.thrown u ?_, fun b u hu => ?_⟩
    · rwa [thrown_bind_of_none hr] at hu
    · rw [result_bind, hr] at hu
      cases hu
  | some r =>
    obtain ⟨a, t⟩ := r
    have hrest := hf a t (hp.result a t hr)
    refine ⟨fun u hu => ?_, fun b u hu => hrest.result b u ?_⟩
    · rw [thrown_bind hr, List.mem_append] at hu
      exact hu.elim (hp.thrown u) (hrest.thrown u)
    · rwa [result_bind, hr] at hu

theorem ensures_pure (hQ : Q a s) : (pure a : Attempt σ α).Ensures s E Q :=
  ⟨fun _ hu => absurd hu List.not_mem_nil, by rintro _ _ ⟨⟩; exact hQ⟩

theorem ensures_never : (never : Attempt σ α).Ensures s E Q :=
  ⟨fun _ hu => absurd hu List.not_mem_nil, fun _ _ h => nomatch h⟩

theorem ensures_always {g : σ → Option (α × σ)} (hQ : ∀ a t, g s = some (a, t) → Q a t) :
    (always g).Ensures s E Q :=
  ⟨fun _ hu => absurd hu List.not_mem_nil, hQ⟩

theorem Ensures.reads_bind {g : σ → Option α} (hf : ∀ a, g s = some a → (f a).Ensures s E R) :
    (reads g >>= f).Ensures s E R := by
  have hread : (reads g).Ensures s E fun a t => g s = some a ∧ t = s := by
    refine ensures_always fun a t h => ?_
    obtain ⟨b, hb, heq⟩ := Option.map_eq_some_iff.mp h
    cases heq
    exact ⟨hb, rfl⟩
  refine hread.bind fun a t ha => ?_
  rw [ha.2]
  exact hf a ha.1

theorem Ensures.points_bind {f : PUnit → Attempt σ β} (n : Nat) (hE : E s)
    (hf : (f ⟨⟩).Ensures s E R) : (points n >>= f).Ensures s E R := by
  have hpoints : (points n).Ensures s E fun _ t => t = s :=
    ⟨fun u hu => by rwa [List.eq_of_mem_replicate hu], by rintro _ _ ⟨⟩; rfl⟩
  refine hpoints.bind fun _ t ht => ?_
  rw [ht]
  exact hf

theorem Ensures.leaving_bind {f : PUnit → Attempt σ β} {g : σ → σ} (hE : E (g s))
    (hf : (f ⟨⟩).Ensures s E R) : (leaving g >>= f).Ensures s E R := by
  have hleaving : (leaving g).Ensures s E fun _ t => t = s :=
    ⟨fun u hu => by rwa [List.mem_singleton.mp hu], by rintro _ _ ⟨⟩; rfl⟩
  refine hleaving.bind fun _ t ht => ?_
  rw [ht]
  exact hf

end Attempt
