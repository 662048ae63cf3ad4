import Mathlib.Data.Option.Basic

/-!
# Machines: actions, runs and invariants

A machine is a step function `step : σ → α → Option σ`; `none` says that the
action is not enabled.  Everything that is open in a run (who moves next, what
the environment answers) is in the action, so a list of actions is a run and
`exec` replays it.

    I s → (∀ t a u, I t → ok t a → step t a = some u → I u) →
      ReachIf step ok s t → I t                                    (ReachIf.invariant)

`ReachIf step ok s` are the states of the runs from `s` whose every step meets
`ok`; `Reach step s` are those of all runs.
-/

namespace Machine

variable {σ α : Type*}

/-- The state after the actions in order, or `none` when one is not enabled. -/
def exec (step : σ → α → Option σ) : σ → List α → Option σ
  | s, [] => some s
  | s, a :: as => (step s a).bind fun t => exec step t as

/-- `t` is reached from `s` by steps that all meet `ok`. -/
inductive ReachIf (step : σ → α → Option σ) (ok : σ → α → Prop) (s : σ) : σ → Prop
  | refl : ReachIf step ok s s
  | tail {t u : σ} {a : α} :
      ReachIf step ok s t → ok t a → step t a = some u → ReachIf step ok s u

/-- The states of all runs from `s`. -/
abbrev Reach (step : σ → α → Option σ) (s : σ) : σ → Prop :=
  ReachIf step (fun _ _ => True) s

variable {step : σ → α → Option σ} {ok : σ → α → Prop} {s t u : σ}

theorem ReachIf.single {a : α} (hok : ok s a) (hs : step s a = some t) : ReachIf step ok s t :=
  .tail .refl hok hs

theorem ReachIf.invariant {I : σ → Prop} (h : ReachIf step ok s t) (h0 : I s)
    (hstep : ∀ t a u, I t → ok t a → step t a = some u → I u) : I t := by
  induction h with
  | refl => exact h0
  | tail _ hok hs ih => exact hstep _ _ _ ih hok hs

theorem Reach.invariant {I : σ → Prop} (h : Reach step s t) (h0 : I s)
    (hstep : ∀ t a u, I t → step t a = some u → I u) : I t :=
  ReachIf.invariant h h0 fun t a u hI _ hs => hstep t a u hI hs

/-- What holds of the last state and is carried backwards by every `ok` step. -/
theorem ReachIf.backward {I B : σ → Prop} (h : ReachIf step ok s t) (h0 : I s)
    (hI : ∀ t a u, I t → ok t a → step t a = some u → I u)
    (hB : ∀ t a u, I t → ok t a → step t a = some u → B u → B t) (ht : B t) : B s := by
  induction h with
  | refl => exact ht
  | tail h hok hs ih => exact ih (hB _ _ _ (h.invariant h0 hI) hok hs ht)

/-- Running `ok` steps after a run of `ok` steps. -/
theorem ReachIf.trans (h : ReachIf step ok s t) (h' : ReachIf step ok t u) :
    ReachIf step ok s u := by
  induction h' with
  | refl => exact h
  | tail _ hok hs ih => exact ih.tail hok hs

/-- A run of a part of the machine, each of whose steps the machine can take and stay in `I`. -/
theorem Reach.of_part {τ β : Type*} {step' : τ → β → Option τ} {f : σ → τ} {I : σ → Prop} {u : τ}
    (hstep : ∀ s b u, I s → step' (f s) b = some u →
      ∃ a t, step s a = some t ∧ f t = u ∧ I t)
    (h : Reach step' (f s) u) (h0 : I s) : ∃ t, Reach step s t ∧ f t = u ∧ I t := by
  induction h with
  | refl => exact ⟨s, .refl, rfl, h0⟩
  | tail _ _ hs ih =>
    obtain ⟨t, ht, rfl, hI⟩ := ih
    obtain ⟨a, t', ha, hf, hI'⟩ := hstep t _ _ hI hs
    exact ⟨t', ht.tail trivial ha, hf, hI'⟩

/-- If from every `I` state short of the goal some run of `ok` steps descends, the goal
is reached. -/
theorem ReachIf.leads_to {I G : σ → Prop} {r : σ → σ → Prop} (hr : WellFounded r)
    (hrun : ∀ s, I s → G s ∨ ∃ t, ReachIf step ok s t ∧ I t ∧ r t s) (h : I s) :
    ∃ t, ReachIf step ok s t ∧ G t := by
  induction s using hr.induction with
  | _ s ih =>
    rcases hrun s h with hgoal | ⟨t, ht, hI, hlt⟩
    · exact ⟨s, .refl, hgoal⟩
    · obtain ⟨u, hu, hgoal⟩ := ih t hlt hI
      exact ⟨u, ht.trans hu, hgoal⟩

/-- A run that `exec` replays reaches its last state. -/
theorem reachIf_of_exec {as : List α} (hok : ∀ a ∈ as, ∀ s, ok s a)
    (h : exec step s as = some t) : ReachIf step ok s t := by
  induction as generalizing s with
  | nil =>
    cases h
    exact .refl
  | cons a as ih =>
    obtain ⟨u, hs, hu⟩ := Option.bind_eq_some_iff.mp h
    have hrest := ih (fun b hb => hok b (List.mem_cons_of_mem a hb)) hu
    exact (ReachIf.single (hok a (List.mem_cons_self ..) s) hs).trans hrest

theorem reach_of_exec {as : List α} (h : exec step s as = some t) : Reach step s t :=
  reachIf_of_exec (fun _ _ _ => trivial) h

/-- One more action behind a run. -/
theorem exec_concat (as : List α) (a : α) :
    exec step s (as ++ [a]) = (exec step s as).bind fun t => step t a := by
  induction as generalizing s with
  | nil =>
    rw [List.nil_append, exec, exec, Option.bind_some]
    cases step s a with
    | none => rfl
    | some t => rfl
  | cons b as ih =>
    rw [List.cons_append, exec, exec]
    cases step s b with
    | none => rfl
    | some t => exact ih

/-- Two machines that do the same, step by step, do the same over whole runs. -/
theorem exec_map {τ : Type*} {step' : τ → α → Option τ} (f : σ → τ) {I : σ → Prop}
    (hstep : ∀ s a, I s → (step s a).map f = step' (f s) a)
    (hI : ∀ s a t, I s → step s a = some t → I t) (as : List α) (h : I s) :
    (exec step s as).map f = exec step' (f s) as := by
  induction as generalizing s with
  | nil => rfl
  | cons a as ih =>
    rw [exec, exec, ← hstep s a h]
    cases ht : step s a with
    | none => rfl
    | some t => exact ih (hI s a t h ht)

/-- A replayed run that ends in a state with `p`. -/
theorem reachIf_of_any (step : σ → α → Option σ) (ok : σ → α → Prop) (s : σ) (as : List α)
    (p : σ → Bool) (hok : ∀ a ∈ as, ∀ s, ok s a)
    (h : (exec step s as).any p = true) : ∃ t, ReachIf step ok s t ∧ p t = true := by
  cases ht : exec step s as with
  | none => simp [ht] at h
  | some t => exact ⟨t, reachIf_of_exec hok ht, by simpa [ht] using h⟩

theorem reach_of_any (step : σ → α → Option σ) (s : σ) (as : List α) (p : σ → Bool)
    (h : (exec step s as).any p = true) : ∃ t, Reach step s t ∧ p t = true :=
  reachIf_of_any step _ s as p (fun _ _ _ => trivial) h

/-- `step` with the steps that miss `ok` switched off. -/
def guarded (step : σ → α → Option σ) (ok : σ → α → Prop) [∀ s a, Decidable (ok s a)]
    (s : σ) (a : α) : Option σ :=
  if ok s a then step s a else none

/-- The steps that are left meet `ok` besides what else they meet. -/
theorem ReachIf.of_guarded {ok' : σ → α → Prop} [∀ s a, Decidable (ok s a)]
    (h : ReachIf (guarded step ok) ok' s t) : ReachIf step (fun s a => ok s a ∧ ok' s a) s t := by
  induction h with
  | refl => exact .refl
  | tail _ hok' hs ih =>
    unfold guarded at hs
    split at hs
    · next hok => exact ih.tail ⟨hok, hok'⟩ hs
    · cases hs

theorem ReachIf.mono {ok' : σ → α → Prop} (h : ReachIf step ok s t)
    (hok : ∀ s a, ok s a → ok' s a) : ReachIf step ok' s t := by
  induction h with
  | refl => exact .refl
  | tail _ hmeets hs ih => exact ih.tail (hok _ _ hmeets) hs

theorem reachIf_of_guarded [∀ s a, Decidable (ok s a)] (h : Reach (guarded step ok) s t) :
    ReachIf step ok s t :=
  h.of_guarded.mono fun _ _ hok => hok.1

end Machine
