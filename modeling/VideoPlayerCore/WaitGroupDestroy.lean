import VideoPlayerCore.WaitGroupTasks

/-!
# When a WaitGroup may be destroyed

The `Done` that brings the counter to 0 still locks and unlocks `mtx_`, but a `Wait` may
read the 0 before that, in its spin loop or as the predicate of `cv_.wait`, and return.

    no load of 0 by the Wait while a Done is short of the release of mtx_ →
      nobody touches the group when the Wait has returned           (wait_returns_last)
-/

namespace VideoPlayerCore

open Machine

/-- Between the `fetch_add` that reached 0 and the release of `mtx_`. -/
def WaitGroupPc.inAdd : WaitGroupPc → Bool
  | .locking _ | .notifying _ | .unlocking _ => true
  | _ => false

/-- The next step of the call loads `counter_` for `Wait`. -/
def WaitGroupPc.loads : WaitGroupPc → Bool
  | .spinning _ _ | .checking _ => true
  | _ => false

namespace WaitGroup

/-- Some thread is at such a place. -/
def someone (s : WaitGroup) (p : WaitGroupPc → Bool) : Bool :=
  s.threads.slots.any fun o => o.any fun th => p th.pc

/-- The `Wait` of the owner has begun. -/
def waitBegun (s : WaitGroup) : Bool := !s.returned.isEmpty || s.someone fun pc => pc.waits.isSome

end WaitGroup

/-- Tasks are started by `Go`, then one owner calls `Wait`; there is no other use. -/
def OwnerWaits (s : WaitGroup) : WaitAct → Bool
  | .act _ .add | .act _ .done => false
  | .act _ .go | .act _ .wait => !s.waitBegun
  | _ => true

/-- The `Wait` does not load a 0 while a `Done` is short of the release of `mtx_`. -/
def LoadsApart (s : WaitGroup) : WaitAct → Bool
  | .act i .next =>
    !((s.threads.get i).any fun th => th.pc.loads && s.counter == 0) ||
      !s.someone WaitGroupPc.inAdd
  | _ => true

/-- The runs: such a use, and loads apart from the last `Done`. -/
def WaitsApart (s : WaitGroup) (a : WaitAct) : Prop := OwnerWaits s a = true ∧ LoadsApart s a = true

instance (s : WaitGroup) (a : WaitAct) : Decidable (WaitsApart s a) :=
  inferInstanceAs (Decidable (OwnerWaits s a = true ∧ LoadsApart s a = true))

theorem WaitsApart.covered {s : WaitGroup} {a : WaitAct} (h : WaitsApart s a) :
    DonesCovered s a := by
  obtain ⟨howner, -⟩ := h
  intro hdone
  cases a with
  | newThread => cases hdone
  | act i c =>
    cases c with
    | done => cases howner
    | _ => cases hdone

namespace WaitGroup

variable {s s' : WaitGroup} {i : Nat} {th : WaitThread} {pc : WaitGroupPc}

theorem not_someone {p : WaitGroupPc → Bool} (h : s.someone p = false)
    (hi : s.threads.get i = some th) : p th.pc = false := by
  unfold someone at h
  rw [List.any_eq_false] at h
  have hslot := List.mem_of_getElem? (Slots.slots_of_get hi)
  simpa using h _ hslot

/-- The `Wait` has read a 0 and is about to return, or has returned. -/
def Passed (s : WaitGroup) : Prop :=
  s.returned ≠ [] ∨ ∃ i th n, s.threads.get i = some th ∧ th.pc = .waitUnlocking n

/-- The counter is 0 and no `Done` is under way. -/
def Still (s : WaitGroup) : Prop :=
  s.counter = 0 ∧ ∀ j th, s.threads.get j = some th → th.pc.inAdd = false

theorem Passed.begun (h : Passed s) : s.waitBegun = true := by
  by_contra hnot
  rw [Bool.not_eq_true, waitBegun, Bool.or_eq_false_iff] at hnot
  obtain ⟨hreturned, hwaits⟩ := hnot
  rcases h with hne | ⟨i, th, n, hi, hpc⟩
  · exact hne (by simpa using hreturned)
  · have hnone := not_someone hwaits hi
    rw [hpc] at hnone
    cases hnone

/-! ## What brings a thread to the end of Wait -/

theorem Passed.of_set (h : Passed s') (hi : s.threads.get i = some th)
    (hthreads : s'.threads = s.threads.set i { th with pc := pc })
    (hreturned : s'.returned = s.returned) (hpc : ∀ n, pc ≠ .waitUnlocking n) : Passed s := by
  rcases h with hne | ⟨j, thj, n, hj, hn⟩
  · exact .inl (hreturned ▸ hne)
  · rw [hthreads, get_move hi _] at hj
    split at hj
    · obtain rfl := Option.some.inj hj
      exact absurd hn (hpc n)
    · exact .inr ⟨j, thj, n, hj, hn⟩

theorem Passed.of_alloc (task : Option Nat) (h : Passed s')
    (hthreads : s'.threads = s.threads.alloc { task := task })
    (hreturned : s'.returned = s.returned) : Passed s := by
  rcases h with hne | ⟨j, thj, n, hj, hn⟩
  · exact .inl (hreturned ▸ hne)
  · rw [hthreads, Slots.get_alloc] at hj
    split at hj
    · obtain rfl := Option.some.inj hj
      cases hn
    · exact .inr ⟨j, thj, n, hj, hn⟩

theorem Passed.of_fetchAdd (hp : Passed s') (hi : s.threads.get i = some th) {delta e : Int}
    {m : Nat} {k : AfterAdd}
    (h : { s with explicit := e, tasks := m }.fetchAdd i th delta k = some s') : Passed s := by
  rcases fetchAdd_cases h with ⟨-, ⟨rfl, -⟩ | rfl⟩ | ⟨-, rfl⟩ | ⟨-, rfl⟩
  · exact hp
  · exact hp.of_set hi rfl rfl (by simp)
  · exact hp.of_set hi rfl rfl (by simp)
  · exact hp.of_set hi rfl rfl (by cases k <;> simp [AfterAdd.pc])

/-- Only a load of a 0 brings a `Wait` to its end. -/
theorem Passed.back (hi : s.threads.get i = some th) (h : s.next i th = some s') (hp : Passed s') :
    Passed s ∨ th.pc.loads = true ∧ s.counter = 0 := by
  unfold WaitGroup.next at h
  split at h
  · cases h
  · cases h
  · cases h
  · exact .inl (hp.of_fetchAdd hi h)
  · obtain ⟨-, rfl⟩ := lock_cases h
    exact .inl (hp.of_set hi rfl rfl (by simp))
  · next k hpc =>
    obtain rfl := Option.some.inj h
    have hmap : (s.threads.map WaitThread.notified).get i = some th := by
      rw [Slots.get_map, hi, Option.map_some, WaitThread.notified, hpc]
    refine .inl ?_
    rcases hp.of_set (s := { s with threads := s.threads.map WaitThread.notified }) hmap rfl rfl
      (by simp) with hne | ⟨j, thj, n, hj, hn⟩
    · exact .inl hne
    · rw [Slots.get_map] at hj
      obtain ⟨th₀, h₀, rfl⟩ := Option.map_eq_some_iff.mp hj
      rcases notified_cases th₀ with heq | ⟨m, -, heq⟩
      · exact .inr ⟨j, th₀, n, h₀, heq ▸ hn⟩
      · rw [heq] at hn
        cases hn
  · next k hpc =>
    obtain rfl := Option.some.inj h
    exact .inl (hp.of_set hi rfl rfl (by cases k <;> simp [AfterAdd.pc]))
  · obtain rfl := Option.some.inj h
    have hback : Passed (s.move i th .running) := hp.of_alloc _ rfl rfl
    exact .inl (hback.of_set hi rfl rfl (by simp))
  · next j n hpc =>
    split at h
    · next hzero => exact .inr ⟨by rw [hpc]; rfl, hzero⟩
    · split at h
      · obtain rfl := Option.some.inj h
        exact .inl (hp.of_set hi rfl rfl (by simp))
      · obtain rfl := Option.some.inj h
        exact .inl (hp.of_set hi rfl rfl (by simp))
  · obtain ⟨-, rfl⟩ := lock_cases h
    exact .inl (hp.of_set hi rfl rfl (by simp))
  · next n hpc =>
    obtain rfl := Option.some.inj h
    by_cases hzero : s.counter = 0
    · exact .inr ⟨by rw [hpc]; rfl, hzero⟩
    · rw [if_neg hzero] at hp
      exact .inl (hp.of_set hi rfl rfl (by simp))
  · obtain rfl := Option.some.inj h
    exact .inl (hp.of_set hi rfl rfl (by simp))
  · obtain ⟨-, rfl⟩ := lock_cases h
    exact .inl (hp.of_set hi rfl rfl (by simp))
  · next n hpc => exact .inl (.inr ⟨i, th, n, hi, hpc⟩)

/-! ## Nothing moves the counter any more -/

theorem Still.of_set (hs : Still s) (hi : s.threads.get i = some th)
    (hthreads : s'.threads = s.threads.set i { th with pc := pc }) (hcounter : s'.counter = s.counter)
    (hpc : pc.inAdd = false) : Still s' := by
  refine ⟨hcounter.trans hs.1, fun j thj hj => ?_⟩
  rw [hthreads, get_move hi _] at hj
  split at hj
  · obtain rfl := Option.some.inj hj
    exact hpc
  · exact hs.2 j thj hj

/-- No thread answers for a task. -/
theorem Still.answers (hs : Still s) (hc : Counts s) (hi : s.threads.get i = some th) :
    th.answers = [] := by
  have hexplicit := hc.explicit
  have hcounter := hc.counter
  have hzero := hs.1
  have hle := Slots.le_total (f := fun th => th.answers.length) hi
  unfold pending at hcounter
  exact List.eq_nil_of_length_eq_zero (by omega)

theorem Still.next (hs : Still s) (hc : Counts s) (hi : s.threads.get i = some th)
    (h : s.next i th = some s') : Still s' := by
  have hanswers := hs.answers hc hi
  have hout := hs.2 i th hi
  unfold WaitGroup.next at h
  split at h
  · cases h
  · cases h
  · cases h
  · next hpc =>
    obtain ⟨task, htask, -⟩ := hc.ending i th hi hpc
    simp [WaitThread.answers, hpc, htask, WaitGroupPc.left] at hanswers
  · next k hpc =>
    rw [hpc] at hout
    cases hout
  · next k hpc =>
    rw [hpc] at hout
    cases hout
  · next k hpc =>
    rw [hpc] at hout
    cases hout
  · next task hpc => simp [WaitThread.answers, hpc, WaitGroupPc.starts] at hanswers
  · split at h
    · obtain rfl := Option.some.inj h
      exact hs.of_set hi rfl rfl rfl
    · split at h
      · obtain rfl := Option.some.inj h
        exact hs.of_set hi rfl rfl rfl
      · obtain rfl := Option.some.inj h
        exact hs.of_set hi rfl rfl rfl
  · obtain ⟨-, rfl⟩ := lock_cases h
    exact hs.of_set hi rfl rfl rfl
  · obtain rfl := Option.some.inj h
    exact hs.of_set hi rfl rfl (by split <;> rfl)
  · obtain rfl := Option.some.inj h
    exact hs.of_set hi rfl rfl rfl
  · obtain ⟨-, rfl⟩ := lock_cases h
    exact hs.of_set hi rfl rfl rfl
  · obtain rfl := Option.some.inj h
    exact hs.of_set hi rfl rfl rfl

/-- Once the `Wait` has read its 0, no `Done` is under way. -/
def Rests (s : WaitGroup) : Prop := Passed s → Still s

theorem Rests.step (hr : Rests s) (hc : Counts s) {a : WaitAct} (hok : WaitsApart s a)
    (h : s.step a = some s') : Rests s' := by
  obtain ⟨howner, hloads⟩ := hok
  intro hp
  rcases step_act h with ⟨rfl, rfl⟩ | ⟨i, c, th, rfl, hi, h⟩
  · obtain ⟨hzero, hout⟩ := hr (hp.of_alloc none rfl rfl)
    refine ⟨hzero, fun j thj hj => ?_⟩
    rw [Slots.get_alloc] at hj
    split at hj
    · obtain rfl := Option.some.inj hj
      rfl
    · exact hout j thj hj
  · cases c <;> rw [WaitGroup.call] at h
    case add => cases howner
    case done => cases howner
    case go =>
      split at h
      · have hbegun := (hp.of_fetchAdd (e := s.explicit) hi h).begun
        simp [OwnerWaits, hbegun] at howner
      · cases h
    case wait =>
      split at h
      · obtain rfl := Option.some.inj h
        have hbegun := (hp.of_set (s := s) hi rfl rfl (by simp)).begun
        simp [OwnerWaits, hbegun] at howner
      · cases h
    case ends =>
      split at h
      · next task htask =>
        split at h
        · next hpc =>
          obtain rfl := Option.some.inj h
          have hstill := hr (hp.of_set (s := s) hi rfl rfl (by simp))
          have hanswers := hstill.answers hc hi
          simp [WaitThread.answers, hpc, htask, WaitGroupPc.left] at hanswers
        · cases h
      · cases h
    case next =>
      rcases hp.back hi h with hpassed | ⟨hload, hzero⟩
      · exact (hr hpassed).next hc hi h
      · have hstill : Still s := by
          refine ⟨hzero, fun j thj hj => not_someone ?_ hj⟩
          simpa [LoadsApart, hi, hload, hzero] using hloads
        exact hstill.next hc hi h
    case wake =>
      split at h
      · obtain rfl := Option.some.inj h
        exact (hr (hp.of_set (s := s) hi rfl rfl (by simp))).of_set hi rfl rfl rfl
      · cases h

end WaitGroup

/-- In runs whose `Wait` loads no 0 while a `Done` is short of the release of `mtx_`, no
`Done` touches the group once the `Wait` has returned. -/
theorem wait_returns_last {s : WaitGroup} (h : ReachIf WaitGroup.step WaitsApart {} s)
    (hreturned : s.returned ≠ []) :
    ∀ i th, s.threads.get i = some th → th.pc.inAdd = false := by
  obtain ⟨-, hrests⟩ : s.Counts ∧ s.Rests :=
    h.invariant (I := fun s => s.Counts ∧ s.Rests)
      ⟨WaitGroup.counts_start, fun hp => ⟨rfl, fun j th hj => by cases hj⟩⟩
      fun t a u ⟨hc, hr⟩ hok hstep =>
        ⟨hc.step hok.covered hstep, hr.step hc hok hstep⟩
  exact (hrests (.inl hreturned)).2

/-- One task; `Done` has left `mtx_` when the first load of `Wait` finds the 0. -/
theorem wait_returns_last_quiet :
    ∃ s : WaitGroup, s.returned = [1] ∧
      ∀ i th, s.threads.get i = some th → th.pc.inAdd = false := by
  obtain ⟨s, hs, hp⟩ := reach_of_any (guarded WaitGroup.step WaitsApart) {}
    ([.newThread, .act 0 .go, .act 0 .next, .act 1 .ends] ++ List.replicate 4 (.act 1 .next) ++
      [.act 0 .wait, .act 0 .next])
    (fun s => decide (s.returned = [1])) (by decide)
  have hreturned := of_decide_eq_true hp
  exact ⟨s, hreturned, wait_returns_last (reachIf_of_guarded hs) (by rw [hreturned]; simp)⟩

/-- One task; the first load of `Wait` finds the 0 before the task's `Done` locks `mtx_`. -/
theorem wait_returns_before_done :
    ∃ s : WaitGroup, ReachIf WaitGroup.step (fun s a => OwnerWaits s a = true) {} s ∧
      s.returned = [1] ∧ s.threads.get 1 = some ⟨some 0, .locking .finishes⟩ := by
  obtain ⟨s, hs, hp⟩ := reach_of_any (guarded WaitGroup.step fun s a => OwnerWaits s a = true) {}
    [.newThread, .act 0 .go, .act 0 .next, .act 0 .wait, .act 1 .ends, .act 1 .next, .act 0 .next]
    (fun s => decide (s.returned = [1] ∧
      s.threads.get 1 = some ⟨some 0, .locking .finishes⟩)) (by decide)
  obtain ⟨hreturned, hpc⟩ := of_decide_eq_true hp
  exact ⟨s, reachIf_of_guarded hs, hreturned, hpc⟩

end VideoPlayerCore
