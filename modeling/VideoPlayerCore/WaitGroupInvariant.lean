import VideoPlayerCore.WaitGroupSteps

/-!
# No wake-up is lost, and Wait waits for the tasks

`counter_` counts the explicit additions that have not been taken back and the tasks whose
`~Guard` has not yet called `Done`, so when a `Wait` reads 0 every task has ended.  The
`Add` that reaches 0 locks `mtx_` before it notifies: a waiter that saw another value is
asleep by then, and one that has not looked yet sees the 0.

    a waiter asleep or about to sleep, counter = 0 → a thread is about to notify  (Syncs)
    counter = explicit + the tasks that threads answer for                        (Counts)
-/

namespace VideoPlayerCore

open Machine

namespace WaitGroupPc

/-- `mtx_` is held. -/
def holds : WaitGroupPc → Bool
  | .notifying _ | .unlocking _ | .checking _ | .blocking _ | .waitUnlocking _ => true
  | _ => false

/-- Between the `fetch_add` that reached 0 and `notify_all`. -/
def notifies : WaitGroupPc → Bool
  | .locking _ | .notifying _ => true
  | _ => false

/-- Asleep, or sure to sleep. -/
def sleeps : WaitGroupPc → Bool
  | .asleep _ | .blocking _ => true
  | _ => false

/-- The tasks that had been added when the `Wait` began. -/
def waits : WaitGroupPc → Option Nat
  | .spinning _ n | .waitLocking n | .checking n | .blocking n | .asleep n | .waking n
  | .waitUnlocking n => some n
  | _ => none

end WaitGroupPc

namespace WaitGroup

variable {s s' : WaitGroup} {i : Nat} {th : WaitThread} {pc : WaitGroupPc}

/-- Every step leaves a table of threads behind that is one of these. -/
theorem get_move (hi : s.threads.get i = some th) (pc : WaitGroupPc) (j : Nat) :
    (s.threads.set i { th with pc := pc }).get j =
      if j = i then some { th with pc := pc } else s.threads.get j :=
  Slots.get_set hi _ j

theorem fetchAdd_cases {delta : Int} {k : AfterAdd} (h : s.fetchAdd i th delta k = some s') :
    s.counter + delta < 0 ∧ (s' = { s with counter := s.counter + delta, terminated := true } ∧
        k = .finishes ∨ s' = { s with counter := s.counter + delta }.move i th .running) ∨
      s.counter + delta = 0 ∧ s' = { s with counter := s.counter + delta }.move i th (.locking k) ∨
      0 < s.counter + delta ∧ s' = { s with counter := s.counter + delta }.move i th k.pc := by
  unfold fetchAdd at h
  dsimp only at h
  split at h
  · cases h
  · split at h
    · next hneg =>
      refine .inl ⟨hneg, ?_⟩
      cases k with
      | finishes => exact .inl ⟨(Option.some.inj h).symm, rfl⟩
      | _ => exact .inr (Option.some.inj h).symm
    · next hnonneg =>
      split at h
      · next hzero => exact .inr (.inl ⟨hzero, (Option.some.inj h).symm⟩)
      · next hne => exact .inr (.inr ⟨by omega, (Option.some.inj h).symm⟩)

theorem lock_cases (h : s.lock i th pc = some s') :
    s.mtx = none ∧ s' = { s.move i th pc with mtx := some i } := by
  unfold lock at h
  split at h
  · next hfree => exact ⟨hfree, (Option.some.inj h).symm⟩
  · cases h

/-! ## No wake-up is lost -/

structure Syncs (s : WaitGroup) : Prop where
  holder : ∀ i th, s.threads.get i = some th → th.pc.holds = true → s.mtx = some i
  wakes : ∀ i th, s.threads.get i = some th → th.pc.sleeps = true → s.counter = 0 →
    ∃ j th', s.threads.get j = some th' ∧ th'.pc.notifies = true

/-- One thread goes on at `pc`. -/
theorem Syncs.move (hs : Syncs s) (hi : s.threads.get i = some th)
    (hthreads : s'.threads = s.threads.set i { th with pc := pc })
    (hholds : pc.holds = true → s'.mtx = some i)
    (hmtx : ∀ j, j ≠ i → s.mtx = some j → s'.mtx = some j)
    (hzero : s'.counter = 0 → pc.notifies = true ∨ s.counter = 0 ∧
      (th.pc.notifies = true → pc.notifies = true) ∧ (pc.sleeps = true → th.pc.sleeps = true)) :
    Syncs s' := by
  have hget := fun j => get_move hi pc j
  rw [← hthreads] at hget
  refine ⟨fun j thj hj hh => ?_, fun j thj hj hsleeps hcounter => ?_⟩
  · rw [hget] at hj
    split at hj
    · next hji =>
      obtain rfl := Option.some.inj hj
      rw [hji]
      exact hholds hh
    · next hji => exact hmtx j hji (hs.holder j thj hj hh)
  · have hself : pc.notifies = true →
        ∃ j th', s'.threads.get j = some th' ∧ th'.pc.notifies = true := fun hn =>
      ⟨i, { th with pc := pc }, by rw [hget, if_pos rfl], hn⟩
    rcases hzero hcounter with hn | ⟨hcounter, hkeep, hback⟩
    · exact hself hn
    · obtain ⟨l, thl, hl, hn⟩ : ∃ l thl, s.threads.get l = some thl ∧ thl.pc.notifies = true := by
        rw [hget] at hj
        split at hj
        · obtain rfl := Option.some.inj hj
          exact hs.wakes i th hi (hback hsleeps) hcounter
        · exact hs.wakes j thj hj hsleeps hcounter
      by_cases hli : l = i
      · rw [hli, hi] at hl
        obtain rfl := Option.some.inj hl
        exact hself (hkeep hn)
      · exact ⟨l, thl, by rw [hget, if_neg hli, hl], hn⟩

/-- A thread in its own code comes. -/
theorem Syncs.alloc (hs : Syncs s) {task : Option Nat}
    (hthreads : s'.threads = s.threads.alloc { task := task }) (hmtx : s'.mtx = s.mtx)
    (hcounter : s'.counter = s.counter) : Syncs s' := by
  have hget := fun j => Slots.get_alloc s.threads { task := task } j
  rw [← hthreads] at hget
  refine ⟨fun j thj hj hh => ?_, fun j thj hj hsleeps hzero => ?_⟩
  · rw [hget] at hj
    split at hj
    · obtain rfl := Option.some.inj hj
      cases hh
    · rw [hmtx]
      exact hs.holder j thj hj hh
  · rw [hget] at hj
    split at hj
    · obtain rfl := Option.some.inj hj
      cases hsleeps
    · obtain ⟨l, thl, hl, hn⟩ := hs.wakes j thj hj hsleeps (hcounter ▸ hzero)
      refine ⟨l, thl, ?_, hn⟩
      rw [hget, if_neg (Nat.ne_of_lt (Slots.lt_fresh hl)), hl]

theorem notified_pc (th : WaitThread) : th.notified.pc.sleeps = true → th.pc = th.notified.pc ∧
    th.pc.holds = true := by
  unfold WaitThread.notified
  split
  · intro h
    cases h
  · next hne =>
    intro h
    refine ⟨rfl, ?_⟩
    cases hpc : th.pc with
    | asleep n => exact absurd hpc (hne n)
    | blocking n => rfl
    | _ =>
      rw [hpc] at h
      cases h

theorem notified_holds (th : WaitThread) : th.notified.pc.holds = th.pc.holds := by
  unfold WaitThread.notified
  split
  · next hpc => rw [hpc]; rfl
  · rfl

/-- After `notify_all` nobody sleeps: a thread that is about to would hold `mtx_`. -/
theorem Syncs.notify (hs : Syncs s) (hi : s.threads.get i = some th) {k : AfterAdd}
    (hpc : th.pc = .notifying k)
    (hthreads : s'.threads =
      (s.threads.map WaitThread.notified).set i { th with pc := .unlocking k })
    (hmtx' : s'.mtx = s.mtx) : Syncs s' := by
  have hmap : (s.threads.map WaitThread.notified).get i = some th := by
    rw [Slots.get_map, hi, Option.map_some, WaitThread.notified, hpc]
  have hmtx : s.mtx = some i := hs.holder i th hi (by rw [hpc]; rfl)
  have hget := fun j => Slots.get_set hmap { th with pc := .unlocking k } j
  rw [← hthreads] at hget
  have hothers : ∀ j thj, j ≠ i → (s.threads.map WaitThread.notified).get j = some thj →
      thj.pc.holds = false := by
    intro j thj hj hthj
    rw [Slots.get_map] at hthj
    obtain ⟨th₀, hth₀, rfl⟩ := Option.map_eq_some_iff.mp hthj
    rw [notified_holds, Bool.eq_false_iff]
    intro hh
    have hsame := hs.holder j th₀ hth₀ hh
    rw [hmtx] at hsame
    exact hj (Option.some.inj hsame).symm
  refine ⟨fun j thj hj hh => ?_, fun j thj hj hsleeps _ => ?_⟩
  · by_cases hji : j = i
    · rw [hji, hmtx', hmtx]
    · rw [hget, if_neg hji] at hj
      exact absurd ((hothers j thj hji hj).symm.trans hh) Bool.false_ne_true
  · exfalso
    rw [hget] at hj
    split at hj
    · obtain rfl := Option.some.inj hj
      cases hsleeps
    · next hji =>
      have hfree := hothers j thj hji hj
      rw [Slots.get_map] at hj
      obtain ⟨th₀, -, rfl⟩ := Option.map_eq_some_iff.mp hj
      obtain ⟨-, hh⟩ := notified_pc th₀ hsleeps
      rw [notified_holds, hh] at hfree
      cases hfree

theorem Syncs.fetchAdd (hs : Syncs s) (hi : s.threads.get i = some th) {delta : Int}
    {k : AfterAdd} (h : s.fetchAdd i th delta k = some s') :
    Syncs s' := by
  have hk : k.pc.holds = false := by cases k <;> rfl
  rcases fetchAdd_cases h with ⟨hneg, ⟨rfl, -⟩ | rfl⟩ | ⟨hzero, rfl⟩ | ⟨hpos, rfl⟩
  · refine ⟨hs.holder, fun j thj hj hsleeps hcounter => ?_⟩
    dsimp only at hcounter
    omega
  · refine hs.move hi rfl (fun h => by cases h) (fun j _ h => h) fun hcounter => ?_
    dsimp only [WaitGroup.move] at hcounter
    omega
  · exact hs.move hi rfl (fun h => by cases h) (fun j _ h => h) fun _ => .inl rfl
  · refine hs.move hi rfl (fun h => by rw [hk] at h; cases h) (fun j _ h => h) fun hcounter => ?_
    dsimp only [WaitGroup.move] at hcounter
    omega

/-- A call of a thread that holds nothing, to a place where it holds nothing. -/
theorem Syncs.quiet (hs : Syncs s) (hi : s.threads.get i = some th)
    (hthreads : s'.threads = s.threads.set i { th with pc := pc }) (hmtx : s'.mtx = s.mtx)
    (hcounter : s'.counter = s.counter) (hnot : th.pc.notifies = false)
    (hpc : pc.holds = false ∧ pc.sleeps = false) : Syncs s' := by
  refine hs.move hi hthreads (fun h => absurd (hpc.1.symm.trans h) Bool.false_ne_true)
    (fun j _ h => hmtx.trans h) fun h => .inr ⟨hcounter ▸ h, fun h => ?_, fun h => ?_⟩
  · exact absurd (hnot.symm.trans h) Bool.false_ne_true
  · exact absurd (hpc.2.symm.trans h) Bool.false_ne_true

/-- `mtx_` is released. -/
theorem Syncs.release (hs : Syncs s) (hi : s.threads.get i = some th)
    (hheld : th.pc.holds = true) (hthreads : s'.threads = s.threads.set i { th with pc := pc })
    (hcounter : s'.counter = s.counter) (hnot : th.pc.notifies = false)
    (hpc : pc.holds = false) (hsleeps : pc.sleeps = true → th.pc.sleeps = true) : Syncs s' := by
  refine hs.move hi hthreads (fun h => absurd (hpc.symm.trans h) Bool.false_ne_true)
    (fun j hj h => ?_) fun h => .inr ⟨hcounter ▸ h, fun h => ?_, hsleeps⟩
  · have hsame := hs.holder i th hi hheld
    rw [h] at hsame
    exact absurd (Option.some.inj hsame) hj
  · exact absurd (hnot.symm.trans h) Bool.false_ne_true

/-- `mtx_` is locked. -/
theorem Syncs.lock (hs : Syncs s) (hi : s.threads.get i = some th) (h : s.lock i th pc = some s')
    (hnot : th.pc.notifies = true → pc.notifies = true) (hsleeps : pc.sleeps = false) :
    Syncs s' := by
  obtain ⟨hfree, rfl⟩ := lock_cases h
  refine hs.move hi rfl (fun _ => rfl) (fun j _ hj => ?_) fun hc => .inr ⟨hc, hnot, fun h => ?_⟩
  · rw [hfree] at hj
    cases hj
  · exact absurd (hsleeps.symm.trans h) Bool.false_ne_true

theorem Syncs.next (hs : Syncs s) (hi : s.threads.get i = some th) (h : s.next i th = some s') :
    Syncs s' := by
  unfold WaitGroup.next at h
  split at h
  · cases h
  · cases h
  · cases h
  · exact hs.fetchAdd hi h
  · next k hpc => exact hs.lock hi h (fun _ => rfl) rfl
  · next k hpc =>
    obtain rfl := Option.some.inj h
    exact hs.notify hi hpc rfl rfl
  · next k hpc =>
    obtain rfl := Option.some.inj h
    refine hs.release hi (by rw [hpc]; rfl) rfl rfl (by rw [hpc]; rfl) ?_ ?_
    · cases k <;> rfl
    · cases k <;> exact fun h => by cases h
  · next task hpc =>
    obtain rfl := Option.some.inj h
    have hmove : Syncs (s.move i th .running) :=
      hs.quiet hi rfl rfl rfl (by rw [hpc]; rfl) ⟨rfl, rfl⟩
    exact hmove.alloc rfl rfl rfl
  · next j n hpc =>
    have hnot : th.pc.notifies = false := by rw [hpc]; rfl
    split at h
    · obtain rfl := Option.some.inj h
      exact hs.quiet hi rfl rfl rfl hnot ⟨rfl, rfl⟩
    · split at h
      · obtain rfl := Option.some.inj h
        exact hs.quiet hi rfl rfl rfl hnot ⟨rfl, rfl⟩
      · obtain rfl := Option.some.inj h
        exact hs.quiet hi rfl rfl rfl hnot ⟨rfl, rfl⟩
  · next n hpc => exact hs.lock hi h (by rw [hpc]; exact id) rfl
  · next n hpc =>
    obtain rfl := Option.some.inj h
    have hmtx := hs.holder i th hi (by rw [hpc]; rfl)
    refine hs.move hi rfl (fun _ => hmtx) (fun j _ h => h) fun hc =>
      .inr ⟨hc, fun h => ?_, fun h => ?_⟩
    · rw [hpc] at h
      cases h
    · -- it would not sleep: it saw the 0
      rw [if_pos (show s.counter = 0 from hc)] at h
      cases h
  · next n hpc =>
    obtain rfl := Option.some.inj h
    exact hs.release hi (by rw [hpc]; rfl) rfl rfl (by rw [hpc]; rfl) rfl
      fun _ => by rw [hpc]; rfl
  · next n hpc => exact hs.lock hi h (by rw [hpc]; exact id) rfl
  · next n hpc =>
    obtain rfl := Option.some.inj h
    exact hs.release hi (by rw [hpc]; rfl) rfl rfl (by rw [hpc]; rfl) rfl fun h => by cases h

theorem Syncs.call (hs : Syncs s) (hi : s.threads.get i = some th) {c : WaitCall}
    (h : s.call i th c = some s') : Syncs s' := by
  have hrunning : th.pc = .running → th.pc.notifies = false := fun hpc => by rw [hpc]; rfl
  cases c <;> rw [WaitGroup.call] at h
  case add =>
    split at h
    · exact Syncs.fetchAdd (s := { s with explicit := s.explicit + 1 }) ⟨hs.holder, hs.wakes⟩ hi h
    · cases h
  case done =>
    split at h
    · exact Syncs.fetchAdd (s := { s with explicit := s.explicit - 1 }) ⟨hs.holder, hs.wakes⟩ hi h
    · cases h
  case go =>
    split at h
    · exact Syncs.fetchAdd (s := { s with tasks := s.tasks + 1 }) ⟨hs.holder, hs.wakes⟩ hi h
    · cases h
  case wait =>
    split at h
    · next hpc =>
      obtain rfl := Option.some.inj h
      exact hs.quiet hi rfl rfl rfl (hrunning hpc) ⟨rfl, rfl⟩
    · cases h
  case ends =>
    split at h
    · split at h
      · next hpc =>
        obtain rfl := Option.some.inj h
        exact hs.quiet hi rfl rfl rfl (hrunning hpc) ⟨rfl, rfl⟩
      · cases h
    · cases h
  case next => exact hs.next hi h
  case wake =>
    split at h
    · next n hpc =>
      obtain rfl := Option.some.inj h
      exact hs.quiet hi rfl rfl rfl (by rw [hpc]; rfl) ⟨rfl, rfl⟩
    · cases h

theorem syncs_start : Syncs {} :=
  ⟨fun _ _ h => (by cases h), fun _ _ h => (by cases h)⟩

theorem step_act {a : WaitAct} (h : s.step a = some s') :
    (a = .newThread ∧ s' = { s with threads := s.threads.alloc {} }) ∨
      ∃ i c th, a = .act i c ∧ s.threads.get i = some th ∧ s.call i th c = some s' := by
  unfold WaitGroup.step at h
  split at h
  · cases h
  · cases a with
    | newThread => exact .inl ⟨rfl, (Option.some.inj h).symm⟩
    | act i c =>
      obtain ⟨th, hi, h⟩ := Option.bind_eq_some_iff.mp h
      exact .inr ⟨i, c, th, rfl, hi, h⟩

theorem Syncs.step (hs : Syncs s) {a : WaitAct} (h : s.step a = some s') : Syncs s' := by
  rcases step_act h with ⟨-, rfl⟩ | ⟨i, c, th, -, hi, h⟩
  · exact hs.alloc rfl rfl rfl
  · exact hs.call hi h

end WaitGroup

end VideoPlayerCore
