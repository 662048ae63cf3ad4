import VideoPlayerCore.WaitGroupInvariant

/-!
# What the counter counts

A task is added by its `Go`, then a thread answers for it until its `~Guard` calls `Done`;
before that its function has ended.  As long as the explicit `Done` calls do not outnumber
the explicit `Add(1)` calls, `counter_` is their difference and the tasks that threads
answer for, so it is 0 only when every task that was added has ended.
-/

namespace VideoPlayerCore

open Machine

/-- The task that a `Go` will start. -/
def AfterAdd.starts : AfterAdd → List Nat
  | .spawns task => [task]
  | _ => []

namespace WaitGroupPc

def starts : WaitGroupPc → List Nat
  | .locking k | .notifying k | .unlocking k => k.starts
  | .spawning task => [task]
  | _ => []

/-- `~Guard` has done its `fetch_add`. -/
def left : WaitGroupPc → Bool
  | .locking k | .notifying k | .unlocking k => k == .finishes
  | .finished => true
  | _ => false

end WaitGroupPc

/-- The tasks that a thread answers for. -/
def WaitThread.answers (th : WaitThread) : List Nat :=
  th.pc.starts ++ if th.pc.left then [] else th.task.toList

def WaitAct.isDone : WaitAct → Bool
  | .act _ .done => true
  | _ => false

/-- No explicit `Done` without an explicit `Add(1)` before it. -/
def DonesCovered (s : WaitGroup) (a : WaitAct) : Prop := a.isDone = true → 0 < s.explicit

instance (s : WaitGroup) (a : WaitAct) : Decidable (DonesCovered s a) :=
  inferInstanceAs (Decidable (a.isDone = true → 0 < s.explicit))

namespace WaitGroup

variable {s s' : WaitGroup} {i : Nat} {th : WaitThread} {pc : WaitGroupPc}

/-- The tasks that are not yet done. -/
def pending (s : WaitGroup) : Nat := s.threads.total fun th => th.answers.length

structure Counts (s : WaitGroup) : Prop where
  explicit : 0 ≤ s.explicit
  counter : s.counter = s.explicit + s.pending
  started : ∀ t < s.tasks, t ∈ s.ended ∨
    ∃ i th, s.threads.get i = some th ∧ t ∈ th.answers
  ending : ∀ i th, s.threads.get i = some th → th.pc = .ending →
    ∃ t, th.task = some t ∧ t ∈ s.ended
  begun : ∀ i th n, s.threads.get i = some th → th.pc.waits = some n → n ≤ s.tasks
  leaving : ∀ i th n, s.threads.get i = some th → th.pc = .waitUnlocking n →
    ∀ t < n, t ∈ s.ended
  returned : ∀ n ∈ s.returned, ∀ t < n, t ∈ s.ended
  alive : s.terminated = false

/-- When the counter is 0 every task has ended. -/
theorem Counts.ended_of_zero (hs : Counts s) (hzero : s.counter = 0) : ∀ t < s.tasks, t ∈ s.ended := by
  intro t ht
  have hexplicit := hs.explicit
  have hcounter := hs.counter
  have hpending : s.pending = 0 := by omega
  rcases hs.started t ht with hended | ⟨i, th, hi, hmem⟩
  · exact hended
  · have hle := Slots.le_total (f := fun th => th.answers.length) hi
    have hpos := List.length_pos_of_mem hmem
    unfold pending at hpending
    omega

/-- One thread goes on at `pc`. -/
theorem Counts.move (hs : Counts s) (hi : s.threads.get i = some th)
    (hthreads : s'.threads = s.threads.set i { th with pc := pc })
    (hexplicit : 0 ≤ s'.explicit)
    (hcounter : s'.counter + s.explicit + th.answers.length =
      s.counter + s'.explicit + ({ th with pc := pc } : WaitThread).answers.length)
    (htasks : s.tasks ≤ s'.tasks) (hended : ∀ t ∈ s.ended, t ∈ s'.ended)
    (hnew : ∀ t, s.tasks ≤ t → t < s'.tasks → t ∈ ({ th with pc := pc } : WaitThread).answers)
    (hkeep : ∀ t ∈ th.answers, t ∈ ({ th with pc := pc } : WaitThread).answers ∨
      t ∈ s'.ended ∨ ∃ j thj, j ≠ i ∧ s.threads.get j = some thj ∧ t ∈ thj.answers)
    (hending : pc = .ending → ∃ t, th.task = some t ∧ t ∈ s'.ended)
    (hbegun : ∀ n, pc.waits = some n → n ≤ s'.tasks)
    (hleaving : ∀ n, pc = .waitUnlocking n → ∀ t < n, t ∈ s'.ended)
    (hreturned : ∀ n ∈ s'.returned, n ∈ s.returned ∨ ∀ t < n, t ∈ s'.ended)
    (halive : s'.terminated = false) : Counts s' := by
  have hget := fun j => get_move hi pc j
  rw [← hthreads] at hget
  refine ⟨hexplicit, ?_, fun t ht => ?_, fun j thj hj hpc => ?_, fun j thj n hj hn => ?_,
    fun j thj n hj hpc => ?_, fun n hn t ht => ?_, halive⟩
  · have hsum : (s.threads.set i { th with pc := pc }).total (fun th => th.answers.length) +
        th.answers.length = s.threads.total (fun th => th.answers.length) +
          ({ th with pc := pc } : WaitThread).answers.length := Slots.total_set hi _
    rw [← hthreads] at hsum
    have hold := hs.counter
    unfold pending at hold ⊢
    omega
  · by_cases hold : t < s.tasks
    · rcases hs.started t hold with h | ⟨j, thj, hj, hmem⟩
      · exact .inl (hended t h)
      · by_cases hji : j = i
        · rw [hji, hi] at hj
          obtain rfl := Option.some.inj hj
          rcases hkeep t hmem with h | h | ⟨l, thl, hli, hl, h⟩
          · exact .inr ⟨i, _, by rw [hget, if_pos rfl], h⟩
          · exact .inl h
          · exact .inr ⟨l, thl, by rw [hget, if_neg hli, hl], h⟩
        · exact .inr ⟨j, thj, by rw [hget, if_neg hji, hj], hmem⟩
    · exact .inr ⟨i, _, by rw [hget, if_pos rfl], hnew t (by omega) ht⟩
  · rw [hget] at hj
    split at hj
    · obtain rfl := Option.some.inj hj
      exact hending hpc
    · obtain ⟨t, htask, ht⟩ := hs.ending j thj hj hpc
      exact ⟨t, htask, hended t ht⟩
  · rw [hget] at hj
    split at hj
    · obtain rfl := Option.some.inj hj
      exact hbegun n hn
    · exact Nat.le_trans (hs.begun j thj n hj hn) htasks
  · rw [hget] at hj
    split at hj
    · obtain rfl := Option.some.inj hj
      exact hleaving n hpc
    · exact fun t ht => hended t (hs.leaving j thj n hj hpc t ht)
  · rcases hreturned n hn with h | h
    · exact hended t (hs.returned n h t ht)
    · exact h t ht

/-- The thread goes on and answers for the same tasks. -/
theorem Counts.quiet (hs : Counts s) (hi : s.threads.get i = some th)
    (hthreads : s'.threads = s.threads.set i { th with pc := pc })
    (hsame : s'.counter = s.counter ∧ s'.explicit = s.explicit ∧ s'.tasks = s.tasks ∧
      s'.terminated = s.terminated)
    (hanswers : ({ th with pc := pc } : WaitThread).answers = th.answers)
    (hended : ∀ t ∈ s.ended, t ∈ s'.ended)
    (hending : pc = .ending → ∃ t, th.task = some t ∧ t ∈ s'.ended)
    (hbegun : ∀ n, pc.waits = some n → n ≤ s.tasks)
    (hleaving : ∀ n, pc = .waitUnlocking n → ∀ t < n, t ∈ s'.ended)
    (hreturned : ∀ n ∈ s'.returned, n ∈ s.returned ∨ ∀ t < n, t ∈ s'.ended) : Counts s' := by
  obtain ⟨hcounter, hexplicit, htasks, hterm⟩ := hsame
  refine hs.move hi hthreads (hexplicit ▸ hs.explicit) (by rw [hcounter, hexplicit, hanswers])
    (Nat.le_of_eq htasks.symm) hended (fun t hle hlt => ?_) (fun t ht => .inl (hanswers ▸ ht))
    hending (fun n hn => htasks ▸ hbegun n hn) hleaving hreturned (hterm.trans hs.alive)
  omega

/-- A thread comes that answers for a task or for none. -/
theorem Counts.alloc (hs : Counts s) (task : Option Nat) :
    Counts { s with
      threads := s.threads.alloc { task := task }, counter := s.counter + task.toList.length } := by
  have hget := fun j => Slots.get_alloc s.threads { task := task } j
  refine ⟨hs.explicit, ?_, fun t ht => ?_, fun j thj hj hpc => ?_, fun j thj n hj hn => ?_,
    fun j thj n hj hpc => ?_, hs.returned, hs.alive⟩
  · have hsum : (s.threads.alloc { task := task }).total (fun th => th.answers.length) =
        s.threads.total (fun th => th.answers.length) + task.toList.length := Slots.total_alloc
    have hold := hs.counter
    unfold pending at hold ⊢
    rw [hsum]
    dsimp only
    omega
  · rcases hs.started t ht with h | ⟨j, thj, hj, hmem⟩
    · exact .inl h
    · refine .inr ⟨j, thj, ?_, hmem⟩
      rw [hget, if_neg (Nat.ne_of_lt (Slots.lt_fresh hj)), hj]
  · rw [hget] at hj
    split at hj
    · obtain rfl := Option.some.inj hj
      cases hpc
    · exact hs.ending j thj hj hpc
  · rw [hget] at hj
    split at hj
    · obtain rfl := Option.some.inj hj
      cases hn
    · exact hs.begun j thj n hj hn
  · rw [hget] at hj
    split at hj
    · obtain rfl := Option.some.inj hj
      cases hpc
    · exact hs.leaving j thj n hj hpc

theorem notified_cases (th : WaitThread) :
    th.notified = th ∨ ∃ n, th.pc = .asleep n ∧ th.notified = { th with pc := .waking n } := by
  unfold WaitThread.notified
  split
  · next n hpc => exact .inr ⟨n, hpc, rfl⟩
  · exact .inl rfl

theorem notified_answers (th : WaitThread) : th.notified.answers = th.answers := by
  rcases notified_cases th with h | ⟨n, hpc, h⟩
  · rw [h]
  · rw [h]
    simp [WaitThread.answers, hpc, WaitGroupPc.starts, WaitGroupPc.left]

/-- `notify_all` -/
theorem Counts.notified (hs : Counts s) :
    Counts { s with threads := s.threads.map WaitThread.notified } := by
  have hback : ∀ {j thj}, (s.threads.map WaitThread.notified).get j = some thj →
      ∃ th₀, s.threads.get j = some th₀ ∧
        (thj = th₀ ∨ ∃ n, th₀.pc = .asleep n ∧ thj = { th₀ with pc := .waking n }) := by
    intro j thj hj
    rw [Slots.get_map] at hj
    obtain ⟨th₀, h₀, rfl⟩ := Option.map_eq_some_iff.mp hj
    exact ⟨th₀, h₀, notified_cases th₀⟩
  refine ⟨hs.explicit, ?_, fun t ht => ?_, fun j thj hj hpc => ?_, fun j thj n hj hn => ?_,
    fun j thj n hj hpc => ?_, hs.returned, hs.alive⟩
  · have hsum := Slots.total_map (s := s.threads) (f := fun th => th.answers.length)
      WaitThread.notified fun th => by rw [notified_answers]
    have hold := hs.counter
    unfold pending at hold ⊢
    rw [hsum]
    exact hold
  · rcases hs.started t ht with h | ⟨j, thj, hj, hmem⟩
    · exact .inl h
    · exact .inr ⟨j, thj.notified, by rw [Slots.get_map, hj]; rfl,
        by rw [notified_answers]; exact hmem⟩
  · obtain ⟨th₀, h₀, rfl | ⟨m, -, rfl⟩⟩ := hback hj
    · exact hs.ending j thj h₀ hpc
    · cases hpc
  · obtain ⟨th₀, h₀, rfl | ⟨m, hasleep, rfl⟩⟩ := hback hj
    · exact hs.begun j thj n h₀ hn
    · exact hs.begun j th₀ n h₀ (by rw [hasleep]; exact hn)
  · obtain ⟨th₀, h₀, rfl | ⟨m, -, rfl⟩⟩ := hback hj
    · exact hs.leaving j thj n h₀ hpc
    · cases hpc

/-- The tasks that a thread answers for behind an `Add`. -/
def after (th : WaitThread) (k : AfterAdd) : List Nat :=
  k.starts ++ if k = .finishes then [] else th.task.toList

theorem answers_locking (th : WaitThread) (k : AfterAdd) :
    ({ th with pc := .locking k } : WaitThread).answers = after th k := by
  cases k <;> rfl

theorem answers_after (th : WaitThread) (k : AfterAdd) :
    ({ th with pc := k.pc } : WaitThread).answers = after th k := by
  cases k <;> rfl

/-- Out of the lock a thread is in none of the places that a promise is about. -/
theorem afterAdd_pc (k : AfterAdd) :
    k.pc.starts = k.starts ∧ k.pc.left = (k == .finishes) ∧ k.pc ≠ .ending ∧
      k.pc.waits = none ∧ ∀ n, k.pc ≠ .waitUnlocking n := by
  cases k <;> exact ⟨rfl, rfl, by simp [AfterAdd.pc], rfl, by simp [AfterAdd.pc]⟩

/-- An `Add` that does not throw. -/
theorem Counts.fetchAdd (hs : Counts s) (hi : s.threads.get i = some th) {delta e : Int} {m : Nat}
    {k : AfterAdd}
    (h : { s with explicit := e, tasks := m }.fetchAdd i th delta k = some s')
    (hnonneg : 0 ≤ s.counter + delta) (he : 0 ≤ e)
    (hcount : delta + s.explicit + th.answers.length = e + (after th k).length)
    (hm : s.tasks ≤ m) (hnew : ∀ t, s.tasks ≤ t → t < m → t ∈ after th k)
    (hkeep : ∀ t ∈ th.answers, t ∈ after th k ∨ t ∈ s.ended) : Counts s' := by
  obtain ⟨-, -, hquiet⟩ := afterAdd_pc k
  rcases fetchAdd_cases h with ⟨hneg, -⟩ | ⟨hzero, rfl⟩ | ⟨hpos, rfl⟩
  · dsimp only at hneg
    omega
  · refine hs.move hi rfl he ?_ hm (fun t ht => ht) ?_ ?_ (fun h => by cases h)
      (fun n h => by cases h) (fun n h => by cases h) (fun n hn => .inl hn) hs.alive
    · rw [answers_locking]
      dsimp only [WaitGroup.move]
      omega
    · rw [answers_locking]
      exact hnew
    · rw [answers_locking]
      exact fun t ht => (hkeep t ht).imp_right .inl
  · refine hs.move hi rfl he ?_ hm (fun t ht => ht) ?_ ?_ (fun h => absurd h hquiet.1)
      (fun n h => by rw [hquiet.2.1] at h; cases h) (fun n h => absurd h (hquiet.2.2 n))
      (fun n hn => .inl hn) hs.alive
    · rw [answers_after]
      dsimp only [WaitGroup.move]
      omega
    · rw [answers_after]
      exact hnew
    · rw [answers_after]
      exact fun t ht => (hkeep t ht).imp_right .inl

/-- A step of a call that changes nothing but where the thread stands. -/
theorem Counts.goes (hs : Counts s) (hi : s.threads.get i = some th)
    (hthreads : s'.threads = s.threads.set i { th with pc := pc })
    (hsame : s'.counter = s.counter ∧ s'.explicit = s.explicit ∧ s'.tasks = s.tasks ∧
      s'.terminated = s.terminated ∧ s'.ended = s.ended ∧ s'.returned = s.returned)
    (hstarts : pc.starts = th.pc.starts) (hleft : pc.left = th.pc.left)
    (hending : pc ≠ .ending) (hwaits : pc.waits = none ∨ pc.waits = th.pc.waits)
    (hleaving : ∀ n, pc = .waitUnlocking n → s.counter = 0) : Counts s' := by
  obtain ⟨hcounter, hexplicit, htasks, hterm, hended, hreturned⟩ := hsame
  refine hs.quiet hi hthreads ⟨hcounter, hexplicit, htasks, hterm⟩
    (by rw [WaitThread.answers, WaitThread.answers, hstarts, hleft]) (fun t ht => hended ▸ ht)
    (fun h => absurd h hending) (fun n hn => ?_) (fun n hn t ht => ?_)
    fun n hn => .inl (hreturned ▸ hn)
  · rcases hwaits with hnone | hsame
    · rw [hnone] at hn
      cases hn
    · exact hs.begun i th n hi (hsame ▸ hn)
  · have hle : n ≤ s.tasks := by
      rcases hwaits with hnone | hsame
      · rw [hn] at hnone
        cases hnone
      · refine hs.begun i th n hi ?_
        rw [← hsame, hn]
        rfl
    rw [hended]
    exact hs.ended_of_zero (hleaving n hn) t (by omega)

/-- A `Wait` returns. -/
theorem Counts.leave (hs : Counts s) (hi : s.threads.get i = some th) {n : Nat}
    (hpc : th.pc.waits = some n) (hended : ∀ t < n, t ∈ s.ended)
    (hs' : s'.threads = s.threads.set i { th with pc := .running })
    (hsame : s'.counter = s.counter ∧ s'.explicit = s.explicit ∧ s'.tasks = s.tasks ∧
      s'.terminated = s.terminated ∧ s'.ended = s.ended ∧ s'.returned = s.returned ++ [n]) :
    Counts s' := by
  obtain ⟨hcounter, hexplicit, htasks, hterm, hends, hreturned⟩ := hsame
  have hanswers : ({ th with pc := .running } : WaitThread).answers = th.answers := by
    unfold WaitThread.answers
    cases h : th.pc <;> rw [h] at hpc <;> first | rfl | cases hpc
  refine hs.quiet hi hs' ⟨hcounter, hexplicit, htasks, hterm⟩ hanswers (fun t ht => hends ▸ ht)
    (fun h => by cases h) (fun n h => by cases h) (fun n h => by cases h) fun m hm => ?_
  rw [hreturned] at hm
  rcases List.mem_append.mp hm with hm | hm
  · exact .inl hm
  · rw [List.mem_singleton.mp hm, hends]
    exact .inr hended

/-- The thread of a task whose `f` has ended counts it down. -/
theorem Counts.countDown (hs : Counts s) (hi : s.threads.get i = some th) (hpc : th.pc = .ending)
    (h : s.fetchAdd i th (-1) .finishes = some s') : Counts s' := by
  obtain ⟨task, htask, hended⟩ := hs.ending i th hi hpc
  have hanswers : th.answers = [task] := by
    simp [WaitThread.answers, hpc, htask, WaitGroupPc.starts, WaitGroupPc.left]
  have hle := Slots.le_total (f := fun th => th.answers.length) hi
  have hexplicit := hs.explicit
  have hcounter := hs.counter
  unfold pending at hcounter
  rw [hanswers, List.length_singleton] at hle
  refine hs.fetchAdd hi h (by omega) hexplicit ?_ (Nat.le_refl _) (fun t hle hlt => by omega) ?_
  · rw [hanswers]
    simp [after, AfterAdd.starts]
  · rw [hanswers]
    intro t ht
    rw [List.mem_singleton.mp ht]
    exact .inr hended

/-- `Go` starts the thread of its task. -/
theorem Counts.spawn {task : Nat} (hs : Counts s) (hi : s.threads.get i = some th)
    (hpc : th.pc = .spawning task) :
    Counts { s.move i th .running with
      threads := (s.move i th .running).threads.alloc { task := some task } } := by
  -- the new thread comes first and answers for the task, too
  have hcome := hs.alloc (some task)
  have hi' : (s.threads.alloc { task := some task }).get i = some th := by
    rw [Slots.get_alloc, if_neg (Nat.ne_of_lt (Slots.lt_fresh hi)), hi]
  have hanswers : th.answers = task :: th.task.toList := by
    simp [WaitThread.answers, hpc, WaitGroupPc.starts, WaitGroupPc.left]
  have hrunning : ({ th with pc := .running } : WaitThread).answers = th.task.toList := rfl
  have hset := Slots.alloc_set hi { th with pc := .running } { task := some task }
  refine hcome.move hi' hset.symm hs.explicit ?_ (Nat.le_refl _) (fun t ht => ht)
    (fun t hle hlt => absurd hlt (Nat.not_lt.mpr hle)) (fun t ht => ?_) (fun h => by cases h)
    (fun n h => by cases h) (fun n h => by cases h) (fun n hn => .inl hn) hs.alive
  · rw [hanswers, hrunning]
    dsimp only [WaitGroup.move]
    simp only [List.length_cons, Option.toList_some, List.length_nil]
    omega
  · rw [hanswers] at ht
    rcases List.mem_cons.mp ht with rfl | ht
    · refine .inr (.inr ⟨s.threads.fresh, _, (Nat.ne_of_lt (Slots.lt_fresh hi)).symm,
        (Slots.get_alloc _ _ _).trans (if_pos rfl), List.mem_singleton.mpr rfl⟩)
    · exact .inl ht

theorem Counts.next (hs : Counts s) (hi : s.threads.get i = some th) (h : s.next i th = some s') :
    Counts s' := by
  have hlock : ∀ {pc}, s.lock i th pc = some s' → pc ≠ .ending → pc.starts = th.pc.starts →
      pc.left = th.pc.left → (pc.waits = none ∨ pc.waits = th.pc.waits) →
      (∀ n, pc ≠ .waitUnlocking n) → Counts s' := by
    intro pc h hending hstarts hleft hwaits hleaving
    obtain ⟨-, rfl⟩ := lock_cases h
    exact hs.goes hi rfl ⟨rfl, rfl, rfl, rfl, rfl, rfl⟩ hstarts hleft hending hwaits
      fun n hn => absurd hn (hleaving n)
  have hzero : s.counter = 0 → ∀ n, th.pc.waits = some n → ∀ t < n, t ∈ s.ended :=
    fun hzero n hn t ht => hs.ended_of_zero hzero t
      (Nat.lt_of_lt_of_le ht (hs.begun i th n hi hn))
  unfold WaitGroup.next at h
  split at h
  · cases h
  · cases h
  · cases h
  · next hpc =>
    exact hs.countDown hi hpc h
  · next k hpc =>
    exact hlock h (by simp) (by rw [hpc]; rfl) (by rw [hpc]; rfl) (.inl rfl) (by simp)
  · next k hpc =>
    obtain rfl := Option.some.inj h
    have hmap : (s.threads.map WaitThread.notified).get i = some th := by
      rw [Slots.get_map, hi, Option.map_some, WaitThread.notified, hpc]
    exact hs.notified.goes hmap rfl ⟨rfl, rfl, rfl, rfl, rfl, rfl⟩ (by rw [hpc]; rfl)
      (by rw [hpc]; rfl) (by simp) (.inl rfl) (by simp)
  · next k hpc =>
    obtain rfl := Option.some.inj h
    obtain ⟨hstarts, hleft, hending, hwaits, hleaving⟩ := afterAdd_pc k
    exact hs.goes hi rfl ⟨rfl, rfl, rfl, rfl, rfl, rfl⟩ (by rw [hpc]; exact hstarts)
      (by rw [hpc]; exact hleft) hending (.inl hwaits) fun n hn => absurd hn (hleaving n)
  · next task hpc =>
    obtain rfl := Option.some.inj h
    exact hs.spawn hi hpc
  · next j n hpc =>
    split at h
    · next hz =>
      obtain rfl := Option.some.inj h
      exact hs.leave hi (by rw [hpc]; rfl) (hzero hz n (by rw [hpc]; rfl)) rfl
        ⟨rfl, rfl, rfl, rfl, rfl, rfl⟩
    · have hgoes : ∀ {pc}, (pc = .spinning (j + 1) n ∨ pc = .waitLocking n) →
          Counts (s.move i th pc) := by
        rintro pc (rfl | rfl) <;>
          exact hs.goes hi rfl ⟨rfl, rfl, rfl, rfl, rfl, rfl⟩ (by rw [hpc]; rfl)
            (by rw [hpc]; rfl) (by simp) (.inr (by rw [hpc]; rfl)) (by simp)
      split at h
      · obtain rfl := Option.some.inj h
        exact hgoes (.inl rfl)
      · obtain rfl := Option.some.inj h
        exact hgoes (.inr rfl)
  · next n hpc =>
    exact hlock h (by simp) (by rw [hpc]; rfl) (by rw [hpc]; rfl) (.inr (by rw [hpc]; rfl))
      (by simp)
  · next n hpc =>
    obtain rfl := Option.some.inj h
    by_cases hz : s.counter = 0
    · rw [if_pos hz]
      exact hs.goes hi rfl ⟨rfl, rfl, rfl, rfl, rfl, rfl⟩ (by rw [hpc]; rfl) (by rw [hpc]; rfl)
        (by simp) (.inr (by rw [hpc]; rfl)) fun _ _ => hz
    · rw [if_neg hz]
      exact hs.goes hi rfl ⟨rfl, rfl, rfl, rfl, rfl, rfl⟩ (by rw [hpc]; rfl) (by rw [hpc]; rfl)
        (by simp) (.inr (by rw [hpc]; rfl)) (by simp)
  · next n hpc =>
    obtain rfl := Option.some.inj h
    exact hs.goes hi rfl ⟨rfl, rfl, rfl, rfl, rfl, rfl⟩ (by rw [hpc]; rfl) (by rw [hpc]; rfl)
      (by simp) (.inr (by rw [hpc]; rfl)) (by simp)
  · next n hpc =>
    exact hlock h (by simp) (by rw [hpc]; rfl) (by rw [hpc]; rfl) (.inr (by rw [hpc]; rfl))
      (by simp)
  · next n hpc =>
    obtain rfl := Option.some.inj h
    exact hs.leave hi (by rw [hpc]; rfl) (hs.leaving i th n hi hpc) rfl
      ⟨rfl, rfl, rfl, rfl, rfl, rfl⟩

/-- An explicit `Add(1)` or `Done`. -/
theorem Counts.explicitCall {delta : Int} (hs : Counts s) (hi : s.threads.get i = some th)
    (hpc : th.pc = .running) (hcovered : 0 ≤ s.explicit + delta)
    (h : { s with explicit := s.explicit + delta }.fetchAdd i th delta .returns = some s') :
    Counts s' := by
  have hexplicit := hs.explicit
  have hcounter := hs.counter
  have hanswers : th.answers = th.task.toList := by
    simp [WaitThread.answers, hpc, WaitGroupPc.starts, WaitGroupPc.left]
  refine hs.fetchAdd hi (m := s.tasks) h (by omega) hcovered ?_ (Nat.le_refl _)
    (fun t hle hlt => absurd hlt (Nat.not_lt.mpr hle)) fun t ht => .inl ?_
  · rw [hanswers]
    simp [after, AfterAdd.starts]
    omega
  · rw [hanswers] at ht
    exact ht

theorem Counts.call (hs : Counts s) (hi : s.threads.get i = some th) {c : WaitCall}
    (hok : DonesCovered s (.act i c)) (h : s.call i th c = some s') : Counts s' := by
  have hexplicit := hs.explicit
  have hcounter := hs.counter
  have hanswers : th.pc = .running → th.answers = th.task.toList := fun hpc => by
    simp [WaitThread.answers, hpc, WaitGroupPc.starts, WaitGroupPc.left]
  cases c <;> rw [WaitGroup.call] at h
  case add =>
    split at h
    · next hpc =>
      exact hs.explicitCall hi hpc (by omega) h
    · cases h
  case done =>
    split at h
    · next hpc =>
      have hcovered := hok rfl
      exact hs.explicitCall hi hpc (by omega) h
    · cases h
  case go =>
    split at h
    · next hpc =>
      refine hs.fetchAdd hi (e := s.explicit) h (by omega) hexplicit ?_ (Nat.le_succ _)
        (fun t hle hlt => ?_) fun t ht => .inl ?_
      · rw [hanswers hpc]
        simp [after, AfterAdd.starts]
        omega
      · rw [show t = s.tasks by omega]
        exact List.mem_cons_self
      · rw [hanswers hpc] at ht
        exact List.mem_cons_of_mem _ ht
    · cases h
  case wait =>
    split at h
    · next hpc =>
      obtain rfl := Option.some.inj h
      refine hs.quiet hi rfl ⟨rfl, rfl, rfl, rfl⟩ ?_ (fun t ht => ht) (fun h => by cases h)
        (fun n hn => ?_) (fun n h => by cases h) fun n hn => .inl hn
      · rw [hanswers hpc]
        rfl
      · obtain rfl := Option.some.inj hn
        exact Nat.le_refl _
    · cases h
  case ends =>
    split at h
    · next task htask =>
      split at h
      · next hpc =>
        obtain rfl := Option.some.inj h
        refine hs.quiet hi rfl ⟨rfl, rfl, rfl, rfl⟩ ?_ (fun t ht => List.mem_append_left _ ht)
          (fun _ => ⟨task, htask, List.mem_append_right _ (List.mem_singleton.mpr rfl)⟩)
          (fun n h => by cases h) (fun n h => by cases h) fun n hn => .inl hn
        rw [hanswers hpc]
        rfl
      · cases h
    · cases h
  case next => exact hs.next hi h
  case wake =>
    split at h
    · next n hpc =>
      obtain rfl := Option.some.inj h
      exact hs.goes hi rfl ⟨rfl, rfl, rfl, rfl, rfl, rfl⟩ (by rw [hpc]; rfl) (by rw [hpc]; rfl)
        (by simp) (.inr (by rw [hpc]; rfl)) (by simp)
    · cases h

theorem counts_start : Counts {} where
  explicit := Int.le_refl 0
  counter := rfl
  started t ht := absurd ht (Nat.not_lt_zero t)
  ending i th hi := by cases hi
  begun i th n hi := by cases hi
  leaving i th n hi := by cases hi
  returned n hn := by cases hn
  alive := rfl

theorem Counts.step (hs : Counts s) {a : WaitAct} (hok : DonesCovered s a)
    (h : s.step a = some s') : Counts s' := by
  rcases step_act h with ⟨-, rfl⟩ | ⟨i, c, th, rfl, hi, h⟩
  · have hcome := hs.alloc none
    simpa using hcome
  · exact hs.call hi hok h

end WaitGroup

/-- While the explicit `Done` calls do not outnumber the explicit `Add(1)` calls: a waiter
asleep at 0 is about to be notified, and a `Wait` that returned waited for the tasks that had
been added when it began. -/
theorem waitgroup_waits {s : WaitGroup} (h : ReachIf WaitGroup.step DonesCovered {} s) :
    (∀ i th n, s.threads.get i = some th → th.pc = .asleep n → s.counter = 0 →
      ∃ j th', s.threads.get j = some th' ∧ th'.pc.notifies = true) ∧
      ∀ n ∈ s.returned, ∀ t < n, t ∈ s.ended := by
  obtain ⟨hsync, hcount⟩ : s.Syncs ∧ s.Counts :=
    h.invariant (I := fun s => s.Syncs ∧ s.Counts) ⟨WaitGroup.syncs_start, WaitGroup.counts_start⟩
      fun t a u ⟨hsync, hcount⟩ hok hstep => ⟨hsync.step hstep, hcount.step hok hstep⟩
  refine ⟨fun i th n hi hpc hzero => ?_, hcount.returned⟩
  exact hsync.wakes i th hi (by rw [hpc]; rfl) hzero

/-- The waiter has spun 64 times and sleeps when the only task is done. -/
theorem waitgroup_waits_asleep :
    ∃ s : WaitGroup, (s.threads.get 0 = some ⟨none, .asleep 1⟩ ∧ s.counter = 0) ∧
      ∃ j th', s.threads.get j = some th' ∧ th'.pc.notifies = true := by
  obtain ⟨s, hs, hp⟩ := reach_of_any (guarded WaitGroup.step DonesCovered) {}
    ([.newThread, .act 0 .go, .act 0 .next, .act 0 .wait] ++ List.replicate 67 (.act 0 .next) ++
      [.act 1 .ends, .act 1 .next])
    (fun s => decide (s.threads.get 0 = some ⟨none, .asleep 1⟩ ∧ s.counter = 0))
    (by decide +kernel)
  obtain ⟨hpc, hzero⟩ := of_decide_eq_true hp
  exact ⟨s, ⟨hpc, hzero⟩, (waitgroup_waits (reachIf_of_guarded hs)).1 0 _ 1 hpc rfl hzero⟩

end VideoPlayerCore
