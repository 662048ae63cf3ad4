import Mathlib.Logic.Function.Basic
import Mathlib.Logic.Nontrivial.Basic
import VideoPlayerCore.Machine

/-!
# The creation of the log's mutex

`_log` and `LOG_CONFIG` create `_mutex` if `_isInit` is 0, and set `_isInit` behind that, under
no lock.  A thread that has seen 0 creates the mutex again, even where another one is in its
section by then; `pthread_mutex_init` makes it free.

    from here on some run has two threads in the section
      ↔ the thread in the section does not own the mutex, or some thread has seen `_isInit`
        as 0 and not created the mutex, or some thread may still see it so
                                                                  (log_exclusion_breaks_iff)

So the section is safe behind one call of `LOG_CONFIG` that ends before any other call begins.
-/

namespace VideoPlayerCore

open Machine

inductive LogCaller
  /-- `_log` -/
  | log
  /-- `LOG_CONFIG` -/
  | config
  deriving DecidableEq

inductive LogPc
  | idle
  /-- before `if (!_isInit)` -/
  | testing (c : LogCaller)
  /-- before `mutex_create(&_mutex)` -/
  | creating (c : LogCaller)
  /-- before `_isInit = 1` -/
  | setting (c : LogCaller)
  /-- before `mutex_lock(&_mutex)` -/
  | locking
  /-- before `mutex_unlock(&_mutex)` -/
  | inside
  deriving DecidableEq

def LogCaller.next : LogCaller → LogPc
  | .log => .locking
  | .config => .idle

/-- The threads `T`, `_isInit`, and who has locked the recursive mutex how often. -/
structure LogInit (T : Type) where
  pc : T → LogPc := fun _ => .idle
  isInit : Bool := false
  mutex : Option (T × Nat) := none

inductive LogInitAct (T : Type)
  | call (i : T) (c : LogCaller)
  | go (i : T)

namespace LogInit

variable {T : Type} [DecidableEq T]

def move (s : LogInit T) (i : T) (pc : LogPc) : LogInit T :=
  { s with pc := Function.update s.pc i pc }

/-- `mutex_unlock`, which fails for a thread that does not own the mutex. -/
def unlock (s : LogInit T) (i : T) : Option (T × Nat) :=
  match s.mutex with
  | some (k, n) => if k = i then (if n = 1 then none else some (k, n - 1)) else some (k, n)
  | none => none

def go (s : LogInit T) (i : T) : Option (LogInit T) :=
  match s.pc i with
  | .idle => none
  | .testing c => some (s.move i (if s.isInit then c.next else .creating c))
  | .creating c => some { s.move i (.setting c) with mutex := none }
  | .setting c => some { s.move i c.next with isInit := true }
  | .locking =>
    match s.mutex with
    | none => some { s.move i .inside with mutex := some (i, 1) }
    | some (k, n) => if k = i then some { s.move i .inside with mutex := some (i, n + 1) } else none
  | .inside => some { s.move i .idle with mutex := s.unlock i }

def step (s : LogInit T) : LogInitAct T → Option (LogInit T)
  | .call i c =>
    match s.pc i with
    | .idle => some (s.move i (.testing c))
    | _ => none
  | .go i => s.go i

/-! ## What may go wrong -/

def Exclusive (s : LogInit T) : Prop := ∀ i j, s.pc i = .inside → s.pc j = .inside → i = j

/-- A thread in its section has lost the mutex. -/
def Lost (s : LogInit T) : Prop := ∃ i, s.pc i = .inside ∧ ∀ n, s.mutex ≠ some (i, n)

/-- Some thread creates the mutex yet, or may see that it has to. -/
def Unsettled (s : LogInit T) : Prop :=
  (∃ i c, s.pc i = .creating c) ∨
    s.isInit = false ∧ ∃ i, s.pc i = .idle ∨ ∃ c, s.pc i = .testing c

/-- The owner of the mutex is in its section, and nobody gets there before `_isInit` is set. -/
structure Sane (s : LogInit T) : Prop where
  owner : ∀ k n, s.mutex = some (k, n) → s.pc k = .inside ∧ n = 1
  early : s.isInit = false → ∀ i, s.pc i ≠ .locking ∧ s.pc i ≠ .inside

variable {s t : LogInit T} {i j : T}

@[simp] theorem move_pc_self (s : LogInit T) (i : T) (pc : LogPc) : (s.move i pc).pc i = pc :=
  Function.update_self ..

theorem move_pc_ne (s : LogInit T) (pc : LogPc) (h : j ≠ i) : (s.move i pc).pc j = s.pc j :=
  Function.update_of_ne h ..

/-- What a thread does that is not in its section. -/
inductive Goes (s : LogInit T) (i : T) : LogInit T → Prop
  | call (c : LogCaller) : s.pc i = .idle → Goes s i (s.move i (.testing c))
  | skip (c : LogCaller) : s.pc i = .testing c → s.isInit = true → Goes s i (s.move i c.next)
  | missing (c : LogCaller) : s.pc i = .testing c → s.isInit = false →
      Goes s i (s.move i (.creating c))
  | create (c : LogCaller) : s.pc i = .creating c →
      Goes s i { s.move i (.setting c) with mutex := none }
  | set (c : LogCaller) : s.pc i = .setting c →
      Goes s i { s.move i c.next with isInit := true }
  | lock : s.pc i = .locking → s.mutex = none →
      Goes s i { s.move i .inside with mutex := some (i, 1) }
  | unlock : s.pc i = .inside →
      Goes s i { s.move i .idle with mutex := s.unlock i }

theorem goes_of_call {c : LogCaller} (hs : s.step (.call i c) = some t) : Goes s i t := by
  simp only [step] at hs
  split at hs
  · next hpc =>
    obtain rfl := Option.some.inj hs
    exact .call c hpc
  · cases hs

theorem goes_of_go (h : Sane s) (hs : s.step (.go i) = some t) : Goes s i t := by
  simp only [step, go] at hs
  split at hs
  · cases hs
  · next c hpc =>
    obtain rfl := Option.some.inj hs
    cases hinit : s.isInit with
    | true => exact .skip c hpc hinit
    | false => exact .missing c hpc hinit
  · next c hpc =>
    obtain rfl := Option.some.inj hs
    exact .create c hpc
  · next c hpc =>
    obtain rfl := Option.some.inj hs
    exact .set c hpc
  · next hpc =>
    split at hs
    · next hfree =>
      obtain rfl := Option.some.inj hs
      exact .lock hpc hfree
    · next k n howner =>
      obtain ⟨rfl, -⟩ := Option.ite_none_right_eq_some.mp hs
      rw [(h.owner k n howner).1] at hpc
      cases hpc
  · next hpc =>
    obtain rfl := Option.some.inj hs
    exact .unlock hpc

/-- Who is still owner behind an unlock was it before, and is another one. -/
theorem owner_of_unlock (h : Sane s) {k : T} {n : Nat} (hk : s.unlock i = some (k, n)) :
    s.mutex = some (k, n) ∧ k ≠ i := by
  unfold unlock at hk
  split at hk
  · next l m howner =>
    obtain ⟨-, rfl⟩ := h.owner l m howner
    split at hk
    · rw [if_pos rfl] at hk
      cases hk
    · next hne =>
      obtain ⟨rfl, rfl⟩ := Prod.mk.inj (Option.some.inj hk)
      exact ⟨howner, hne⟩
  · cases hk

theorem Goes.sane (h : Sane s) (hs : Goes s i t) : Sane t := by
  have howner {pc : LogPc} (hout : s.pc i ≠ .inside) {k : T} {n : Nat}
      (hk : s.mutex = some (k, n)) : (s.move i pc).pc k = .inside ∧ n = 1 := by
    obtain ⟨hinside, hone⟩ := h.owner k n hk
    have hne : k ≠ i := by
      rintro rfl
      exact hout hinside
    exact ⟨(move_pc_ne s pc hne).trans hinside, hone⟩
  have hearly {pc : LogPc} (hpc : s.isInit = false → pc ≠ .locking ∧ pc ≠ .inside)
      (hinit : s.isInit = false) (j : T) :
      (s.move i pc).pc j ≠ .locking ∧ (s.move i pc).pc j ≠ .inside := by
    by_cases hj : j = i
    · rw [hj, move_pc_self]
      exact hpc hinit
    · rw [move_pc_ne s pc hj]
      exact h.early hinit j
  cases hs with
  | call c hpc =>
    exact ⟨fun k n => howner (by simp [hpc]), hearly fun _ => by simp⟩
  | skip c hpc hinit =>
    exact ⟨fun k n => howner (by simp [hpc]), hearly fun h => (by rw [hinit] at h; cases h)⟩
  | missing c hpc => exact ⟨fun k n => howner (by simp [hpc]), hearly fun _ => by simp⟩
  | create c hpc => exact ⟨fun _ _ hk => (by cases hk), hearly fun _ => by simp⟩
  | set c hpc => exact ⟨fun k n => howner (by simp [hpc]), fun hinit => by cases hinit⟩
  | lock hpc hfree =>
    refine ⟨fun k n hk => ?_, hearly fun hinit => absurd hpc (h.early hinit i).1⟩
    obtain ⟨rfl, rfl⟩ := Prod.mk.inj (Option.some.inj hk)
    exact ⟨move_pc_self s _ _, rfl⟩
  | unlock hpc =>
    refine ⟨fun k n hk => ?_, hearly fun _ => by simp⟩
    obtain ⟨howner, hne⟩ := owner_of_unlock h hk
    obtain ⟨hinside, hone⟩ := h.owner k n howner
    exact ⟨(move_pc_ne s _ hne).trans hinside, hone⟩

theorem goes_of_step (h : Sane s) {a : LogInitAct T} (hs : s.step a = some t) :
    ∃ i, Goes s i t := by
  cases a with
  | call i c => exact ⟨i, goes_of_call hs⟩
  | go i => exact ⟨i, goes_of_go h hs⟩

omit [DecidableEq T] in
theorem sane_start : Sane ({} : LogInit T) :=
  ⟨fun _ _ h => (by cases h), fun _ _ => by simp⟩

theorem Sane.reach (h : Sane s) (hs : Reach step s t) : Sane t :=
  hs.invariant h fun u a v hI hstep => by
    obtain ⟨i, hgoes⟩ := goes_of_step hI hstep
    exact hgoes.sane hI

/-! ## Where nothing can go wrong -/

/-- The thread in the section owns the mutex, and no other one will be created. -/
structure Safe (s : LogInit T) : Prop where
  sane : Sane s
  kept : ¬ s.Lost
  settled : ¬ s.Unsettled

omit [DecidableEq T] in
theorem Safe.owner (h : Safe s) (hi : s.pc i = .inside) : s.mutex = some (i, 1) := by
  by_contra hlost
  refine h.kept ⟨i, hi, fun n hn => hlost ?_⟩
  rw [hn, (h.sane.owner i n hn).2]

omit [DecidableEq T] in
theorem Safe.exclusive (h : Safe s) : s.Exclusive := by
  intro i j hi hj
  have heq := (h.owner hi).symm.trans (h.owner hj)
  exact (Prod.mk.inj (Option.some.inj heq)).1

theorem Safe.goes (h : Safe s) (hs : Goes s i t) : Safe t := by
  have hinit (hpc : s.pc i = .idle ∨ ∃ c, s.pc i = .testing c) : s.isInit = true := by
    cases hinit : s.isInit with
    | true => rfl
    | false => exact absurd (.inr ⟨hinit, i, hpc⟩) h.settled
  have hcreating (c : LogCaller) (hpc : s.pc i = .creating c) : False :=
    h.settled (.inl ⟨i, c, hpc⟩)
  have hkept {pc : LogPc} (hpc : pc ≠ .inside) : ¬ (s.move i pc).Lost := by
    rintro ⟨j, hj, hlost⟩
    by_cases hji : j = i
    · rw [hji, move_pc_self] at hj
      exact hpc hj
    · rw [move_pc_ne s pc hji] at hj
      exact h.kept ⟨j, hj, hlost⟩
  have hnone {pc : LogPc} (hpc : ∀ c, pc ≠ .creating c) (j : T) (c : LogCaller) :
      (s.move i pc).pc j ≠ .creating c := by
    by_cases hji : j = i
    · rw [hji, move_pc_self]
      exact hpc c
    · rw [move_pc_ne s pc hji]
      exact fun hj => h.settled (.inl ⟨j, c, hj⟩)
  have hsettled {u : LogInit T} (hinit : u.isInit = true) (hpc : ∀ j c, u.pc j ≠ .creating c) :
      ¬ u.Unsettled := by
    rintro (⟨j, c, hj⟩ | ⟨hfalse, -⟩)
    · exact hpc j c hj
    · rw [hinit] at hfalse
      cases hfalse
  have hset (hpc : s.pc i = .locking ∨ s.pc i = .inside) : s.isInit = true := by
    cases hinit : s.isInit with
    | true => rfl
    | false =>
      rcases hpc with hpc | hpc
      · exact absurd hpc (h.sane.early hinit i).1
      · exact absurd hpc (h.sane.early hinit i).2
  refine ⟨hs.sane h.sane, ?_, ?_⟩
  · cases hs with
    | call c hpc => exact hkept (by simp)
    | skip c hpc => exact hkept (by cases c <;> simp [LogCaller.next])
    | missing c hpc => exact hkept (by simp)
    | create c hpc => exact (h.settled (.inl ⟨i, c, hpc⟩)).elim
    | set c hpc => exact hkept (by cases c <;> simp [LogCaller.next])
    | lock hpc hfree =>
      rintro ⟨j, hj, hlost⟩
      by_cases hji : j = i
      · rw [hji] at hlost
        exact hlost 1 rfl
      · have howner := h.owner ((move_pc_ne s .inside hji).symm.trans hj)
        rw [hfree] at howner
        cases howner
    | unlock hpc =>
      rintro ⟨j, hj, -⟩
      by_cases hji : j = i
      · rw [hji, move_pc_self] at hj
        cases hj
      · exact hji (h.exclusive j i ((move_pc_ne s .idle hji).symm.trans hj) hpc)
  · cases hs with
    | call c hpc => exact hsettled (hinit (.inl hpc)) (hnone (by simp))
    | skip c hpc =>
      exact hsettled (hinit (.inr ⟨c, hpc⟩)) (hnone (by cases c <;> simp [LogCaller.next]))
    | missing c hpc hfalse =>
      rw [hinit (.inr ⟨c, hpc⟩)] at hfalse
      cases hfalse
    | create c hpc => exact (h.settled (.inl ⟨i, c, hpc⟩)).elim
    | set c hpc => exact hsettled rfl (hnone (by cases c <;> simp [LogCaller.next]))
    | lock hpc => exact hsettled (hset (.inl hpc)) (hnone (by simp))
    | unlock hpc => exact hsettled (hset (.inr hpc)) (hnone (by simp))

theorem Safe.reach (h : Safe s) (hs : Reach step s t) : Safe t :=
  hs.invariant h fun u a v hI hstep => by
    obtain ⟨i, hgoes⟩ := goes_of_step hI.sane hstep
    exact hI.goes hgoes

/-! ## Where something can -/

/-- The steps that a thread needs at most to get into the section, if the mutex is free. -/
def rank : LogPc → Nat
  | .testing .config => 8
  | .creating .config => 7
  | .setting .config => 6
  | .idle => 5
  | .testing .log => 4
  | .creating .log => 3
  | .setting .log => 2
  | .locking => 1
  | .inside => 0

theorem rank_next (c : LogCaller) : rank c.next < rank (.setting c) := by
  cases c <;> decide

/-- Out of the section a thread can take a step nearer to it. -/
theorem approaches (i : T) (h : Sane s) (hfree : ∀ k n, s.mutex = some (k, n) → k = i)
    (hout : s.pc i ≠ .inside) :
    ∃ a t, s.step a = some t ∧ (∀ k n, t.mutex = some (k, n) → k = i) ∧
      rank (t.pc i) < rank (s.pc i) ∧ ∀ j, j ≠ i → t.pc j = s.pc j := by
  have hothers (pc : LogPc) (j : T) (hj : j ≠ i) : (s.move i pc).pc j = s.pc j :=
    move_pc_ne s pc hj
  cases hpc : s.pc i with
  | idle =>
    refine ⟨.call i .log, s.move i (.testing .log), ?_, hfree, ?_, hothers _⟩
    · simp only [step, hpc]
    · rw [move_pc_self]
      decide
  | testing c =>
    refine ⟨.go i, s.move i (if s.isInit then c.next else .creating c), ?_, hfree, ?_, hothers _⟩
    · simp only [step, go, hpc]
    · rw [move_pc_self]
      split
      · exact Nat.lt_trans (rank_next c) (by cases c <;> decide)
      · cases c <;> decide
  | creating c =>
    refine ⟨.go i, { s.move i (.setting c) with mutex := none }, ?_, nofun, ?_, hothers _⟩
    · simp only [step, go, hpc]
    · show rank ((s.move i (.setting c)).pc i) < _
      rw [move_pc_self]
      cases c <;> decide
  | setting c =>
    refine ⟨.go i, { s.move i c.next with isInit := true }, ?_, hfree, ?_, hothers _⟩
    · simp only [step, go, hpc]
    · show rank ((s.move i c.next).pc i) < _
      rw [move_pc_self]
      exact rank_next c
  | locking =>
    have hmutex : s.mutex = none := by
      cases hmutex : s.mutex with
      | none => rfl
      | some o =>
        obtain ⟨k, n⟩ := o
        obtain rfl := hfree k n hmutex
        rw [(h.owner k n hmutex).1] at hpc
        cases hpc
    refine ⟨.go i, { s.move i .inside with mutex := some (i, 1) }, ?_, ?_, ?_, hothers _⟩
    · simp only [step, go, hpc, hmutex]
    · intro k n hk
      exact (Prod.mk.inj (Option.some.inj hk)).1.symm
    · show rank ((s.move i .inside).pc i) < _
      rw [move_pc_self]
      decide
  | inside => exact absurd hpc hout

/-- Where no other thread owns the mutex, a thread gets into the section all by itself. -/
theorem enters (i : T) (h : Sane s) (hfree : ∀ k n, s.mutex = some (k, n) → k = i) :
    ∃ t, Reach step s t ∧ t.pc i = .inside ∧ ∀ j, j ≠ i → t.pc j = s.pc j := by
  refine ReachIf.leads_to
    (I := fun t => Sane t ∧ (∀ k n, t.mutex = some (k, n) → k = i) ∧ ∀ j, j ≠ i → t.pc j = s.pc j)
    (G := fun t => t.pc i = .inside ∧ ∀ j, j ≠ i → t.pc j = s.pc j)
    (measure fun t : LogInit T => rank (t.pc i)).wf ?_ ⟨h, hfree, fun _ _ => rfl⟩
  rintro t ⟨hsane, hfree, hothers⟩
  by_cases hinside : t.pc i = .inside
  · exact .inl ⟨hinside, hothers⟩
  · obtain ⟨a, u, hs, hfree', hless, hsame⟩ := approaches i hsane hfree hinside
    have hreach : Reach step t u := .single trivial hs
    exact .inr ⟨u, hreach, ⟨hsane.reach hreach, hfree',
      fun j hj => (hsame j hj).trans (hothers j hj)⟩, hless⟩

/-- The thread inside has lost the mutex: another one gets in beside it. -/
theorem breaks_of_lost [Nontrivial T] (h : Sane s) (hlost : s.Lost) :
    ∃ t, Reach step s t ∧ ¬ t.Exclusive := by
  obtain ⟨i, hi, hlost⟩ := hlost
  cases hmutex : s.mutex with
  | some o =>
    obtain ⟨k, n⟩ := o
    refine ⟨s, .refl, fun hexclusive => hlost n ?_⟩
    rw [hmutex, hexclusive i k hi (h.owner k n hmutex).1]
  | none =>
    obtain ⟨j, hj⟩ := exists_ne i
    obtain ⟨t, hreach, hinside, hsame⟩ := enters j h (by rw [hmutex]; nofun)
    refine ⟨t, hreach, fun hexclusive => hj ?_⟩
    exact hexclusive j i hinside ((hsame i hj.symm).trans hi)

/-- A thread is about to create the mutex: it waits until another one is inside. -/
theorem breaks_of_creating [Nontrivial T] {c : LogCaller} (h : Sane s)
    (hi : s.pc i = .creating c) : ∃ t, Reach step s t ∧ ¬ t.Exclusive := by
  obtain ⟨j, hj, u, hreach, hinside, hcreating⟩ : ∃ j, j ≠ i ∧ ∃ u, Reach step s u ∧
      u.pc j = .inside ∧ u.pc i = .creating c := by
    cases hmutex : s.mutex with
    | some o =>
      obtain ⟨k, n⟩ := o
      have hinside := (h.owner k n hmutex).1
      refine ⟨k, ?_, s, .refl, hinside, hi⟩
      rintro rfl
      rw [hi] at hinside
      cases hinside
    | none =>
      obtain ⟨j, hj⟩ := exists_ne i
      obtain ⟨u, hreach, hinside, hsame⟩ := enters j h (by rw [hmutex]; nofun)
      exact ⟨j, hj, u, hreach, hinside, (hsame i hj.symm).trans hi⟩
  have hs : u.step (.go i) = some { u.move i (.setting c) with mutex := none } := by
    simp only [step, go, hcreating]
  have hlost : Lost { u.move i (.setting c) with mutex := none } :=
    ⟨j, (move_pc_ne u _ hj).trans hinside, fun n hn => by cases hn⟩
  have hreach' := hreach.tail trivial hs
  obtain ⟨t, ht, hbroken⟩ := breaks_of_lost (h.reach hreach') hlost
  exact ⟨t, hreach'.trans ht, hbroken⟩

theorem breaks_of_unsettled [Nontrivial T] (h : Sane s) (hs : s.Unsettled) :
    ∃ t, Reach step s t ∧ ¬ t.Exclusive := by
  have htesting {u : LogInit T} {i : T} {c : LogCaller} (hu : Reach step s u)
      (hinit : u.isInit = false) (hi : u.pc i = .testing c) :
      ∃ t, Reach step s t ∧ ¬ t.Exclusive := by
    have hstep : u.step (.go i) = some (u.move i (.creating c)) := by
      simp only [step, go, hi, hinit]
      rfl
    have hreach := hu.tail trivial hstep
    obtain ⟨t, ht, hbroken⟩ := breaks_of_creating (h.reach hreach) (move_pc_self u i (.creating c))
    exact ⟨t, hreach.trans ht, hbroken⟩
  rcases hs with ⟨i, c, hi⟩ | ⟨hinit, i, hidle | ⟨c, hi⟩⟩
  · exact breaks_of_creating h hi
  · have hstep : s.step (.call i .log) = some (s.move i (.testing .log)) := by
      simp only [step, hidle]
    exact htesting (.single trivial hstep) hinit (move_pc_self s i (.testing .log))
  · exact htesting .refl hinit hi

end LogInit

open LogInit

/-- When two threads may yet be in the section at once. -/
theorem log_exclusion_breaks_iff {T : Type} [DecidableEq T] [Nontrivial T] {s : LogInit T}
    (h : Reach step {} s) :
    (∃ t, Reach step s t ∧ ¬ t.Exclusive) ↔ s.Lost ∨ s.Unsettled := by
  have hsane := sane_start.reach h
  constructor
  · rintro ⟨t, ht, hbroken⟩
    by_contra hnot
    obtain ⟨hkept, hsettled⟩ := not_or.mp hnot
    exact hbroken (Safe.reach ⟨hsane, hkept, hsettled⟩ ht).exclusive
  · rintro (hlost | hunsettled)
    · exact breaks_of_lost hsane hlost
    · exact breaks_of_unsettled hsane hunsettled

/-- At the start it may happen; behind a call of `LOG_CONFIG` that nobody else was in, not. -/
theorem log_exclusion_breaks_iff_config :
    (∃ t, Reach step ({} : LogInit Bool) t ∧ ¬ t.Exclusive) ∧
      ∃ s, Reach step ({} : LogInit Bool) s ∧ s.isInit = true ∧
        ∀ t, Reach step s t → t.Exclusive := by
  constructor
  · exact (log_exclusion_breaks_iff .refl).mpr (.inr (.inr ⟨rfl, true, .inl rfl⟩))
  · obtain ⟨s, hs, hp⟩ := reach_of_any step ({} : LogInit Bool)
      [.call true .config, .go true, .go true, .go true]
      (fun s => s.isInit = true ∧ ∀ i, s.pc i = .idle) (by decide +kernel)
    obtain ⟨hinit, hidle⟩ := of_decide_eq_true hp
    refine ⟨s, hs, hinit, fun t ht => ?_⟩
    by_contra hbroken
    rcases (log_exclusion_breaks_iff hs).mp ⟨t, ht, hbroken⟩ with ⟨i, hi, -⟩ | hunsettled
    · rw [hidle i] at hi
      cases hi
    · rcases hunsettled with ⟨i, c, hi⟩ | ⟨hfalse, -⟩
      · rw [hidle i] at hi
        cases hi
      · rw [hinit] at hfalse
        cases hfalse

end VideoPlayerCore
