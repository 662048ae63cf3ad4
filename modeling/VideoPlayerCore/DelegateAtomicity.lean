import VideoPlayerCore.DelegateThrowPoints
import VideoPlayerCore.LockedOwners

/-!
# Exceptions in the operators of delegates

`LockInternal` and `UnlockInternal` stand around an operator without an object that would
unlock, so an exception leaves the mutex locked.  What the delegates show stays, since
`_current` is written last.  The arrays that they refer to stay whole, but when `+=` of a
callable appends in place: `PushBack` counts the entry before it copies it.

    a throw at point `n` of an operator is atomic ↔
      the mutex is `NullMutex`, and the point is not the copy in place   (mutation_atomic_iff)
    without a throw the operator does its step                                  (step_attempt)
-/

namespace VideoPlayerCore

open Machine Attempt

variable {F : Type}

/-- The delegate whose mutex the action holds. -/
def LockedAct.holds : LockedAct F → Option Nat
  | .operate _ _ d _ => some d
  | .operateDelegate _ _ d _ _ => some d
  | .trimExcess d => some d
  | _ => none

namespace LockedWorld

/-- The operator behind `LockInternal`, with its points. -/
def attempt (mutex : Policy) (s : LockedWorld F) :
    LockedAct F → Option (Attempt (Memory F) Delegate)
  | .operate fuel op d c => do
    let d' ← s.delegates.get d
    some (tryOperate mutex fuel op d' c.type (.callable c))
  | .operateDelegate fuel op d delegate cls => do
    let operand ← s.delegates.get delegate
    let d' ← s.delegates.get d
    if cls = .base ∨ cls = .locked mutex then
      some (tryOperate mutex fuel op d' (.object cls) (.delegate operand (d = delegate)))
    else none
  | _ => none

/-- A delegate has a list with this array. -/
def refers (s : LockedWorld F) (array : Nat) : Bool :=
  s.delegates.slots.any fun o => o.any fun d => d.owned.any fun list =>
    (s.heap.lists.get list).any fun l => l.array = array

end LockedWorld

/-- Delegates whose operators may throw. -/
structure ThrowWorld (F : Type) where
  world : LockedWorld F := {}
  /-- the arrays of delegates whose `_size` counts an entry that is not constructed -/
  torn : List Nat := []
  /-- the delegates whose mutex an exception left locked -/
  locked : List Nat := []

inductive ThrowAct (F : Type)
  | act (a : LockedAct F)
  /-- the operator throws at its point `n` -/
  | throws (n : Nat) (a : LockedAct F)

namespace ThrowWorld

/-- An action waits for a mutex that is left locked; after an array is torn nothing is defined. -/
def blocks (s : ThrowWorld F) (a : LockedAct F) : Bool :=
  s.torn ≠ [] ∨ ∃ d ∈ a.holds, d ∈ s.locked

def step (w : Wrapper F) (mutex : Policy) (s : ThrowWorld F) :
    ThrowAct F → Option (ThrowWorld F)
  | .act a =>
    if s.blocks a then none
    else (s.world.step w mutex a).map fun world => { s with world := world }
  | .throws n a =>
    if s.blocks a then none
    else do
      let p ← s.world.attempt mutex a
      let t ← (p.thrown { heap := s.world.heap })[n]?
      let world := { s.world with heap := t.heap }
      some { world := world
             torn := t.torn.filter world.refers
             -- `lock` of a `NullMutex` does nothing
             locked := if mutex = .nullMutex then s.locked else a.holds.toList ++ s.locked }

/-- The operator `a` that threw from `s` to `s'` left the mutex free, the entries as they
were and the arrays whole. -/
structure Atomic (s s' : ThrowWorld F) (a : LockedAct F) : Prop where
  free : ∀ d ∈ a.holds, d ∉ s'.locked
  visible : s'.world.plain = s.world.plain
  whole : s'.torn = []

end ThrowWorld

/-- Point `n` of the operator is the copy of the callable to the array of `_current`: it comes
behind the wrapper, the new list and its entry. -/
def LockedWorld.CopiesInPlace (s : LockedWorld F) (n : Nat) : LockedAct F → Prop
  | .operate _ .add d c => n = c.wraps + 2 ∧ ∃ dl, s.delegates.get d = some dl ∧ s.heap.InPlace dl
  | _ => False

namespace LockedWorld

variable {w : Wrapper F} {mutex : Policy} {s s' : LockedWorld F} {a : LockedAct F} {d i : Nat}
  {dl : Delegate} {h' : Heap F} {u : Memory F} {p : Attempt (Memory F) Delegate}

/-- The operators that are attempted. -/
inductive Attempted (mutex : Policy) (s : LockedWorld F) :
    LockedAct F → Attempt (Memory F) Delegate → Prop
  | callable (fuel : Nat) (op : Operator) (d : Nat) (c : Callable F) (dl : Delegate)
      (hd : s.delegates.get d = some dl) :
      Attempted mutex s (.operate fuel op d c) (tryOperate mutex fuel op dl c.type (.callable c))
  | delegate (fuel : Nat) (op : Operator) (d delegate : Nat) (cls : DelegateClass)
      (operand dl : Delegate) (ho : s.delegates.get delegate = some operand)
      (hd : s.delegates.get d = some dl) (hcls : cls = .base ∨ cls = .locked mutex) :
      Attempted mutex s (.operateDelegate fuel op d delegate cls)
        (tryOperate mutex fuel op dl (.object cls) (.delegate operand (d = delegate)))

theorem attempt_cases (hp : s.attempt mutex a = some p) : Attempted mutex s a p := by
  cases a <;> rw [attempt] at hp
  case operate fuel op d c =>
    obtain ⟨dl, hd, hp⟩ := Option.bind_eq_some_iff.mp hp
    obtain rfl := Option.some.inj hp
    exact .callable fuel op d c dl hd
  case operateDelegate fuel op d delegate cls =>
    obtain ⟨operand, ho, hp⟩ := Option.bind_eq_some_iff.mp hp
    obtain ⟨dl, hd, hp⟩ := Option.bind_eq_some_iff.mp hp
    split at hp
    · next hcls =>
      obtain rfl := Option.some.inj hp
      exact .delegate fuel op d delegate cls operand dl ho hd hcls
    · cases hp
  all_goals cases hp

/-- Without an exception the operator does its step. -/
theorem step_attempt (w : Wrapper F) (hp : s.attempt mutex a = some p) :
    ∃ d, a.holds = some d ∧ s.step w mutex a =
      s.put d ((p.result { heap := s.heap }).map fun r => (r.2.heap, r.1)) := by
  cases attempt_cases hp with
  | callable fuel op d c dl hd =>
    refine ⟨d, rfl, ?_⟩
    rw [result_operate_callable mutex fuel op dl w, Option.map_map, step, hd]
    exact congrArg (s.put d) (congrFun Option.map_id.symm _)
  | delegate fuel op d delegate cls operand dl ho hd hcls =>
    refine ⟨d, rfl, ?_⟩
    rw [result_operate_delegate mutex fuel op dl w hcls, Option.map_map, step, ho, hd]
    simp only [Option.bind_eq_bind, Option.bind_some]
    rw [if_pos hcls]
    exact congrArg (s.put d) (congrFun Option.map_id.symm _)

/-! ## What an exception leaves of the delegates -/

theorem refers_iff : s.refers i = true ↔ ∃ d dl x l, s.delegates.get d = some dl ∧
    x ∈ dl.owned ∧ s.heap.lists.get x = some l ∧ l.array = i := by
  unfold refers
  simp only [List.any_eq_true, Option.any_eq_true, decide_eq_true_eq]
  constructor
  · rintro ⟨o, ho, dl, rfl, x, hx, l, hl, rfl⟩
    obtain ⟨d, hd⟩ := List.mem_iff_getElem?.mp ho
    exact ⟨d, dl, x, l, by rw [Slots.get, hd]; rfl, hx, hl, rfl⟩
  · rintro ⟨d, dl, x, l, hd, hx, hl, rfl⟩
    exact ⟨some dl, List.mem_of_getElem? (Slots.slots_of_get hd), dl, rfl, x, hx, l, hl, rfl⟩

/-- No delegate refers to an array that was made since. -/
theorem Owns.not_refers (hs : s.Owns) (hedit : Heap.Edits s.heap h' s.heap.lists.fresh)
    (hi : s.heap.arrays.fresh ≤ i) : refers { s with heap := h' } i = false := by
  rw [Bool.eq_false_iff]
  intro h
  obtain ⟨d, dl, x, l, hd, hx, hl, rfl⟩ := refers_iff.mp h
  have hl' : h'.lists.get x = some l := hl
  rw [hedit.lists x (hs.ne_fresh hd hx)] at hl'
  obtain ⟨b, hb, -⟩ := hs.heap.within x l hl'
  have hlt := Slots.lt_fresh hb
  omega

/-- An exception in an operator, but for the copy in place. -/
theorem Owns.behind (hs : s.Owns) (hp : s.attempt mutex a = some p) :
    ∀ u ∈ p.thrown { heap := s.heap }, s.heap.Behind s.heap.lists.fresh
      (fun i => s.heap.arrays.fresh ≤ i ∨ ∃ n, s.CopiesInPlace n a) u := by
  cases attempt_cases hp with
  | callable fuel op d c dl hd =>
    intro u hu
    rw [thrown_operate_callable] at hu
    split at hu
    · exact absurd hu List.not_mem_nil
    · rcases List.mem_append.mp hu with hu | hu
      · rw [List.eq_of_mem_replicate hu]
        exact (Heap.Edits.refl hs.heap).behind
      · refine (hs.heap.thrown_callable (hs.sound hd) op c.entry u hu).mono fun i hi => ?_
        refine hi.imp_right fun hin => ?_
        obtain ⟨rfl, hplace⟩ := hin
        exact ⟨_, rfl, dl, hd, hplace⟩
  | delegate fuel op d delegate cls operand dl ho hd hcls =>
    intro u hu
    rw [tryOperate_internal] at hu
    by_cases hlist : cls = .base ∨ cls = .locked .stdMutex
    · rw [tryInternal_list fuel op dl hlist] at hu
      exact (hs.heap.thrown_delegate (hs.sound hd) (hs.sound ho) op _ u hu).mono fun _ => .inl
    · obtain rfl := hcls.resolve_left fun h => hlist (.inl h)
      rw [tryInternal_wrap mutex fuel op dl fun h => hlist (.inr (by rw [h]))] at hu
      split at hu
      · exact absurd hu List.not_mem_nil
      · obtain ⟨hnone, hsame⟩ := tryWrap_delegate fuel operand (d = delegate) { heap := s.heap }
        rw [thrown_bind_of_none hnone] at hu
        rw [hsame u hu]
        exact (Heap.Edits.refl hs.heap).behind

/-- Of the points of `+=` in place only that of the copy tears an array. -/
theorem Owns.torn_inPlace (hs : s.Owns) {m n : Nat} (hplace : s.CopiesInPlace m a)
    (hp : s.attempt mutex a = some p) (hu : (p.thrown { heap := s.heap })[n]? = some u) :
    (n ≠ m → u.torn = []) ∧
      (n = m → ∃ i, u.torn = [i] ∧ refers { s with heap := u.heap } i = true) := by
  obtain ⟨fuel, d, c, rfl, rfl, dl, hd, hplace⟩ : ∃ fuel d c, a = .operate fuel .add d c ∧
      m = c.wraps + 2 ∧ ∃ dl, s.delegates.get d = some dl ∧ s.heap.InPlace dl := by
    unfold CopiesInPlace at hplace
    split at hplace
    · next fuel d c => exact ⟨fuel, d, c, rfl, hplace.1, hplace.2⟩
    · exact hplace.elim
  rw [attempt, hd] at hp
  obtain rfl := Option.some.inj hp
  obtain ⟨current, l, a, hc, hl, ha, hfull, hroom⟩ := hplace
  obtain ⟨h₁, h₂, hthrown, hedit₁, hedit₂⟩ :=
    hs.heap.thrown_inPlace hc hl ha hfull hroom c.entry
  have hrefers : refers { s with heap := h₁ } l.array = true := by
    have hx := World.current_mem_owned hc
    exact refers_iff.mpr ⟨d, dl, current, l, hd, hx,
      (hedit₁.lists current (hs.ne_fresh hd hx)).trans hl, rfl⟩
  rw [thrown_operate_callable, if_neg (by simp), hthrown] at hu
  rcases Nat.lt_or_ge n c.wraps with hlt | hge
  · rw [List.getElem?_append_left (by simpa using hlt)] at hu
    rw [List.eq_of_mem_replicate (List.mem_of_getElem? hu)]
    exact ⟨fun _ => rfl, fun heq => absurd heq (by omega)⟩
  · obtain ⟨m, rfl⟩ := Nat.exists_eq_add_of_le hge
    rw [List.getElem?_append_right (by simp), List.length_replicate, Nat.add_sub_cancel_left] at hu
    -- the new list, its entry, the copy to the array and `SetMethodList`
    rcases m with _ | _ | _ | _ | m
    · obtain rfl := Option.some.inj hu
      exact ⟨fun _ => rfl, fun heq => absurd heq (by omega)⟩
    · obtain rfl := Option.some.inj hu
      exact ⟨fun _ => rfl, fun heq => absurd heq (by omega)⟩
    · obtain rfl := Option.some.inj hu
      exact ⟨fun hne => absurd rfl hne, fun _ => ⟨_, rfl, hrefers⟩⟩
    · obtain rfl := Option.some.inj hu
      exact ⟨fun _ => rfl, fun heq => absurd heq (by omega)⟩
    · cases hu

end LockedWorld

namespace ThrowWorld

variable {w : Wrapper F} {mutex : Policy} {s s' : ThrowWorld F} {a : LockedAct F} {n : Nat}

/-- What a throw comes from and leads to. -/
theorem throws_some (h : s.step w mutex (.throws n a) = some s') :
    s.blocks a = false ∧ ∃ p u, s.world.attempt mutex a = some p ∧
      (p.thrown { heap := s.world.heap })[n]? = some u ∧
      s' = { world := { s.world with heap := u.heap }
             torn := u.torn.filter (LockedWorld.refers { s.world with heap := u.heap })
             locked := if mutex = .nullMutex then s.locked else a.holds.toList ++ s.locked } := by
  rw [step] at h
  split at h
  · cases h
  · next hfree =>
    obtain ⟨p, hp, h⟩ := Option.bind_eq_some_iff.mp h
    obtain ⟨u, hu, h⟩ := Option.bind_eq_some_iff.mp h
    exact ⟨by simpa using hfree, p, u, hp, hu, (Option.some.inj h).symm⟩

/-- An operator holds the mutex of its delegate. -/
theorem holds_of_attempt {s : LockedWorld F} {p : Attempt (Memory F) Delegate}
    (hp : s.attempt mutex a = some p) : ∃ d, a.holds = some d := by
  cases LockedWorld.attempt_cases hp with
  | callable fuel op d => exact ⟨d, rfl⟩
  | delegate fuel op d => exact ⟨d, rfl⟩

theorem owns_step (hs : s.world.Owns) {a : ThrowAct F} (h : s.step w mutex a = some s') :
    s'.world.Owns := by
  cases a with
  | act a =>
    rw [step] at h
    split at h
    · cases h
    · obtain ⟨world, hworld, rfl⟩ := Option.map_eq_some_iff.mp h
      exact hs.step hworld
  | throws n a =>
    obtain ⟨-, p, u, hp, hu, rfl⟩ := throws_some h
    exact hs.lose (hs.behind hp u (List.mem_of_getElem? hu)).edits

theorem owns_of_reach (h : Reach (step w mutex) ({} : ThrowWorld F) s) : s.world.Owns :=
  h.invariant (LockedWorld.Inv.owns LockedWorld.inv_start) fun _ _ _ ht hstep => owns_step ht hstep

theorem atomic_iff (hs : s.world.Owns) (h : s.step w mutex (.throws n a) = some s') :
    Atomic s s' a ↔ mutex = .nullMutex ∧ ¬s.world.CopiesInPlace n a := by
  obtain ⟨hfree, p, u, hp, hu, rfl⟩ := throws_some h
  obtain ⟨d, hd⟩ := holds_of_attempt hp
  have hbehind := hs.behind hp u (List.mem_of_getElem? hu)
  constructor
  · intro hatomic
    constructor
    · by_contra hmutex
      refine hatomic.free d hd ?_
      rw [if_neg hmutex, hd]
      simp
    · intro hplace
      obtain ⟨i, htorn, hrefers⟩ := (hs.torn_inPlace hplace hp hu).2 rfl
      have hwhole := hatomic.whole
      dsimp only at hwhole
      rw [htorn, List.filter_singleton, hrefers] at hwhole
      cases hwhole
  · rintro ⟨hmutex, hplace⟩
    refine ⟨fun d hd => ?_, hs.plain_lose hbehind.edits, ?_⟩
    · rw [if_pos hmutex]
      simp only [blocks, decide_eq_false_iff_not, not_or, not_exists, not_and] at hfree
      exact hfree.2 d hd
    · refine List.filter_eq_nil_iff.mpr fun i hi => ?_
      by_cases hcopies : ∃ m, s.world.CopiesInPlace m a
      · obtain ⟨m, hm⟩ := hcopies
        have hne : n ≠ m := fun heq => hplace (heq ▸ hm)
        rw [(hs.torn_inPlace hm hp hu).1 hne] at hi
        exact absurd hi List.not_mem_nil
      · rw [hs.not_refers hbehind.edits ((hbehind.torn i hi).resolve_right hcopies)]
        exact Bool.false_ne_true

end ThrowWorld

/-- An exception in an operator of a reachable delegate leaves the mutex free, the visible
entries as they were and the arrays whole, if and only if the mutex is one that is not locked
and the exception is not that of the copy of the callable to the array of `_current`; without it
the operator would have done its step. -/
theorem mutation_atomic_iff (w : Wrapper F) (mutex : Policy) {s s' : ThrowWorld F}
    (hs : Reach (ThrowWorld.step w mutex) {} s) {n : Nat} {a : LockedAct F}
    (h : s.step w mutex (.throws n a) = some s') :
    (ThrowWorld.Atomic s s' a ↔ mutex = .nullMutex ∧ ¬s.world.CopiesInPlace n a) ∧
      ∃ p d, s.world.attempt mutex a = some p ∧ a.holds = some d ∧
        s.world.step w mutex a =
          s.world.put d ((p.result { heap := s.world.heap }).map fun r => (r.2.heap, r.1)) := by
  obtain ⟨-, p, -, hp, -⟩ := ThrowWorld.throws_some h
  obtain ⟨d, hd, hstep⟩ := s.world.step_attempt w hp
  exact ⟨ThrowWorld.atomic_iff (ThrowWorld.owns_of_reach hs) h, p, d, hp, hd, hstep⟩

/-- A delegate with one entry. -/
def oneEntry : ThrowAct Unit := .act (.constructFrom 0 (.pointer 1 ()))

/-- `d += f` of a functor -/
def addFunctor : LockedAct Unit := .operate 0 .add 0 (.functor 7 ())

/-- An allocation that fails is survived. -/
theorem mutation_atomic_iff_alloc :
    ∃ s s' : ThrowWorld Unit, s.step unitWrapper .nullMutex (.throws 1 addFunctor) = some s' ∧
      ThrowWorld.Atomic s s' addFunctor := by
  have hrun : (exec (ThrowWorld.step unitWrapper .nullMutex) {} [oneEntry]).any (fun s =>
      (s.step unitWrapper .nullMutex (.throws 1 addFunctor)).isSome) = true := by
    decide
  obtain ⟨s, hs, hthrow⟩ := reach_of_any _ _ _ _ hrun
  obtain ⟨s', hs'⟩ := Option.isSome_iff_exists.mp hthrow
  refine ⟨s, s', hs', (mutation_atomic_iff unitWrapper .nullMutex hs hs').1.mpr ⟨rfl, ?_⟩⟩
  rintro ⟨hpoint, -⟩
  cases hpoint

/-- An exception leaves a `std::mutex` locked, and without a mutex that of the copy leaves the
array of `_current` torn. -/
theorem mutation_not_atomic :
    (∃ s s' : ThrowWorld Unit, Reach (ThrowWorld.step unitWrapper .stdMutex) {} s ∧
      s.step unitWrapper .stdMutex (.throws 0 addFunctor) = some s' ∧ s'.locked = [0] ∧
      ¬ThrowWorld.Atomic s s' addFunctor) ∧
    ∃ s s' : ThrowWorld Unit, Reach (ThrowWorld.step unitWrapper .nullMutex) {} s ∧
      s.step unitWrapper .nullMutex (.throws 3 addFunctor) = some s' ∧ s'.torn = [0] ∧
      ¬ThrowWorld.Atomic s s' addFunctor := by
  constructor
  · have hrun : (exec (ThrowWorld.step unitWrapper .stdMutex) {} [oneEntry]).any (fun s =>
        (s.step unitWrapper .stdMutex (.throws 0 addFunctor)).any fun s' =>
          decide (s'.locked = [0])) = true := by
      decide
    obtain ⟨s, hs, hthrow⟩ := reach_of_any _ _ _ _ hrun
    obtain ⟨s', hs', hlocked⟩ := (Option.any_eq_true _ _).mp hthrow
    have hlocked := of_decide_eq_true hlocked
    refine ⟨s, s', hs, hs', hlocked, fun hatomic => hatomic.free 0 rfl ?_⟩
    rw [hlocked]
    exact List.mem_singleton.mpr rfl
  · have hrun : (exec (ThrowWorld.step unitWrapper .nullMutex) {} [oneEntry]).any (fun s =>
        (s.step unitWrapper .nullMutex (.throws 3 addFunctor)).any fun s' =>
          decide (s'.torn = [0])) = true := by
      decide
    obtain ⟨s, hs, hthrow⟩ := reach_of_any _ _ _ _ hrun
    obtain ⟨s', hs', htorn⟩ := (Option.any_eq_true _ _).mp hthrow
    have htorn := of_decide_eq_true htorn
    refine ⟨s, s', hs, hs', htorn, fun hatomic => ?_⟩
    have hwhole := hatomic.whole
    rw [htorn] at hwhole
    cases hwhole

end VideoPlayerCore
