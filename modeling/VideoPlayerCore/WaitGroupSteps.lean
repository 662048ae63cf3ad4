import VideoPlayerCore.Machine
import VideoPlayerCore.Slots
import Mathlib.Tactic.Linarith

/-!
# WaitGroup

Any number of threads that call `Go`, `Add(1)`, `Done` and `Wait`; the tasks that `Go`
starts are threads too and may do the same.  `mtx_` has one holder, a thread asleep on
`cv_` does not hold it, and it may wake without being notified.

`counter_` is an `int`: where `old_counter + delta` is none, no step is described here.
-/

namespace VideoPlayerCore

/-- What a thread goes on with when `Add` returns. -/
inductive AfterAdd
  /-- its own code -/
  | returns
  /-- the rest of `Go`; the number of the task -/
  | spawns (task : Nat)
  /-- nothing: `Done` was called by `~Guard` -/
  | finishes
  deriving DecidableEq

/-- Where a thread stands. -/
inductive WaitGroupPc
  /-- in its own code; in a task this is `f` -/
  | running
  /-- `f` has returned or thrown; before the `Done` of `~Guard` -/
  | ending
  | finished
  /-- in `Add`, behind the `fetch_add` that reached 0 -/
  | locking (k : AfterAdd)
  | notifying (k : AfterAdd)
  | unlocking (k : AfterAdd)
  /-- in `Go`, behind its `Add` -/
  | spawning (task : Nat)
  /-- in `Wait`, before load `i` of the spin loop; `n` tasks had been added when it began -/
  | spinning (i n : Nat)
  | waitLocking (n : Nat)
  /-- before the predicate of `cv_.wait` -/
  | checking (n : Nat)
  /-- the predicate was false -/
  | blocking (n : Nat)
  | asleep (n : Nat)
  | waking (n : Nat)
  /-- the predicate was true -/
  | waitUnlocking (n : Nat)
  deriving DecidableEq

structure WaitThread where
  /-- the number of the task that this thread is, if it is one -/
  task : Option Nat := none
  pc : WaitGroupPc := .running
  deriving DecidableEq

/-- What a thread does next. -/
inductive WaitCall
  /-- `Add(1)` -/
  | add
  | done
  | go
  | wait
  /-- `f` returns or throws -/
  | ends
  /-- the next step of the call that the thread is in -/
  | next
  /-- a spurious wake-up -/
  | wake
  deriving DecidableEq

inductive WaitAct
  /-- another thread that uses the group -/
  | newThread
  | act (i : Nat) (c : WaitCall)
  deriving DecidableEq

structure WaitGroup where
  counter : Int := 0
  /-- the thread that holds `mtx_` -/
  mtx : Option Nat := none
  threads : Slots WaitThread := {}
  /-- how many `Go` calls have done their `Add` -/
  tasks : Nat := 0
  /-- the tasks whose `f` has ended -/
  ended : List Nat := []
  /-- explicit `Add(1)` calls less explicit `Done` calls -/
  explicit : Int := 0
  /-- for every `Wait` that returned, how many tasks had been added when it began -/
  returned : List Nat := []
  /-- `std::terminate` was called -/
  terminated : Bool := false
  deriving DecidableEq

def kMaxSpinIterations : Nat := 64

def AfterAdd.pc : AfterAdd → WaitGroupPc
  | .returns => .running
  | .spawns task => .spawning task
  | .finishes => .finished

/-- `notify_all` for one thread -/
def WaitThread.notified (th : WaitThread) : WaitThread :=
  match th.pc with
  | .asleep n => { th with pc := .waking n }
  | _ => th

namespace WaitGroup

/-- A thread goes on at `pc`. -/
def move (s : WaitGroup) (i : Nat) (th : WaitThread) (pc : WaitGroupPc) : WaitGroup :=
  { s with threads := s.threads.set i { th with pc := pc } }

/-- `Add(delta)` up to the lock -/
def fetchAdd (s : WaitGroup) (i : Nat) (th : WaitThread) (delta : Int) (k : AfterAdd) :
    Option WaitGroup :=
  let newCounter := s.counter + delta
  if newCounter < -2 ^ 31 ∨ 2 ^ 31 ≤ newCounter then none
  else
    let s := { s with counter := newCounter }
    if newCounter < 0 then
      -- the exception goes to the caller, out of `~Guard` it may not
      match k with
      | .finishes => some { s with terminated := true }
      | _ => some (s.move i th .running)
    else if newCounter = 0 then some (s.move i th (.locking k))
    else some (s.move i th k.pc)

/-- `mtx_` is locked; the thread waits while another one holds it. -/
def lock (s : WaitGroup) (i : Nat) (th : WaitThread) (pc : WaitGroupPc) : Option WaitGroup :=
  if s.mtx = none then some { s.move i th pc with mtx := some i } else none

/-- `Wait` returns. -/
def leave (s : WaitGroup) (i : Nat) (th : WaitThread) (n : Nat) : WaitGroup :=
  { s.move i th .running with returned := s.returned ++ [n] }

/-- The next step of a call. -/
def next (s : WaitGroup) (i : Nat) (th : WaitThread) : Option WaitGroup :=
  match th.pc with
  | .running | .finished | .asleep _ => none
  | .ending => s.fetchAdd i th (-1) .finishes
  | .locking k => s.lock i th (.notifying k)
  | .notifying k =>
    some ({ s with threads := s.threads.map WaitThread.notified }.move i th (.unlocking k))
  | .unlocking k => some { s.move i th k.pc with mtx := none }
  | .spawning task =>
    let s := s.move i th .running
    some { s with threads := s.threads.alloc { task := some task } }
  | .spinning j n =>
    if s.counter = 0 then some (s.leave i th n)
    else if j + 1 < kMaxSpinIterations then some (s.move i th (.spinning (j + 1) n))
    else some (s.move i th (.waitLocking n))
  | .waitLocking n => s.lock i th (.checking n)
  | .checking n => some (s.move i th (if s.counter = 0 then .waitUnlocking n else .blocking n))
  | .blocking n => some { s.move i th (.asleep n) with mtx := none }
  | .waking n => s.lock i th (.checking n)
  | .waitUnlocking n => some { s.leave i th n with mtx := none }

/-- What a thread does. -/
def call (s : WaitGroup) (i : Nat) (th : WaitThread) : WaitCall → Option WaitGroup
  | .add =>
    if th.pc = .running then
      { s with explicit := s.explicit + 1 }.fetchAdd i th 1 .returns
    else none
  | .done =>
    if th.pc = .running then
      { s with explicit := s.explicit - 1 }.fetchAdd i th (-1) .returns
    else none
  | .go =>
    if th.pc = .running then
      { s with tasks := s.tasks + 1 }.fetchAdd i th 1 (.spawns s.tasks)
    else none
  | .wait => if th.pc = .running then some (s.move i th (.spinning 0 s.tasks)) else none
  | .ends =>
    match th.task with
    | some task =>
      if th.pc = .running then some { s.move i th .ending with ended := s.ended ++ [task] }
      else none
    | none => none
  | .next => s.next i th
  | .wake =>
    match th.pc with
    | .asleep n => some (s.move i th (.waking n))
    | _ => none

def step (s : WaitGroup) (a : WaitAct) : Option WaitGroup :=
  if s.terminated then none
  else
    match a with
    | .newThread => some { s with threads := s.threads.alloc {} }
    | .act i c => (s.threads.get i).bind fun th => s.call i th c

end WaitGroup

end VideoPlayerCore
