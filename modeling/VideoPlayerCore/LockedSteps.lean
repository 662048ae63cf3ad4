import VideoPlayerCore.DelegatePolicy
import VideoPlayerCore.ReentrySteps

/-!
# Delegates with a mutex

`_Delegate_S`: operators and `TrimExcess` hold the mutex and are one step each.  An
invocation does not take it: it loads `_current`, and then each call of a handler is a
step, and the return of the last one.  Between its steps come those of other threads and of
its own handlers.
-/

namespace VideoPlayerCore

variable {F : Type}

/-- An `operator()` of a `_Delegate_S` -/
structure Invocation (F : Type) where
  delegate : Nat
  /-- the list that was `_current` -/
  methodList : Nat
  /-- `GetSize() - 1`, when it has been read -/
  n : Option Nat := none
  i : Nat := 0
  called : List (Method F) := []
  /-- what was visible in the list when it was loaded -/
  entries : List (Method F)
  /-- the last handler has returned -/
  returned : Bool := false
  deriving DecidableEq

/-- Until the last handler has returned the list is in use: its `std::function` is what runs. -/
def Invocation.running (inv : Invocation F) : Bool := !inv.returned

inductive LockedAct (F : Type)
  | construct
  | constructFrom (fuel : Nat) (c : Callable F)
  /-- from an object and a method of it -/
  | constructMethod (pObject pFn : Nat) (f : F)
  | copy (fuel : Nat) (delegate : Nat)
  | destroy (d : Nat)
  | operate (fuel : Nat) (op : Operator) (d : Nat) (c : Callable F)
  /-- the operand is a delegate of the same class, as `cls` -/
  | operateDelegate (fuel : Nat) (op : Operator) (d delegate : Nat) (cls : DelegateClass)
  | trimExcess (d : Nat)
  /-- an invocation of `d` loads `_current` -/
  | load (d : Nat)
  /-- invocation `j` calls its next handler -/
  | call (j : Nat)
  /-- the last handler of invocation `j` returns -/
  | finish (j : Nat)

structure LockedWorld (F : Type) where
  heap : Heap F := {}
  delegates : Slots Delegate := {}
  invocations : List (Invocation F) := []

namespace LockedWorld

def make (s : LockedWorld F) (r : Option (Heap F × Delegate)) : Option (LockedWorld F) :=
  r.map fun r => { s with heap := r.1, delegates := s.delegates.alloc r.2 }

def put (s : LockedWorld F) (d : Nat) (r : Option (Heap F × Delegate)) : Option (LockedWorld F) :=
  r.map fun r => { s with heap := r.1, delegates := s.delegates.set d r.2 }

/-- The next iteration of an `operator()`: `(*methodList)[i].method(args...)` -/
def callNext (h : Heap F) (inv : Invocation F) : Option (Invocation F) := do
  -- before the first one the loop bound is read
  let n ← inv.n.orElse fun _ => do
    let l ← h.lists.get inv.methodList
    if l.size = 0 then none else some (l.size - 1)
  if inv.i ≤ n then
    let m ← h.methodAt inv.methodList inv.i
    some { inv with n := some n, i := inv.i + 1, called := inv.called ++ [m] }
  else none

/-- `return (*methodList)[n].method(args...)` comes to its end. -/
def finish (inv : Invocation F) : Option (Invocation F) := do
  let n ← inv.n
  if n < inv.i ∧ inv.returned = false then some { inv with returned := true } else none

def step (w : Wrapper F) (mutex : Policy) (s : LockedWorld F) : LockedAct F → Option (LockedWorld F)
  | .construct => s.make (some (s.heap, {}))
  | .constructFrom fuel c =>
    s.make (construct (wrap w fuel) s.heap (.locked mutex) c.type (.callable c)).toOption
  | .constructMethod pObject pFn f => s.make do
    let (h, current) := s.heap.newList
    let h ← h.add current ⟨pObject, pFn, f⟩
    some (h, { current := some current })
  | .copy fuel delegate => do
    let delegate ← s.delegates.get delegate
    s.make (copyConstruct w mutex fuel s.heap delegate).toOption
  | .destroy d => do
    let d' ← s.delegates.get d
    -- a delegate that runs is not destroyed
    if ∃ inv ∈ s.invocations, inv.running ∧ inv.delegate = d then none
    else do
      let h ← (d'.current.toList ++ d'.deleteList).foldlM Heap.deleteList s.heap
      some { s with heap := h, delegates := s.delegates.free d }
  | .operate fuel op d c => do
    let d' ← s.delegates.get d
    s.put d (operate w mutex fuel op s.heap d' c.type (.callable c)).toOption
  | .operateDelegate fuel op d delegate cls => do
    let operand ← s.delegates.get delegate
    let d' ← s.delegates.get d
    if cls = .base ∨ cls = .locked mutex then
      s.put d (operate w mutex fuel op s.heap d' (.object cls)
        (.delegate operand (d = delegate))).toOption
    else none
  | .trimExcess d => do
    let d' ← s.delegates.get d
    let h ← d'.deleteList.foldlM Heap.deleteList s.heap
    some { s with heap := h, delegates := s.delegates.set d { d' with deleteList := [] } }
  | .load d => do
    let methodList ← (← s.delegates.get d).current
    some { s with invocations := s.invocations ++
      [{ delegate := d, methodList := methodList, entries := s.heap.visible methodList }] }
  | .call j => do
    let inv ← s.invocations[j]?
    let inv ← callNext s.heap inv
    some { s with invocations := s.invocations.set j inv }
  | .finish j => do
    let inv ← s.invocations[j]?
    let inv ← finish inv
    some { s with invocations := s.invocations.set j inv }

/-- What the delegates show. -/
def plain (s : LockedWorld F) : Slots (List (Method F)) := s.delegates.map s.heap.contents

end LockedWorld

/-- Callables that do nothing. -/
def unitWrapper : Wrapper Unit := ⟨fun _ => 0, fun _ => ()⟩

/-- What an operator makes of two lists. -/
def Operator.result (op : Operator) (entries operand : List (Method F)) : List (Method F) :=
  match op with
  | .assign => operand
  | .add => entries ++ operand
  | .remove => KeyedLists.subtract Method.key entries (operand.map Method.key)

end VideoPlayerCore
