import VideoPlayerCore.DelegateHeap
import VideoPlayerCore.Machine

/-!
# Delegates and what a client does with them

The operations of `_Delegate` on the heap of method lists, one by one, between and
inside invocations: a handler is free to change the delegate that calls it.  Beside them
the plain lists that a client has in mind (Plain).
-/

namespace VideoPlayerCore

open KeyedLists Machine

variable {F : Type}

/-- What an operator takes besides delegates. -/
inductive Callable (F : Type)
  /-- a lambda or another functor; its type's `hash_code` -/
  | functor (hashCode : Nat) (f : F)
  /-- a `std::function`; the function pointer that it holds, if it holds one -/
  | function (target : Option Nat) (hashCode : Nat) (f : F)
  | pointer (address : Nat) (f : F)

/-- The entry that is added for it; its key is what is searched for to remove it. -/
def Callable.entry : Callable F → Method F
  | .functor hashCode f => ⟨hashCode, 0, f⟩
  | .function (some target) _ f => ⟨0, target, f⟩
  | .function none hashCode f => ⟨hashCode, 0, f⟩
  | .pointer address f => ⟨0, address, f⟩

structure Delegate where
  current : Option Nat := none
  deleteList : List Nat := []
  deriving DecidableEq

namespace Heap

/-- The loop of `SetMethodList` over `_deleteList`. -/
def purge (h : Heap F) : List Nat → Option (Heap F × List Nat)
  | [] => some (h, [])
  | list :: deleteList => do
    let l ← h.lists.get list
    if l.refCount = 1 then purge (← h.deleteList list) deleteList
    else
      let (h, deleteList) ← purge h deleteList
      some (h, list :: deleteList)

/-- What `SetMethodList` does with the list that is replaced; the result is `_deleteList`. -/
def retire (h : Heap F) (d : Delegate) (methodList : Option Nat) : Option (Heap F × List Nat) :=
  match d.current with
  | some current =>
    if methodList = some current then some (h, d.deleteList)
    else do
      let l ← h.lists.get current
      if l.refCount = 1 then (h.deleteList current).map fun h => (h, d.deleteList)
      else some (h, d.deleteList ++ [current])
  | none => some (h, d.deleteList)

/-- `SetMethodList(methodList)` -/
def setMethodList (h : Heap F) (d : Delegate) (methodList : Option Nat) :
    Option (Heap F × Delegate) := do
  let (h, deleteList) ← h.retire d methodList
  let (h, deleteList) ← h.purge deleteList
  some (h, { current := methodList, deleteList := deleteList })

/-- `SetValueInternal` of a callable -/
def setValueInternal (h : Heap F) (d : Delegate) (m : Method F) : Option (Heap F × Delegate) := do
  let (h, methodList) := h.newList
  let h ← h.add methodList m
  h.setMethodList d (some methodList)

/-- `SetValueInternal` of another delegate -/
def setValueDelegate (h : Heap F) (d delegate : Delegate) : Option (Heap F × Delegate) :=
  match delegate.current with
  | some methodList => do
    let (h, methodListNew) := h.newList
    let h ← h.addList methodListNew methodList
    h.setMethodList d (some methodListNew)
  | none => h.setMethodList d none

/-- `_current ? new MethodList(*_current) : new MethodList()` -/
def copyCurrent (h : Heap F) (d : Delegate) : Option (Heap F × Nat) :=
  match d.current with
  | some current => h.copyList current
  | none => some h.newList

/-- `AddInternal` of a callable -/
def addInternal (h : Heap F) (d : Delegate) (m : Method F) : Option (Heap F × Delegate) := do
  let (h, methodList) ← h.copyCurrent d
  let h ← h.add methodList m
  h.setMethodList d (some methodList)

/-- `AddInternal` of a delegate -/
def addDelegate (h : Heap F) (d delegate : Delegate) : Option (Heap F × Delegate) :=
  match delegate.current with
  | some methodList => do
    let (h, newMethodList) ← h.copyCurrent d
    let h ← h.addList newMethodList methodList
    h.setMethodList d (some newMethodList)
  | none => some (h, d)

/-- `RemoveInternal` of a callable -/
def removeInternal (h : Heap F) (d : Delegate) (key : Nat × Nat) : Option (Heap F × Delegate) :=
  match d.current with
  | some current => do
    let (h, methodList) ← h.remove current key
    h.setMethodList d methodList
  | none => some (h, d)

/-- `RemoveInternal` of another delegate -/
def removeDelegate (h : Heap F) (d delegate : Delegate) : Option (Heap F × Delegate) :=
  match d.current, delegate.current with
  | some current, some methodList => do
    let (h, methodList) ← h.removeList current methodList
    h.setMethodList d methodList
  | _, _ => some (h, d)

/-- `AddRef` and `RemoveRef` of a list -/
def addRef (h : Heap F) (list : Nat) : Option (Heap F) := do
  let l ← h.lists.get list
  some { h with lists := h.lists.set list { l with refCount := l.refCount + 1 } }

def removeRef (h : Heap F) (list : Nat) : Option (Heap F) := do
  let l ← h.lists.get list
  some { h with lists := h.lists.set list { l with refCount := l.refCount - 1 } }

end Heap

/-! ## The client -/

inductive DelegateAct (F : Type)
  | construct
  | constructFrom (c : Callable F)
  /-- from an object and a method of it -/
  | constructMethod (pObject pFn : Nat) (f : F)
  | copy (delegate : Nat)
  | destroy (d : Nat)
  | assign (d : Nat) (c : Callable F)
  | assignDelegate (d delegate : Nat)
  | add (d : Nat) (c : Callable F)
  | addDelegate (d delegate : Nat)
  | remove (d : Nat) (c : Callable F)
  | removeDelegate (d delegate : Nat)
  /-- an invocation of `d` begins -/
  | invoke (d : Nat)
  /-- the innermost invocation ends -/
  | finish

structure World (F : Type) where
  heap : Heap F := {}
  delegates : Slots Delegate := {}
  /-- the invocations that are running, the innermost first: the delegate and its list -/
  running : List (Nat × Nat) := []

namespace World

/-- A constructor. -/
def make (w : World F) (f : Heap F → Option (Heap F × Delegate)) : Option (World F) := do
  let (h, d) ← f w.heap
  some { w with heap := h, delegates := w.delegates.alloc d }

/-- An operator of the delegate `d`. -/
def edit (w : World F) (d : Nat) (f : Heap F → Delegate → Option (Heap F × Delegate)) :
    Option (World F) := do
  let (h, d') ← f w.heap (← w.delegates.get d)
  some { w with heap := h, delegates := w.delegates.set d d' }

def step (w : World F) : DelegateAct F → Option (World F)
  | .construct => w.make fun h => some (h, {})
  | .constructFrom c => w.make fun h => h.setValueInternal {} c.entry
  | .constructMethod pObject pFn f => w.make fun h => do
    let (h, current) := h.newList
    let h ← h.add current ⟨pObject, pFn, f⟩
    some (h, { current := some current })
  | .copy delegate => do
    let delegate ← w.delegates.get delegate
    w.make fun h =>
      match delegate.current with
      | some methodList => do
        let (h, current) := h.newList
        let h ← h.addList current methodList
        some (h, { current := some current })
      | none => some (h, {})
  | .destroy d => do
    let d' ← w.delegates.get d
    -- a delegate that runs is not destroyed
    if d ∈ w.running.map Prod.fst then none
    else do
      let h ← (d'.current.toList ++ d'.deleteList).foldlM Heap.deleteList w.heap
      some { w with heap := h, delegates := w.delegates.free d }
  | .assign d c => w.edit d fun h d => h.setValueInternal d c.entry
  | .assignDelegate d delegate => do
    let operand ← w.delegates.get delegate
    w.edit d fun h d' => if d = delegate then some (h, d') else h.setValueDelegate d' operand
  | .add d c => w.edit d fun h d => h.addInternal d c.entry
  | .addDelegate d delegate => do
    let operand ← w.delegates.get delegate
    w.edit d fun h d' => h.addDelegate d' operand
  | .remove d c => w.edit d fun h d => h.removeInternal d c.entry.key
  | .removeDelegate d delegate => do
    let operand ← w.delegates.get delegate
    w.edit d fun h d' =>
      if d'.current = none then some (h, d')
      else if d = delegate then h.setMethodList d' none
      else h.removeDelegate d' operand
  | .invoke d => do
    let methodList ← (← w.delegates.get d).current
    let h ← w.heap.addRef methodList
    some { w with heap := h, running := (d, methodList) :: w.running }
  | .finish =>
    match w.running with
    | [] => none
    | (_, methodList) :: running => do
      let h ← w.heap.removeRef methodList
      some { w with heap := h, running := running }

end World

/-! ## Plain lists -/

/-- What a client has in mind: each delegate is a list, a running invocation goes through
the list that it began with. -/
structure Plain (F : Type) where
  delegates : Slots (List (Method F)) := {}
  running : List (Nat × List (Method F)) := []

def Plain.step (p : Plain F) : DelegateAct F → Option (Plain F)
  | .construct => some { p with delegates := p.delegates.alloc [] }
  | .constructFrom c => some { p with delegates := p.delegates.alloc [c.entry] }
  | .constructMethod pObject pFn f =>
    some { p with delegates := p.delegates.alloc [⟨pObject, pFn, f⟩] }
  | .copy delegate => do
    let entries ← p.delegates.get delegate
    some { p with delegates := p.delegates.alloc entries }
  | .destroy d => do
    let _ ← p.delegates.get d
    if d ∈ p.running.map Prod.fst then none
    else some { p with delegates := p.delegates.free d }
  | .assign d c => do
    let _ ← p.delegates.get d
    some { p with delegates := p.delegates.set d [c.entry] }
  | .assignDelegate d delegate => do
    let operand ← p.delegates.get delegate
    let _ ← p.delegates.get d
    some { p with delegates := p.delegates.set d operand }
  | .add d c => do
    let entries ← p.delegates.get d
    some { p with delegates := p.delegates.set d (entries ++ [c.entry]) }
  | .addDelegate d delegate => do
    let operand ← p.delegates.get delegate
    let entries ← p.delegates.get d
    some { p with delegates := p.delegates.set d (entries ++ operand) }
  | .remove d c => do
    let entries ← p.delegates.get d
    some { p with delegates := p.delegates.set d (removeLast Method.key c.entry.key entries) }
  | .removeDelegate d delegate => do
    let operand ← p.delegates.get delegate
    let entries ← p.delegates.get d
    some { p with
      delegates := p.delegates.set d (subtract Method.key entries (operand.map Method.key)) }
  | .invoke d => do
    let entries ← p.delegates.get d
    if entries = [] then none
    else some { p with running := (d, entries) :: p.running }
  | .finish =>
    match p.running with
    | [] => none
    | _ :: running => some { p with running := running }

end VideoPlayerCore
