import VideoPlayerCore.DelegateRefines

/-!
# Invocations of a delegate, handler by handler

The loop of `_Delegate::operator()`.  Handlers are user code: while one runs, it may
change any delegate, also the one that called it, and invoke it again.  A handler that
throws takes its invocation with it; the handler around it goes on or throws in turn.

Beside it the plain lists: an invocation goes through the list that it began with
(PlainNest).
-/

namespace VideoPlayerCore

open Machine

variable {F : Type}

/-- `(*methodList)[i]`, which has to be constructed. -/
def Heap.methodAt (h : Heap F) (methodList i : Nat) : Option (Method F) := do
  let l ← h.lists.get methodList
  let a ← h.arrays.get l.array
  a.data[i]?

/-- The locals of a running `operator()`, its list aside. -/
structure Frame (F : Type) where
  /-- `GetSize() - 1` -/
  n : Nat
  i : Nat := 0
  /-- the handler of entry `i` runs -/
  inHandler : Bool := false
  /-- the handlers that were called -/
  called : List (Method F) := []
  /-- what was visible in the list at the start -/
  entries : List (Method F)
  deriving DecidableEq

/-- An invocation that has ended. -/
structure Ended (F : Type) where
  entries : List (Method F)
  called : List (Method F)
  threw : Bool
  deriving DecidableEq

inductive CallAct (F : Type)
  /-- user code: an operation on a delegate; an `operator()` begins with `invoke` -/
  | run (a : DelegateAct F)
  /-- the innermost invocation calls its next handler -/
  | call
  | handlerReturns
  | handlerThrows

structure Nest (F : Type) where
  world : World F := {}
  /-- one for each invocation that is running, the innermost first -/
  frames : List (Frame F) := []
  ended : List (Ended F) := []

namespace Frame

/-- The frame calls the handler `m`. -/
def enter (f : Frame F) (m : Method F) : Frame F :=
  { f with inHandler := true, called := f.called ++ [m] }

/-- The handler returned and was not the last. -/
def next (f : Frame F) : Frame F := { f with i := f.i + 1, inHandler := false }

def close (f : Frame F) (threw : Bool) : Ended F := ⟨f.entries, f.called, threw⟩

end Frame

/-- User code runs outside of all invocations and in the innermost handler. -/
def inUserCode : List (Frame F) → Bool
  | [] => true
  | f :: _ => f.inHandler

namespace Nest

/-- `operator()` up to its loop -/
def start (s : Nest F) (d : Nat) : Option (Nest F) := do
  let w ← s.world.step (.invoke d)
  let (_, methodList) ← w.running.head?
  match (← w.heap.lists.get methodList).size with
  | 0 => none
  | n + 1 => some { s with
      world := w, frames := { n := n, entries := w.heap.visible methodList } :: s.frames }

/-- The innermost invocation is left; `Defer` releases its list. -/
def leave (s : Nest F) (f : Frame F) (frames : List (Frame F)) (threw : Bool) :
    Option (Nest F) := do
  let w ← s.world.step .finish
  some { world := w, frames := frames, ended := s.ended ++ [f.close threw] }

def step (s : Nest F) : CallAct F → Option (Nest F)
  | .run a =>
    if inUserCode s.frames then
      match a with
      | .finish => none
      | .invoke d => s.start d
      | a => (s.world.step a).map fun w => { s with world := w }
    else none
  | .call =>
    match s.frames with
    | f :: frames =>
      if f.inHandler then none
      else do
        let (_, methodList) ← s.world.running.head?
        let m ← s.world.heap.methodAt methodList f.i
        some { s with frames := f.enter m :: frames }
    | [] => none
  | .handlerReturns =>
    match s.frames with
    | f :: frames =>
      if f.inHandler then
        if f.i < f.n then some { s with frames := f.next :: frames }
        else s.leave f frames false
      else none
    | [] => none
  | .handlerThrows =>
    match s.frames with
    | f :: frames => if f.inHandler then s.leave f frames true else none
    | [] => none

end Nest

/-- The delegate whose `SetMethodList` an operator calls, if it calls it. -/
def World.setsList (w : World F) : DelegateAct F → Option Nat
  | .assign d _ => some d
  | .assignDelegate d delegate => if d = delegate then none else some d
  | .add d _ => some d
  | .addDelegate d delegate =>
    ((w.delegates.get delegate).bind Delegate.current).map fun _ => d
  | .remove d _ => ((w.delegates.get d).bind Delegate.current).map fun _ => d
  | .removeDelegate d delegate => do
    let _ ← (w.delegates.get d).bind Delegate.current
    if d = delegate then some d
    else ((w.delegates.get delegate).bind Delegate.current).map fun _ => d
  | _ => none

/-! ## Plain lists -/

structure PlainNest (F : Type) where
  plain : Plain F := {}
  frames : List (Frame F) := []
  ended : List (Ended F) := []

namespace PlainNest

/-- An invocation goes through all the entries of the delegate. -/
def start (p : PlainNest F) (d : Nat) : Option (PlainNest F) := do
  let plain ← p.plain.step (.invoke d)
  let (_, entries) ← plain.running.head?
  some { p with
    plain := plain, frames := { n := entries.length - 1, entries := entries } :: p.frames }

def leave (p : PlainNest F) (f : Frame F) (frames : List (Frame F)) (threw : Bool) :
    Option (PlainNest F) := do
  let plain ← p.plain.step .finish
  some { plain := plain, frames := frames, ended := p.ended ++ [f.close threw] }

def step (p : PlainNest F) : CallAct F → Option (PlainNest F)
  | .run a =>
    if inUserCode p.frames then
      match a with
      | .finish => none
      | .invoke d => p.start d
      | a => (p.plain.step a).map fun plain => { p with plain := plain }
    else none
  | .call =>
    match p.frames with
    | f :: frames =>
      if f.inHandler then none
      else (f.entries[f.i]?).map fun m => { p with frames := f.enter m :: frames }
    | [] => none
  | .handlerReturns =>
    match p.frames with
    | f :: frames =>
      if f.inHandler then
        if f.i < f.n then some { p with frames := f.next :: frames }
        else p.leave f frames false
      else none
    | [] => none
  | .handlerThrows =>
    match p.frames with
    | f :: frames => if f.inHandler then p.leave f frames true else none
    | [] => none

end PlainNest

/-- What the client sees of it. -/
def Nest.plain (s : Nest F) : PlainNest F := ⟨s.world.plain, s.frames, s.ended⟩

end VideoPlayerCore
