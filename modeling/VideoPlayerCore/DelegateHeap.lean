import VideoPlayerCore.KeyedLists
import VideoPlayerCore.Slots

/-!
# Method lists on the heap

`SharedArray` and `MethodList` of the delegates.  Versions of a list share an array;
each version sees the entries below its own `_size`.  An operation that would construct
an entry at or above the capacity of its array, read an entry that is not constructed
or touch a deleted object has no result here.
-/

namespace VideoPlayerCore

open KeyedLists

variable {F : Type}

structure Method (F : Type) where
  /-- 0 is `nullptr` -/
  pObject : Nat
  pMethodAdress : Nat
  method : F
  deriving DecidableEq

/-- What `Method::operator==` compares. -/
def Method.key (m : Method F) : Nat × Nat := (m.pObject, m.pMethodAdress)

/-! ## SharedArray -/

/-- The entries that are constructed, `_size` of them. -/
structure SharedArray (F : Type) where
  data : List (Method F)
  capacity : Nat
  refCount : Nat
  size_le : data.length ≤ capacity
  deriving DecidableEq

namespace SharedArray

/-- `new SharedArray(cap)` -/
def new (cap : Nat) : SharedArray F := ⟨[], cap, 1, Nat.zero_le cap⟩

def size (a : SharedArray F) : Nat := a.data.length

/-- The entries from `start` on, all of them constructed. -/
def range (a : SharedArray F) (start len : Nat) : Option (List (Method F)) :=
  if start + len ≤ a.size then some ((a.data.drop start).take len) else none

/-- Placement new of entries at the end. -/
def construct (a : SharedArray F) (entries : List (Method F)) : Option (SharedArray F) :=
  if h : a.data.length + entries.length ≤ a.capacity then
    some { a with data := a.data ++ entries, size_le := by rw [List.length_append]; exact h }
  else none

/-- `PushBack(m)` -/
def pushBack (a : SharedArray F) (m : Method F) : Option (SharedArray F) := a.construct [m]

/-- `PushBack(array, start, len)` -/
def pushBackRange (a array : SharedArray F) (start len : Nat) : Option (SharedArray F) :=
  (array.range start len).bind a.construct

/-- `*this = array`, for a `this` without entries -/
def assign (a array : SharedArray F) : Option (SharedArray F) := a.construct array.data

end SharedArray

/-! ## MethodList -/

structure MethodList where
  array : Nat
  size : Nat
  refCount : Nat := 1
  deriving DecidableEq

/-- The arrays and lists that are alive. -/
structure Heap (F : Type) where
  arrays : Slots (SharedArray F) := {}
  lists : Slots MethodList := {}
  deriving DecidableEq

namespace Heap

/-- `Release` of an array -/
def release (h : Heap F) (array : Nat) : Option (Heap F) := do
  let a ← h.arrays.get array
  if a.refCount - 1 = 0 then some { h with arrays := h.arrays.free array }
  else some { h with arrays := h.arrays.set array { a with refCount := a.refCount - 1 } }

/-- `MethodList()` -/
def newList (h : Heap F) : Heap F × Nat :=
  ({ arrays := h.arrays.alloc (.new 4), lists := h.lists.alloc ⟨h.arrays.fresh, 0, 1⟩ },
    h.lists.fresh)

/-- `MethodList(methodList)` -/
def copyList (h : Heap F) (list : Nat) : Option (Heap F × Nat) := do
  let l ← h.lists.get list
  let a ← h.arrays.get l.array
  some ({ arrays := h.arrays.set l.array { a with refCount := a.refCount + 1 },
          lists := h.lists.alloc ⟨l.array, l.size, 1⟩ }, h.lists.fresh)

/-- `~MethodList()` -/
def deleteList (h : Heap F) (list : Nat) : Option (Heap F) := do
  let l ← h.lists.get list
  let h ← h.release l.array
  some { h with lists := h.lists.free list }

/-- Makes `temp`, which was local so far, the array of a list. -/
def install (h : Heap F) (list : Nat) (temp : SharedArray F) (size : Nat) : Option (Heap F) := do
  let l ← h.lists.get list
  some { arrays := h.arrays.alloc temp,
         lists := h.lists.set list { l with array := h.arrays.fresh, size := size } }

/-- `_array->PushBack(..)` on the array of a list, and its `_size` after it. -/
def extend (h : Heap F) (list : Nat) (entries : List (Method F)) : Option (Heap F) := do
  let l ← h.lists.get list
  let a ← h.arrays.get l.array
  let a ← a.construct entries
  some { arrays := h.arrays.set l.array a,
         lists := h.lists.set list { l with size := l.size + entries.length } }

/-- `Add(method)` -/
def add (h : Heap F) (list : Nat) (method : Method F) : Option (Heap F) := do
  let l ← h.lists.get list
  let a ← h.arrays.get l.array
  let h ←
    if l.size < a.size then do
      let temp ← (SharedArray.new (l.size * 2)).pushBackRange a 0 l.size
      (← h.release l.array).install list temp l.size
    else if a.size = a.capacity then do
      let temp ← (SharedArray.new (a.capacity * 2)).assign a
      (← h.release l.array).install list temp l.size
    else some h
  h.extend list [method]

/-- `Add(methodList)` -/
def addList (h : Heap F) (list methodList : Nat) : Option (Heap F) := do
  let l ← h.lists.get list
  let a ← h.arrays.get l.array
  let other ← h.lists.get methodList
  let nSize := l.size + other.size
  let h ←
    if l.size < a.size then do
      let temp ← (SharedArray.new (nSize * 2)).pushBackRange a 0 l.size
      (← h.release l.array).install list temp l.size
    else if a.capacity - 1 ≤ nSize then do
      let temp ← (SharedArray.new (nSize * 2)).assign a
      (← h.release l.array).install list temp l.size
    else some h
  let other ← h.lists.get methodList
  let entries ← (← h.arrays.get other.array).range 0 other.size
  h.extend list entries

/-- The loop of `Remove` from entry `n - 1` down: the entry with the key, if there is one. -/
def findLast (a : SharedArray F) (key : Nat × Nat) : Nat → Option (Option Nat)
  | 0 => some none
  | i + 1 => do
    let m ← a.data[i]?
    if m.key = key then some (some i) else findLast a key i

/-- `Remove(pObject, pMethodAdress)`; the result is the list to go on with, or `nullptr`. -/
def remove (h : Heap F) (list : Nat) (key : Nat × Nat) : Option (Heap F × Option Nat) := do
  let l ← h.lists.get list
  let a ← h.arrays.get l.array
  match l.size with
  | 0 => none
  | count + 1 =>
    let last ← a.data[count]?
    if last.key = key then
      if count = 0 then some (h, none)
      else do
        let (h, copy) ← h.copyList list
        some ({ h with lists := h.lists.set copy ⟨l.array, count, 1⟩ }, some copy)
    else
      match ← findLast a key count with
      | some i => do
        let (h, copy) ← h.copyList list
        let temp ← (SharedArray.new (count * 2)).pushBackRange a 0 i
        let temp ← temp.pushBackRange a (i + 1) (l.size - i - 1)
        let h ← (← h.release l.array).install copy temp count
        some (h, some copy)
      | none => some (h, some list)

/-! ## Remove of a whole list -/

/-- `std::map<void*, std::map<void*, int>>` -/
abbrev SearchMap := Nat → Option (Nat → Option Int)

/-- One pass of the loop that counts the entries of the operand. -/
def SearchMap.count (searchMap : SearchMap) (m : Method F) : SearchMap :=
  let interMap := (searchMap m.pObject).getD fun _ => none
  let count := match interMap m.pMethodAdress with
    | some n => n + 1
    | none => 1
  Function.update searchMap m.pObject
    (some (Function.update interMap m.pMethodAdress (some count)))

/-- The loop over the own entries from `n - 1` down, with what it pushes back. -/
def leftIndexes (a : SharedArray F) : SearchMap → Nat → Option (List Nat)
  | _, 0 => some []
  | searchMap, i + 1 => do
    let m ← a.data[i]?
    match searchMap m.pObject with
    | some interMap =>
      match interMap m.pMethodAdress with
      | some n =>
        if n - 1 > -1 then
          leftIndexes a (Function.update searchMap m.pObject
            (some (Function.update interMap m.pMethodAdress (some (n - 1))))) i
        else
          (leftIndexes a (Function.update searchMap m.pObject
            (some (Function.update interMap m.pMethodAdress none))) i).map (i :: ·)
      | none => (leftIndexes a searchMap i).map (i :: ·)
    | none => (leftIndexes a searchMap i).map (i :: ·)

/-- The loop that pushes the left entries to the new array. -/
def pushLeft (newArray a : SharedArray F) : List Nat → Option (SharedArray F)
  | [] => some newArray
  | i :: indexes => do
    let m ← a.data[i]?
    pushLeft (← newArray.pushBack m) a indexes

/-- `Remove(methodList)` -/
def removeList (h : Heap F) (list methodList : Nat) : Option (Heap F × Option Nat) := do
  let l ← h.lists.get list
  let a ← h.arrays.get l.array
  let other ← h.lists.get methodList
  let operand ← (← h.arrays.get other.array).range 0 other.size
  match operand with
  | [m] => h.remove list m.key
  | _ =>
    let left ← leftIndexes a (operand.foldl SearchMap.count fun _ => none) l.size
    if left.length = l.size then some (h, some list)
    else if left.length < 1 then some (h, none)
    else do
      let (h, copy) ← h.copyList list
      let h ← h.release l.array
      let newArray ← pushLeft (.new left.length) (← h.arrays.get l.array) left.reverse
      let h ← h.install copy newArray left.length
      some (h, some copy)

end Heap

end VideoPlayerCore
