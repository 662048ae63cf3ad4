import VideoPlayerCore.Attempts
import VideoPlayerCore.LockedInvariant

/-!
# Where the operators of a delegate can throw

The operators of `_Delegate_S` once more, with the points at which an allocation or the
copy of a callable may throw and what is then left behind.  A list that was made and has
not become `_current` is lost.  `PushBack(m)` counts the entry before it is copied; if the
copy throws, the `_size` of the array counts an entry that is not constructed.

Every allocation and every copy of a callable is a point here, be it one that cannot throw
(the copy of a function pointer).
-/

namespace VideoPlayerCore

open Attempt Overloads

variable {F : Type}

structure Memory (F : Type) where
  heap : Heap F
  /-- the arrays whose `_size` counts an entry that is not constructed -/
  torn : List Nat := []
  deriving DecidableEq

namespace Memory

/-- A value that is read, if it is there. -/
def value {α : Type} (o : Option α) : Attempt (Memory F) α := reads fun _ => o

def listAt (list : Nat) : Attempt (Memory F) MethodList := reads fun t => t.heap.lists.get list

def arrayAt (array : Nat) : Attempt (Memory F) (SharedArray F) :=
  reads fun t => t.heap.arrays.get array

/-- A change of the heap in which nothing is thrown. -/
def change {α : Type} (f : Heap F → Option (Heap F × α)) : Attempt (Memory F) α :=
  always fun t => (f t.heap).map fun r => (r.2, { t with heap := r.1 })

/-! ## SharedArray and MethodList -/

/-- `new SharedArray(cap)`: the object and its `_data` -/
def newArray : Attempt (Memory F) Unit := points 2

/-- `new MethodList()`: the object and its array -/
def newList : Attempt (Memory F) Nat := do
  points 1
  newArray
  change fun h => some h.newList

/-- `new MethodList(methodList)` -/
def copyList (list : Nat) : Attempt (Memory F) Nat := do
  points 1
  change fun h => h.copyList list

/-- `_array->PushBack(m)`, and `_size++` of the list -/
def pushBack (list : Nat) (m : Method F) : Attempt (Memory F) Unit := do
  let l ← listAt list
  -- `new (_data + _size++) Method(m)`
  leaving fun t => { t with torn := l.array :: t.torn }
  change fun h => (h.extend list [m]).map (·, ())

/-- A list goes on with `temp`, an array of this capacity that `fill` copies `n` entries to. -/
def move (list capacity n : Nat) (fill : SharedArray F → Option (SharedArray F)) :
    Attempt (Memory F) Unit := do
  let l ← listAt list
  newArray
  let temp ← value (fill (.new capacity))
  points n
  change fun h => ((h.release l.array).bind fun h => h.install list temp l.size).map (·, ())

/-- `Add(method)` -/
def add (list : Nat) (method : Method F) : Attempt (Memory F) Unit := do
  let l ← listAt list
  let a ← arrayAt l.array
  (if l.size < a.size then move list (l.size * 2) l.size fun temp => temp.pushBackRange a 0 l.size
    else if a.size = a.capacity then move list (a.capacity * 2) a.size fun temp => temp.assign a
    else pure ())
  pushBack list method

/-- `Add(methodList)` -/
def addList (list methodList : Nat) : Attempt (Memory F) Unit := do
  let l ← listAt list
  let a ← arrayAt l.array
  let other ← listAt methodList
  let nSize := l.size + other.size
  (if l.size < a.size then move list (nSize * 2) l.size fun temp => temp.pushBackRange a 0 l.size
    else if a.capacity - 1 ≤ nSize then move list (nSize * 2) a.size fun temp => temp.assign a
    else pure ())
  let other ← listAt methodList
  let b ← arrayAt other.array
  let entries ← value (b.range 0 other.size)
  -- this `PushBack` counts the entries when all of them are copied
  points other.size
  change fun h => (h.extend list entries).map (·, ())

/-- `Remove(pObject, pMethodAdress)` -/
def remove (list : Nat) (key : Nat × Nat) : Attempt (Memory F) (Option Nat) := do
  let l ← listAt list
  let a ← arrayAt l.array
  match l.size with
  | 0 => never
  | count + 1 =>
    let last ← value a.data[count]?
    if last.key = key then
      if count = 0 then pure none
      else do
        let copy ← copyList list
        change fun h => some ({ h with lists := h.lists.set copy ⟨l.array, count, 1⟩ }, some copy)
    else
      let found ← value (Heap.findLast a key count)
      match found with
      | some i => do
        let copy ← copyList list
        newArray
        let temp ← value ((SharedArray.new (count * 2)).pushBackRange a 0 i)
        points i
        let temp ← value (temp.pushBackRange a (i + 1) (l.size - i - 1))
        points (l.size - i - 1)
        change fun h => ((h.release l.array).bind fun h => h.install copy temp count).map
          (·, some copy)
      | none => pure (some list)

/-- The loop that pushes the left entries to the new array. -/
def pushLeft (list : Nat) (a : SharedArray F) : List Nat → Attempt (Memory F) Unit
  | [] => pure ()
  | i :: indexes => do
    let m ← value a.data[i]?
    pushBack list m
    pushLeft list a indexes

/-- `Remove(methodList)` -/
def removeList (list methodList : Nat) : Attempt (Memory F) (Option Nat) := do
  let l ← listAt list
  let a ← arrayAt l.array
  let other ← listAt methodList
  let b ← arrayAt other.array
  let operand ← value (b.range 0 other.size)
  match operand with
  | [m] => remove list m.key
  | _ => do
    -- `searchMap[..]` and `interMap[..]` may insert a node each
    points (2 * operand.length)
    let left ← value (Heap.leftIndexes a (operand.foldl Heap.SearchMap.count fun _ => none) l.size)
    -- `leftIndexes` grows
    points left.length
    if left.length = l.size then pure (some list)
    else if left.length < 1 then pure none
    else do
      let copy ← copyList list
      newArray
      -- `_size` is written here in the source, and grows with the array here: nobody else
      -- has the list
      change fun h => ((h.release l.array).bind fun h =>
        h.install copy (.new left.length) 0).map (·, ())
      let a ← arrayAt l.array
      pushLeft copy a left.reverse
      pure (some copy)

/-! ## The operators -/

/-- `SetMethodList` of `_Delegate_S` -/
def setMethodList (d : Delegate) (methodList : Option Nat) : Attempt (Memory F) Delegate := do
  -- `_deleteList` grows
  points (if d.current = none ∨ methodList = d.current then 0 else 1)
  change fun h => h.setMethodListS d methodList

/-- `_current ? new MethodList(*_current) : new MethodList()` -/
def copyCurrent (d : Delegate) : Attempt (Memory F) Nat :=
  match d.current with
  | some current => copyList current
  | none => newList

end Memory

open Memory

/-- `XInternal` of a callable with the entry `m` -/
def Operator.tryCallable (op : Operator) (d : Delegate) (m : Method F) :
    Attempt (Memory F) Delegate :=
  match op with
  | .assign => do
    let methodList ← newList
    -- the entry that is handed to `Add`
    points 1
    Memory.add methodList m
    setMethodList d (some methodList)
  | .add => do
    let methodList ← copyCurrent d
    points 1
    Memory.add methodList m
    setMethodList d (some methodList)
  | .remove =>
    match d.current with
    | some current => do
      let methodList ← Memory.remove current m.key
      setMethodList d methodList
    | none => pure d

/-- `XInternal` of a delegate -/
def Operator.tryDelegate (op : Operator) (d delegate : Delegate) (isThis : Bool) :
    Attempt (Memory F) Delegate :=
  match op with
  | .assign =>
    if isThis then pure d
    else
      match delegate.current with
      | some methodList => do
        let methodListNew ← newList
        Memory.addList methodListNew methodList
        setMethodList d (some methodListNew)
      | none => setMethodList d none
  | .add =>
    match delegate.current with
    | some methodList => do
      let newMethodList ← copyCurrent d
      Memory.addList newMethodList methodList
      setMethodList d (some newMethodList)
    | none => pure d
  | .remove =>
    if d.current = none then pure d
    else if isThis then setMethodList d none
    else
      match d.current, delegate.current with
      | some current, some methodList => do
        let left ← Memory.removeList current methodList
        setMethodList d left
      | _, _ => pure d

/-- `std::function<..> function = method`.  The copy of a delegate that it holds is
constructed through another one. -/
def tryWrap : Nat → Operand F → Attempt (Memory F) (Method F)
  | _, .callable c => do
    points 1
    pure c.entry
  | 0, .delegate _ _ => never
  | fuel + 1, .delegate value isThis => do
    points 1
    tryWrap fuel (.delegate value isThis)

/-- `SetValueInternal`, `AddInternal` or `RemoveInternal`, the overload for the static type -/
def tryInternal (fuel : Nat) (op : Operator) (d : Delegate) (type : ArgType)
    (operand : Operand F) : Attempt (Memory F) Delegate :=
  match resolve ArgType.convert internals type, operand with
  | some .template, operand =>
    if op = .remove ∧ d.current = none then pure d
    else do
      let m ← tryWrap fuel operand
      op.tryCallable d m
  | some (.type _), .callable c => op.tryCallable d c.entry
  | some (.type _), .delegate value isThis => op.tryDelegate d value isThis
  | none, _ => never

/-- An operator of a `_Delegate_S<M>`, between `LockInternal` and `UnlockInternal` -/
def tryOperate (mutex : Policy) (fuel : Nat) (op : Operator) (d : Delegate) (type : ArgType)
    (operand : Operand F) : Attempt (Memory F) Delegate :=
  match (type.pass (operatorsS mutex op)).bind fun type => type.pass (operators op) with
  | some type => tryInternal fuel op d type operand
  | none => never

/-! ## Without an exception -/

namespace Memory

@[simp] theorem result_value {α : Type} (o : Option α) (t : Memory F) :
    (value o : Attempt (Memory F) α).result t = o.map fun a => (a, t) := rfl

@[simp] theorem result_listAt (list : Nat) (t : Memory F) :
    (listAt list : Attempt (Memory F) MethodList).result t =
      (t.heap.lists.get list).map fun l => (l, t) := rfl

@[simp] theorem result_arrayAt (array : Nat) (t : Memory F) :
    (arrayAt array : Attempt (Memory F) (SharedArray F)).result t =
      (t.heap.arrays.get array).map fun a => (a, t) := rfl

@[simp] theorem result_change {α : Type} (f : Heap F → Option (Heap F × α)) (t : Memory F) :
    (change f).result t = (f t.heap).map fun r => (r.2, { t with heap := r.1 }) := rfl

variable {list : Nat} {t : Memory F}

@[simp] theorem result_newArray (t : Memory F) : newArray.result t = some ((), t) := rfl

theorem result_newList (t : Memory F) :
    newList.result t = some (t.heap.newList.2, { t with heap := t.heap.newList.1 }) := rfl

@[simp] theorem result_copyList (list : Nat) (t : Memory F) :
    (copyList list).result t =
      (t.heap.copyList list).map fun r => (r.2, { t with heap := r.1 }) := rfl

@[simp] theorem result_pushBack (list : Nat) (m : Method F) (t : Memory F) :
    (pushBack list m).result t =
      (t.heap.extend list [m]).map fun h => ((), { t with heap := h }) := by
  simp only [pushBack, result_bind, result_listAt, result_leaving, result_change]
  cases hl : t.heap.lists.get list with
  | none => simp [Heap.extend, hl]
  | some l => simp [Function.comp_def]

theorem result_move {l : MethodList} (hl : t.heap.lists.get list = some l) (capacity n : Nat)
    (fill : SharedArray F → Option (SharedArray F)) :
    (move list capacity n fill).result t = ((fill (.new capacity)).bind fun temp =>
      (t.heap.release l.array).bind fun h => h.install list temp l.size).map
        fun h => ((), { t with heap := h }) := by
  simp only [move, result_newArray, result_bind, result_listAt, result_points, result_value,
    result_change, hl, Option.map_some, Option.bind_some]
  cases hfill : fill (.new capacity) with
  | none => rfl
  | some temp => simp [Function.comp_def]

theorem result_add (list : Nat) (method : Method F) (t : Memory F) :
    (Memory.add list method).result t =
      (t.heap.add list method).map fun h => ((), { t with heap := h }) := by
  refine result_reads_bind fun l hl => result_reads_bind fun a _ => ?_
  simp only [result_bind, Option.bind_eq_bind]
  split
  · simp [result_move hl, Option.map_bind, Option.bind_map, Option.bind_assoc]
  · split
    · simp [result_move hl, Option.map_bind, Option.bind_map, Option.bind_assoc]
    · simp

theorem result_addList (list methodList : Nat) (t : Memory F) :
    (Memory.addList list methodList).result t =
      (t.heap.addList list methodList).map fun h => ((), { t with heap := h }) := by
  refine result_reads_bind fun l hl => result_reads_bind fun a _ => result_reads_bind
    fun other ho => ?_
  simp only [result_bind, Option.bind_eq_bind]
  split
  · simp [result_move hl, Option.map_bind, Option.bind_map, Function.comp_def, Option.bind_assoc]
  · split
    · simp [result_move hl, Option.map_bind, Option.bind_map, Function.comp_def, Option.bind_assoc]
    · simp [ho, Option.map_bind, Option.bind_map, Function.comp_def]

theorem result_remove (list : Nat) (key : Nat × Nat) (t : Memory F) :
    (Memory.remove list key).result t =
      (t.heap.remove list key).map fun r => (r.2, { t with heap := r.1 }) := by
  refine result_reads_bind fun l _ => result_reads_bind fun a _ => ?_
  cases l.size with
  | zero => rfl
  | succ count =>
    refine result_reads_bind fun last _ => ?_
    split
    · split
      · rfl
      · simp [Option.map_bind, Option.bind_map]
    · refine result_reads_bind fun found _ => ?_
      cases found with
      | none => rfl
      | some i => simp [Option.map_eq_bind, Option.bind_assoc]

/-- The new array of a list is pushed to. -/
theorem extend_install {g h₁ : Heap F} {temp : SharedArray F} {n : Nat}
    (h : g.install list temp n = some h₁) (m : Method F) :
    h₁.extend list [m] = (temp.pushBack m).bind fun temp => g.install list temp (n + 1) := by
  obtain ⟨l, hl, h⟩ := Option.bind_eq_some_iff.mp h
  obtain rfl := Option.some.inj h
  have hlist := Slots.get_set hl { l with array := g.arrays.fresh, size := n } list
  rw [if_pos rfl] at hlist
  have hnew := Slots.get_alloc g.arrays temp g.arrays.fresh
  rw [if_pos rfl] at hnew
  simp only [Heap.extend, Heap.install, hlist, hnew, hl, Option.bind_eq_bind, Option.bind_some,
    SharedArray.pushBack, Slots.set_alloc, Slots.set_set, List.length_singleton]

theorem result_pushLeft {g h₁ : Heap F} {temp : SharedArray F} {n : Nat}
    (h : g.install list temp n = some h₁) (a : SharedArray F) (indexes torn : List Nat) :
    (pushLeft list a indexes).result ⟨h₁, torn⟩ =
      ((Heap.pushLeft temp a indexes).bind fun temp =>
        g.install list temp (n + indexes.length)).map fun h => ((), ⟨h, torn⟩) := by
  induction indexes generalizing temp n h₁ with
  | nil => simp [pushLeft, Heap.pushLeft, h]
  | cons i indexes ih =>
    simp only [pushLeft, Heap.pushLeft, result_bind, result_value, Option.bind_eq_bind]
    cases a.data[i]? with
    | none => rfl
    | some m =>
      simp only [Option.map_some, Option.bind_some, result_pushBack, extend_install h]
      cases hpush : temp.pushBack m with
      | none => rfl
      | some temp' =>
        obtain ⟨l, hl, -⟩ := Option.bind_eq_some_iff.mp h
        obtain ⟨h₂, h'⟩ : ∃ h₂, g.install list temp' (n + 1) = some h₂ :=
          ⟨_, by rw [Heap.install, hl]; rfl⟩
        simp only [Option.bind_some, h', Option.map_some, ih h', List.length_cons]
        rw [Nat.add_assoc, Nat.add_comm 1]

/-- The copy can be given another array. -/
theorem install_copy {h h₁ h₂ : Heap F} {copy i : Nat} {l : MethodList} {a : SharedArray F}
    (hl : h.lists.get list = some l) (ha : h.arrays.get l.array = some a)
    (hcopy : h.copyList list = some (h₁, copy)) (hrelease : h₁.release i = some h₂)
    (temp : SharedArray F) (n : Nat) :
    ∃ h₃, h₂.install copy temp n = some h₃ ∧
      h₃.arrays.get l.array = h₂.arrays.get l.array := by
  simp only [Heap.copyList, hl, ha, Option.bind_eq_bind, Option.bind_some, Option.some.injEq,
    Prod.mk.injEq] at hcopy
  obtain ⟨rfl, rfl⟩ := hcopy
  obtain ⟨b, hb, -⟩ := Option.bind_eq_some_iff.mp hrelease
  obtain ⟨h₂', hrelease', hlists, hfresh, -⟩ := Heap.release_eq hb
  obtain rfl := Option.some.inj (hrelease.symm.trans hrelease')
  have hnew : h₂.lists.get h.lists.fresh = some ⟨l.array, l.size, 1⟩ := by
    rw [hlists, Slots.get_alloc, if_pos rfl]
  refine ⟨_, by rw [Heap.install, hnew]; rfl, ?_⟩
  rw [Slots.get_alloc, if_neg]
  rw [hfresh, Slots.fresh_set]
  exact Nat.ne_of_lt (Slots.lt_fresh ha)

theorem result_removeList (list methodList : Nat) (t : Memory F) :
    (Memory.removeList list methodList).result t =
      (t.heap.removeList list methodList).map fun r => (r.2, { t with heap := r.1 }) := by
  refine result_reads_bind fun l hl => result_reads_bind fun a ha => result_reads_bind
    fun other _ => ?_
  rw [Option.bind_eq_bind]
  refine result_reads_bind fun b _ => result_reads_bind fun operand _ => ?_
  dsimp only
  split
  · exact result_remove _ _ _
  · rw [result_bind, result_points]
    -- the operand is no single entry on the right side either
    simp only [Option.bind_some]
    refine result_reads_bind fun left _ => ?_
    rw [result_bind, result_points, Option.bind_some]
    split
    · rfl
    · split
      · rfl
      · simp only [result_bind, result_copyList, result_newArray, result_change]
        cases hcopy : t.heap.copyList list with
        | none => rfl
        | some r =>
          obtain ⟨h₁, copy⟩ := r
          simp only [Option.map_some, Option.bind_some, Option.bind_eq_bind]
          cases hrelease : h₁.release l.array with
          | none => rfl
          | some h₂ =>
            simp only [Option.bind_some]
            obtain ⟨h₃, hinstall, harr⟩ :=
              install_copy hl ha hcopy hrelease (.new left.length) 0
            rw [hinstall]
            simp only [Option.map_some, Option.bind_some, result_arrayAt, harr]
            cases h₂.arrays.get l.array with
            | none => rfl
            | some b =>
              simp only [Option.map_some, Option.bind_some, result_pushLeft hinstall]
              simp [Option.map_bind, Option.bind_map, Option.bind_assoc]

theorem result_setMethodList (d : Delegate) (o : Option Nat) (t : Memory F) :
    (Memory.setMethodList d o).result t =
      (t.heap.setMethodListS d o).map fun r => (r.2, { t with heap := r.1 }) := rfl

theorem result_copyCurrent (d : Delegate) (t : Memory F) :
    (copyCurrent d).result t =
      (t.heap.copyCurrent d).map fun r => (r.2, { t with heap := r.1 }) := by
  unfold copyCurrent Heap.copyCurrent
  cases d.current <;> rfl

end Memory

open Memory

theorem result_tryCallable (op : Operator) (d : Delegate) (m : Method F) (t : Memory F) :
    (op.tryCallable d m).result t =
      (op.callable Heap.setMethodListS t.heap d m).map fun r => (r.2, { t with heap := r.1 }) := by
  cases op with
  | assign =>
    simp [Operator.tryCallable, Operator.callable, Heap.setValueBy, result_newList, result_add,
      result_setMethodList, Option.map_bind, Option.bind_map]
  | add =>
    simp [Operator.tryCallable, Operator.callable, Heap.addBy, result_copyCurrent, result_add,
      result_setMethodList, Option.map_bind, Option.bind_map]
  | remove =>
    unfold Operator.tryCallable Operator.callable Heap.removeBy
    cases hc : d.current with
    | none => simp
    | some current =>
      simp [result_remove, result_setMethodList, Option.map_bind, Option.bind_map]

theorem result_tryDelegate (op : Operator) (d delegate : Delegate) (isThis : Bool)
    (t : Memory F) :
    (op.tryDelegate d delegate isThis).result t =
      (op.delegate Heap.setMethodListS t.heap d delegate isThis).map
        fun r => (r.2, { t with heap := r.1 }) := by
  unfold Operator.tryDelegate Operator.delegate
  cases op with
  | assign =>
    dsimp only
    split
    · rfl
    · unfold Heap.setValueDelegateBy
      cases delegate.current with
      | none => rfl
      | some methodList =>
        simp [result_newList, result_addList, result_setMethodList, Option.map_bind,
          Option.bind_map]
  | add =>
    unfold Heap.addDelegateBy
    cases delegate.current with
    | none => rfl
    | some methodList =>
      simp [result_copyCurrent, result_addList, result_setMethodList, Option.map_bind,
        Option.bind_map]
  | remove =>
    dsimp only
    split
    · rfl
    · split
      · rfl
      · unfold Heap.removeDelegateBy
        cases d.current with
        | none => rfl
        | some current =>
          cases delegate.current with
          | none => rfl
          | some methodList =>
            simp [result_removeList, result_setMethodList, Option.map_bind, Option.bind_map]

/-! ## What is wrapped -/

/-- How many points there are before the overload's own. -/
def Callable.wraps : Callable F → Nat
  | .functor _ _ => 1
  | .function _ _ _ => 0
  | .pointer _ _ => 0

section

variable (mutex : Policy) (fuel : Nat) (op : Operator) (d : Delegate)

theorem tryWrap_callable (c : Callable F) :
    tryWrap fuel (.callable c) = (do points 1; pure c.entry) := by
  cases fuel <;> rfl

/-- A delegate is wrapped again and again. -/
theorem tryWrap_delegate (value : Delegate) (isThis : Bool) (t : Memory F) :
    (tryWrap fuel (.delegate value isThis)).result t = none ∧
      ∀ u ∈ (tryWrap fuel (.delegate value isThis)).thrown t, u = t := by
  induction fuel with
  | zero => exact ⟨rfl, fun u hu => absurd hu List.not_mem_nil⟩
  | succ fuel ih =>
    rw [tryWrap]
    refine ⟨by rw [result_bind, result_points, Option.bind_some, ih.1], fun u hu => ?_⟩
    rw [thrown_bind (result_points 1 t), List.mem_append] at hu
    rcases hu with hu | hu
    · exact List.mem_singleton.mp hu
    · exact ih.2 u hu

theorem tryOperate_internal (type : ArgType) (operand : Operand F) :
    tryOperate mutex fuel op d type operand = tryInternal fuel op d type operand := by
  obtain ⟨hS, hbase⟩ := pass_operators mutex op type
  unfold tryOperate
  rw [hS, Option.bind_some, hbase]

/-- A functor is wrapped first. -/
theorem tryInternal_functor (hashCode : Nat) (f : F) :
    tryInternal fuel op d .functor (.callable (.functor hashCode f)) =
      if op = .remove ∧ d.current = none then pure d
      else (do
        let m ← tryWrap fuel (.callable (.functor hashCode f))
        op.tryCallable d m) := by
  unfold tryInternal
  rw [resolve_internals_template (by simp) (by simp) (by simp) (by simp)]

theorem tryInternal_entry {c : Callable F} (hc : c.type ≠ .functor) :
    tryInternal fuel op d c.type (.callable c) = op.tryCallable d c.entry := by
  unfold tryInternal
  cases c with
  | functor hashCode f => exact absurd rfl hc
  | function target hashCode f =>
    rw [resolve_internals_overload (by simp [internals, Callable.type])]
  | pointer address f =>
    rw [resolve_internals_overload (by simp [internals, Callable.type])]

theorem tryInternal_list {cls : DelegateClass} (hcls : cls = .base ∨ cls = .locked .stdMutex)
    (value : Delegate) (isThis : Bool) :
    tryInternal (F := F) fuel op d (.object cls) (.delegate value isThis) =
      op.tryDelegate d value isThis := by
  unfold tryInternal
  rw [resolve_internals_overload (by rcases hcls with rfl | rfl <;> simp [internals])]

theorem tryInternal_wrap (hmutex : mutex ≠ .stdMutex) (operand : Operand F) :
    tryInternal fuel op d (.object (.locked mutex)) operand =
      if op = .remove ∧ d.current = none then pure d
      else (do
        let m ← tryWrap fuel operand
        op.tryCallable d m) := by
  unfold tryInternal
  rw [resolve_internals_template (by simp) (by simp) (by simp) (by simpa using hmutex)]

variable (w : Wrapper F)

/-- Without an exception it ends as the operator does. -/
theorem result_operate_callable (c : Callable F) (t : Memory F) :
    (tryOperate mutex fuel op d c.type (.callable c)).result t =
      (operate w mutex fuel op t.heap d c.type (.callable c)).toOption.map
        fun r => (r.2, { t with heap := r.1 }) := by
  rw [operate_callable, LockedWorld.toOption_valid, tryOperate_internal]
  cases c with
  | functor hashCode f =>
    rw [show Callable.type (.functor hashCode f) = .functor from rfl, tryInternal_functor]
    split
    · next hnone =>
      obtain ⟨rfl, hc⟩ := hnone
      simp [Operator.callable, Heap.removeBy, hc]
    · rw [result_bind, tryWrap_callable]
      exact result_tryCallable op d _ t
  | function target hashCode f =>
    rw [tryInternal_entry fuel op d (by simp [Callable.type])]
    exact result_tryCallable op d _ t
  | pointer address f =>
    rw [tryInternal_entry fuel op d (by simp [Callable.type])]
    exact result_tryCallable op d _ t

theorem result_operate_delegate {cls : DelegateClass} (hcls : cls = .base ∨ cls = .locked mutex)
    (value : Delegate) (isThis : Bool) (t : Memory F) :
    (tryOperate mutex fuel op d (.object cls) (.delegate value isThis)).result t =
      (operate w mutex fuel op t.heap d (.object cls) (.delegate value isThis)).toOption.map
        fun r => (r.2, { t with heap := r.1 }) := by
  rw [tryOperate_internal]
  by_cases hlist : cls = .base ∨ cls = .locked .stdMutex
  · rw [operate_list w mutex fuel op t.heap d hlist, LockedWorld.toOption_valid,
      tryInternal_list fuel op d hlist, result_tryDelegate]
  · obtain rfl := hcls.resolve_left fun h => hlist (.inl h)
    have hmutex : mutex ≠ .stdMutex := fun h => hlist (.inr (by rw [h]))
    rw [operate_wrap w mutex fuel op t.heap d hmutex, tryInternal_wrap mutex fuel op d hmutex]
    split
    · rfl
    · rw [result_bind, (tryWrap_delegate fuel value isThis t).1]
      rfl

theorem thrown_operate_callable (c : Callable F) (t : Memory F) :
    (tryOperate mutex fuel op d c.type (.callable c)).thrown t =
      if op = .remove ∧ d.current = none then []
      else List.replicate c.wraps t ++ (op.tryCallable d c.entry).thrown t := by
  rw [tryOperate_internal]
  have hentry : ∀ m : Method F, op = .remove ∧ d.current = none →
      (op.tryCallable d m).thrown t = [] := by
    rintro m ⟨rfl, hc⟩
    unfold Operator.tryCallable
    rw [hc]
    rfl
  cases c with
  | functor hashCode f =>
    rw [show Callable.type (.functor hashCode f) = .functor from rfl, tryInternal_functor]
    split
    · rfl
    · rw [tryWrap_callable, thrown_bind (by rw [result_bind, result_points]; rfl)]
      rfl
  | function target hashCode f =>
    rw [tryInternal_entry fuel op d (by simp [Callable.type])]
    split
    · next hnone => exact hentry _ hnone
    · rfl
  | pointer address f =>
    rw [tryInternal_entry fuel op d (by simp [Callable.type])]
    split
    · next hnone => exact hentry _ hnone
    · rfl

end

end VideoPlayerCore
