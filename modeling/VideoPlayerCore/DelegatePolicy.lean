import VideoPlayerCore.DelegateVirtual
import VideoPlayerCore.Overloads

/-!
# Which overload a delegate operand takes

`_Delegate_S<M>` passes the operand of an operator on to `_Delegate`, and that to
`SetValueInternal`, `AddInternal` or `RemoveInternal`.  At each call the static type of the
operand decides: the overload for a delegate, which works on the lists, or the template,
which wraps the operand in a `std::function`.  The wrapper holds a copy of it, and copy
construction goes the same way.

Calls nest as deep as `fuel`; what needs more is out of fuel.
-/

namespace VideoPlayerCore

open Overloads

variable {F : Type}

/-- The mutex types. -/
inductive Policy
  | nullMutex
  | stdMutex
  /-- any other type that can be locked -/
  | named (name : Nat)
  deriving DecidableEq

/-- `_Delegate` and `_Delegate_S<M>` -/
inductive DelegateClass
  | base
  | locked (mutex : Policy)
  deriving DecidableEq

/-- The static type of an argument, or of what a parameter refers to. -/
inductive ArgType
  /-- any other type that can be called -/
  | functor
  | function
  | pointer
  | object (cls : DelegateClass)
  deriving DecidableEq

/-- The parameter of a function; `const T&` is what the argument is. -/
inductive Param
  | template
  | type (type : ArgType)
  deriving DecidableEq

/-- The conversion of an argument to a parameter.  A `std::function` and a delegate are
constructed from anything that can be called. -/
def ArgType.convert : ArgType → Param → Option Rank
  | _, .template => some .exact
  | .object (.locked _), .type (.object .base) => some .derivedToBase
  | type, .type type' =>
    if type = type' then some .exact
    else
      match type' with
      | .function | .object _ => some .userDefined
      | .functor | .pointer => none

def template : Overload Param := ⟨.template, true⟩

def overload (type : ArgType) : Overload Param := ⟨.type type, false⟩

inductive Operator
  /-- `=` -/
  | assign
  /-- `+=` -/
  | add
  /-- `-=` -/
  | remove
  deriving DecidableEq

/-! ## The sets of overloads -/

/-- The constructors of `_Delegate_S<M>` from one argument. -/
def constructorsS (mutex : Policy) : List (Overload Param) :=
  [overload (.object (.locked mutex)), template]

/-- Those of `_Delegate`. -/
def constructors : List (Overload Param) := [overload (.object .base), template]

/-- The operators of `_Delegate_S<M>`. -/
def operatorsS (mutex : Policy) : Operator → List (Overload Param)
  | .assign => [overload (.object (.locked mutex)), template]
  | .add => [template]
  | .remove => [template]

/-- Those of `_Delegate`. -/
def operators : Operator → List (Overload Param)
  | .assign => [overload (.object .base), template]
  | .add => [template]
  | .remove => [template]

/-- `SetValueInternal`, `AddInternal` and `RemoveInternal`; the last overload takes a
`Delegate_S`, which is `_Delegate_S<std::mutex>`. -/
def internals : List (Overload Param) :=
  [template, overload .function, overload .pointer, overload (.object .base),
    overload (.object (.locked .stdMutex))]

/-- The static type of the operand in the function that is called; `none` does not compile. -/
def ArgType.pass (type : ArgType) (overloads : List (Overload Param)) : Option ArgType :=
  (resolve ArgType.convert overloads type).map fun
    | .template => type
    | .type type' => type'

/-! ## Operands -/

def Callable.type : Callable F → ArgType
  | .functor _ _ => .functor
  | .function _ _ _ => .function
  | .pointer _ _ => .pointer

inductive Operand (F : Type)
  | callable (c : Callable F)
  /-- an object that is a delegate, and whether it is the object that the operator works on -/
  | delegate (value : Delegate) (isThis : Bool)

/-- How a call ends that does not return. -/
inductive Stop
  | outOfFuel
  /-- it reads what is not there -/
  | invalid
  deriving DecidableEq

def valid {α : Type} : Option α → Except Stop α
  | some a => .ok a
  | none => .error .invalid

/-- `XInternal` of a callable with the entry `m` -/
def Operator.callable (op : Operator) (set : Heap.SetMethodList F) (h : Heap F) (d : Delegate)
    (m : Method F) : Option (Heap F × Delegate) :=
  match op with
  | .assign => Heap.setValueBy set h d m
  | .add => Heap.addBy set h d m
  | .remove => Heap.removeBy set h d m.key

/-- `XInternal` of a delegate -/
def Operator.delegate (op : Operator) (set : Heap.SetMethodList F) (h : Heap F) (d : Delegate)
    (delegate : Delegate) (isThis : Bool) : Option (Heap F × Delegate) :=
  match op with
  | .assign => if isThis then some (h, d) else Heap.setValueDelegateBy set h d delegate
  | .add => Heap.addDelegateBy set h d delegate
  | .remove =>
    if d.current = none then some (h, d)
    else if isThis then set h d none
    else Heap.removeDelegateBy set h d delegate

/-- What a `std::function` refers to a wrapped delegate by. -/
structure Wrapper (F : Type) where
  hashCode : ArgType → Nat
  /-- the callable that holds the copy -/
  holds : Delegate → F

/-- `SetValueInternal`, `AddInternal` or `RemoveInternal`, the overload for the static type;
`wrap` makes a `std::function` of the operand. -/
def internal (wrap : Heap F → ArgType → Operand F → Except Stop (Heap F × Method F))
    (set : Heap.SetMethodList F) (op : Operator) (h : Heap F) (d : Delegate) (type : ArgType)
    (operand : Operand F) : Except Stop (Heap F × Delegate) := do
  match resolve ArgType.convert internals type, operand with
  | some .template, operand =>
    -- `RemoveInternal` looks for `_current` before it wraps
    if op = .remove ∧ d.current = none then .ok (h, d)
    else
      let (h, m) ← wrap h type operand
      valid (op.callable set h d m)
  | some (.type _), .callable c => valid (op.callable set h d c.entry)
  | some (.type _), .delegate value isThis => valid (op.delegate set h d value isThis)
  | none, _ => .error .invalid

/-- A constructor of `_Delegate` from one argument; in it the object is a `_Delegate`. -/
def constructBase (wrap : Heap F → ArgType → Operand F → Except Stop (Heap F × Method F))
    (h : Heap F) (type : ArgType) (operand : Operand F) : Except Stop (Heap F × Delegate) :=
  match resolve ArgType.convert constructors type, operand with
  | some .template, operand => internal wrap Heap.setMethodList .assign h {} type operand
  | some (.type _), .delegate value _ =>
    match value.current with
    | some methodList => valid do
      let (h, current) := h.newList
      let h ← h.addList current methodList
      some (h, { current := some current })
    | none => .ok (h, {})
  | _, _ => .error .invalid

/-- A constructor of the class from one argument -/
def construct (wrap : Heap F → ArgType → Operand F → Except Stop (Heap F × Method F))
    (h : Heap F) (cls : DelegateClass) (type : ArgType) (operand : Operand F) :
    Except Stop (Heap F × Delegate) :=
  match cls with
  | .base => constructBase wrap h type operand
  | .locked mutex => do
    let type ← valid (type.pass (constructorsS mutex))
    constructBase wrap h type operand

/-- `std::function<..> function = method`, and the entry that holds it. -/
def wrap (w : Wrapper F) : Nat → Heap F → ArgType → Operand F → Except Stop (Heap F × Method F)
  | _, h, _, .callable c => .ok (h, c.entry)
  | 0, _, _, .delegate _ _ => .error .outOfFuel
  | fuel + 1, h, .object cls, .delegate value _ => do
    let (h, copy) ← construct (wrap w fuel) h cls (.object cls) (.delegate value false)
    .ok (h, ⟨w.hashCode (.object cls), 0, w.holds copy⟩)
  | _ + 1, _, _, .delegate _ _ => .error .invalid

/-- Copy construction of a `_Delegate_S<M>`. -/
def copyConstruct (w : Wrapper F) (mutex : Policy) (fuel : Nat) (h : Heap F) (delegate : Delegate) :
    Except Stop (Heap F × Delegate) :=
  construct (wrap w fuel) h (.locked mutex) (.object (.locked mutex)) (.delegate delegate false)

/-- `SetMethodList` of `_Delegate_S` -/
def Heap.setMethodListS (h : Heap F) (d : Delegate) (methodList : Option Nat) :
    Option (Heap F × Delegate) :=
  match d.current with
  | some current =>
    if methodList = some current then some (h, d)
    else some (h, { current := methodList, deleteList := d.deleteList ++ [current] })
  | none => some (h, { d with current := methodList })

/-- An operator of a `_Delegate_S<M>`, with an operand of this static type. -/
def operate (w : Wrapper F) (mutex : Policy) (fuel : Nat) (op : Operator) (h : Heap F)
    (d : Delegate) (type : ArgType) (operand : Operand F) : Except Stop (Heap F × Delegate) := do
  let type ← valid (type.pass (operatorsS mutex op))
  let type ← valid (type.pass (operators op))
  internal (wrap w fuel) Heap.setMethodListS op h d type operand

/-! ## What is called -/

theorem convert_self (type : ArgType) : type.convert (.type type) = some .exact := by
  cases type with
  | object cls => cases cls <;> simp [ArgType.convert]
  | _ => simp [ArgType.convert]

theorem convert_template (type : ArgType) : type.convert .template = some .exact := by
  unfold ArgType.convert
  rfl

theorem convert_ne {type type' : ArgType} (h : type ≠ type') :
    type.convert (.type type') ≠ some .exact := by
  unfold ArgType.convert
  split
  · next heq => cases heq
  · simp
  · next heq =>
    obtain rfl := Param.type.inj heq
    rw [if_neg h]
    split <;> simp

/-- The overload for the very type wins over the template and over all others. -/
theorem overload_better {type : ArgType} {q : Overload Param} (hq : q.isTemplate = (q.param = .template))
    (hne : q ≠ overload type) : better ArgType.convert type (overload type) q = true := by
  obtain ⟨param, isTemplate⟩ := q
  unfold better
  rw [show (overload type).param = .type type from rfl, convert_self]
  cases param with
  | template =>
    obtain rfl : isTemplate = true := by simpa using hq
    rw [convert_template]
    rfl
  | type type' =>
    obtain rfl : isTemplate = false := by simpa using hq
    have hconvert : type.convert (.type type') ≠ some .exact :=
      convert_ne fun h => hne (by rw [h]; rfl)
    cases hr : type.convert (.type type') with
    | none => rfl
    | some r =>
      cases r with
      | exact => exact absurd hr hconvert
      | _ => rfl

/-- The template wins over the overloads for other types. -/
theorem template_better {type type' : ArgType} (hne : type ≠ type') :
    better ArgType.convert type template (overload type') = true := by
  have hconvert := convert_ne hne
  unfold better
  rw [show template.param = .template from rfl, convert_template,
    show (overload type').param = .type type' from rfl]
  cases hr : type.convert (.type type') with
  | none => rfl
  | some r =>
    cases r with
    | exact => exact absurd hr hconvert
    | _ => rfl

theorem resolve_overload {type : ArgType} {overloads : List (Overload Param)}
    (hmem : overload type ∈ overloads)
    (hall : ∀ q ∈ overloads, q = template ∨ ∃ type', q = overload type') :
    resolve ArgType.convert overloads type = some (.type type) := by
  have hviable : (type.convert (overload type).param).isSome = true := by
    rw [show (overload type).param = .type type from rfl, convert_self]
    rfl
  refine resolve_eq_some hmem hviable fun q hq =>
    or_iff_not_imp_left.mpr fun hne => overload_better ?_ hne
  rcases hall q hq with rfl | ⟨type', rfl⟩ <;> simp [template, overload]

theorem resolve_template {type : ArgType} {overloads : List (Overload Param)}
    (hmem : template ∈ overloads)
    (hall : ∀ q ∈ overloads, q = template ∨ ∃ type', q = overload type' ∧ type ≠ type') :
    resolve ArgType.convert overloads type = some .template := by
  have hviable : (type.convert template.param).isSome = true := by
    rw [show template.param = .template from rfl, convert_template]
    rfl
  refine resolve_eq_some hmem hviable fun q hq => ?_
  rcases hall q hq with rfl | ⟨type', rfl, hne⟩
  · exact .inl rfl
  · exact .inr (template_better hne)

theorem resolve_pair {type type' : ArgType} (h : type ≠ type') :
    resolve ArgType.convert [overload type', template] type = some .template := by
  refine resolve_template (by simp) fun q hq => ?_
  simp only [List.mem_cons, List.not_mem_nil, or_false] at hq
  rcases hq with rfl | rfl
  · exact .inr ⟨_, rfl, h⟩
  · exact .inl rfl

/-- One overload for a type, beside the template, does not change the type of an operand. -/
theorem pass_pair (type type' : ArgType) : type.pass [overload type', template] = some type := by
  unfold ArgType.pass
  by_cases h : type = type'
  · rw [← h, resolve_overload (by simp) (by simp)]
    rfl
  · rw [resolve_pair h]
    rfl

theorem pass_template (type : ArgType) : type.pass [template] = some type := by
  unfold ArgType.pass
  rw [resolve_template (by simp) (by simp)]
  rfl

section

variable (w : Wrapper F) (mutex : Policy) (fuel : Nat) (op : Operator) (h : Heap F) (d : Delegate)

/-- The operators pass an operand on with the type that it has. -/
theorem pass_operators (type : ArgType) :
    type.pass (operatorsS mutex op) = some type ∧ type.pass (operators op) = some type := by
  cases op with
  | assign => exact ⟨pass_pair type _, pass_pair type _⟩
  | _ => exact ⟨pass_template type, pass_template type⟩

theorem operate_internal (type : ArgType) (operand : Operand F) :
    operate w mutex fuel op h d type operand =
      internal (wrap w fuel) Heap.setMethodListS op h d type operand := by
  obtain ⟨hS, hbase⟩ := pass_operators mutex op type
  unfold operate
  rw [hS, show valid (some type) = Except.ok type from rfl]
  dsimp only [bind, Except.bind]
  rw [hbase]
  rfl

theorem resolve_internals_template {type : ArgType} (hfun : type ≠ .function)
    (hptr : type ≠ .pointer) (hbase : type ≠ .object .base)
    (hstd : type ≠ .object (.locked .stdMutex)) :
    resolve ArgType.convert internals type = some .template := by
  refine resolve_template (by simp [internals]) fun q hq => ?_
  simp only [internals, List.mem_cons, List.not_mem_nil, or_false] at hq
  rcases hq with rfl | rfl | rfl | rfl | rfl
  · exact .inl rfl
  · exact .inr ⟨_, rfl, hfun⟩
  · exact .inr ⟨_, rfl, hptr⟩
  · exact .inr ⟨_, rfl, hbase⟩
  · exact .inr ⟨_, rfl, hstd⟩

theorem resolve_internals_overload {type : ArgType} (hmem : overload type ∈ internals) :
    resolve ArgType.convert internals type = some (.type type) :=
  resolve_overload hmem (by simp [internals])

variable (set : Heap.SetMethodList F)

/-- A callable is an entry, whichever overload takes it. -/
theorem internal_callable (c : Callable F) :
    internal (wrap w fuel) set op h d c.type (.callable c) =
      valid (op.callable set h d c.entry) := by
  unfold internal
  cases c with
  | functor hashCode f =>
    rw [resolve_internals_template (by simp [Callable.type]) (by simp [Callable.type])
      (by simp [Callable.type]) (by simp [Callable.type])]
    dsimp only
    split
    · next hnone =>
      obtain ⟨rfl, hc⟩ := hnone
      simp [Operator.callable, Heap.removeBy, hc, valid]
    · cases fuel <;> rfl
  | function target hashCode f =>
    rw [resolve_internals_overload (by simp [internals, Callable.type])]
  | pointer address f =>
    rw [resolve_internals_overload (by simp [internals, Callable.type])]

/-- A `_Delegate` and a `Delegate_S` are lists. -/
theorem internal_list {cls : DelegateClass} (hcls : cls = .base ∨ cls = .locked .stdMutex)
    (wrap : Heap F → ArgType → Operand F → Except Stop (Heap F × Method F))
    (value : Delegate) (isThis : Bool) :
    internal wrap set op h d (.object cls) (.delegate value isThis) =
      valid (op.delegate set h d value isThis) := by
  unfold internal
  rw [resolve_internals_overload (by rcases hcls with rfl | rfl <;> simp [internals])]

/-- A delegate with another mutex is wrapped. -/
theorem internal_wrap (hmutex : mutex ≠ .stdMutex)
    (wrap : Heap F → ArgType → Operand F → Except Stop (Heap F × Method F)) (operand : Operand F) :
    internal wrap set op h d (.object (.locked mutex)) operand =
      if op = .remove ∧ d.current = none then .ok (h, d)
      else (do
        let (h, m) ← wrap h (.object (.locked mutex)) operand
        valid (op.callable set h d m)) := by
  unfold internal
  rw [resolve_internals_template (by simp) (by simp) (by simp) (by simpa using hmutex)]

/-- The copy goes to `SetValueInternal` and not to the constructor for a `_Delegate`. -/
theorem construct_copy (wrap : Heap F → ArgType → Operand F → Except Stop (Heap F × Method F))
    (operand : Operand F) :
    construct wrap h (.locked mutex) (.object (.locked mutex)) operand =
      internal wrap Heap.setMethodList .assign h {} (.object (.locked mutex)) operand := by
  unfold construct
  dsimp only
  rw [show constructorsS mutex = [overload (.object (.locked mutex)), template] from rfl, pass_pair,
    show valid (some (ArgType.object (.locked mutex))) = Except.ok _ from rfl]
  show constructBase wrap h (.object (.locked mutex)) operand = _
  unfold constructBase constructors
  rw [resolve_pair (by simp)]

theorem construct_callable (c : Callable F) :
    construct (wrap w fuel) h (.locked mutex) c.type (.callable c) =
      valid (Heap.setValueBy Heap.setMethodList h {} c.entry) := by
  unfold construct
  dsimp only
  rw [show constructorsS mutex = [overload (.object (.locked mutex)), template] from rfl, pass_pair,
    show valid (some c.type) = Except.ok _ from rfl]
  show constructBase (wrap w fuel) h c.type (.callable c) = _
  unfold constructBase constructors
  rw [resolve_pair (by cases c <;> simp [Callable.type])]
  exact internal_callable w fuel .assign h {} Heap.setMethodList c

/-- A wrapper of a delegate with another mutex is never finished: the copy in it is
constructed through another wrapper. -/
theorem wrap_outOfFuel (hmutex : mutex ≠ .stdMutex) (value : Delegate) (isThis : Bool) :
    wrap w fuel h (.object (.locked mutex)) (.delegate value isThis) = .error .outOfFuel := by
  induction fuel generalizing h isThis with
  | zero => rfl
  | succ fuel ih =>
    rw [wrap, construct_copy, internal_wrap mutex .assign h {} _ hmutex, if_neg (by simp), ih]
    rfl

theorem operate_callable (c : Callable F) :
    operate w mutex fuel op h d c.type (.callable c) =
      valid (op.callable Heap.setMethodListS h d c.entry) := by
  rw [operate_internal, internal_callable]

theorem operate_list {cls : DelegateClass} (hcls : cls = .base ∨ cls = .locked .stdMutex)
    (value : Delegate) (isThis : Bool) :
    operate w mutex fuel op h d (.object cls) (.delegate value isThis) =
      valid (op.delegate Heap.setMethodListS h d value isThis) := by
  rw [operate_internal, internal_list op h d _ hcls]

theorem operate_wrap (hmutex : mutex ≠ .stdMutex) (value : Delegate) (isThis : Bool) :
    operate w mutex fuel op h d (.object (.locked mutex)) (.delegate value isThis) =
      if op = .remove ∧ d.current = none then .ok (h, d) else .error .outOfFuel := by
  rw [operate_internal, internal_wrap mutex op h d _ hmutex, wrap_outOfFuel w mutex fuel h hmutex]
  rfl

theorem copyConstruct_std (value : Delegate) :
    copyConstruct w .stdMutex fuel h value =
      valid (Heap.setValueDelegateBy Heap.setMethodList h {} value) := by
  unfold copyConstruct
  rw [construct_copy, internal_list .assign h {} _ (.inr rfl)]
  rfl

theorem copyConstruct_wrap (hmutex : mutex ≠ .stdMutex) (value : Delegate) :
    copyConstruct w mutex fuel h value = .error .outOfFuel := by
  unfold copyConstruct
  rw [construct_copy, internal_wrap mutex .assign h {} _ hmutex, if_neg (by simp),
    wrap_outOfFuel w mutex fuel h hmutex]
  rfl

end

end VideoPlayerCore
