import VideoPlayerCore.DelegateMoves

/-!
# Operators over a virtual SetMethodList

The operators of `_Delegate` end in `SetMethodList`, which `_Delegate_S` overrides.
Here they take it as a parameter `set`; with that of `_Delegate` they are the operators
of before.

    every operator prepares the list of its result and hands it to `set`   (AssignsBy)
-/

namespace VideoPlayerCore

open KeyedLists

variable {F : Type}

namespace Heap

/-- What overrides `SetMethodList` has its type. -/
abbrev SetMethodList (F : Type) := Heap F → Delegate → Option Nat → Option (Heap F × Delegate)

def setValueBy (set : SetMethodList F) (h : Heap F) (d : Delegate) (m : Method F) :
    Option (Heap F × Delegate) := do
  let (h, methodList) := h.newList
  let h ← h.add methodList m
  set h d (some methodList)

def setValueDelegateBy (set : SetMethodList F) (h : Heap F) (d delegate : Delegate) :
    Option (Heap F × Delegate) :=
  match delegate.current with
  | some methodList => do
    let (h, methodListNew) := h.newList
    let h ← h.addList methodListNew methodList
    set h d (some methodListNew)
  | none => set h d none

def addBy (set : SetMethodList F) (h : Heap F) (d : Delegate) (m : Method F) :
    Option (Heap F × Delegate) := do
  let (h, methodList) ← h.copyCurrent d
  let h ← h.add methodList m
  set h d (some methodList)

def addDelegateBy (set : SetMethodList F) (h : Heap F) (d delegate : Delegate) :
    Option (Heap F × Delegate) :=
  match delegate.current with
  | some methodList => do
    let (h, newMethodList) ← h.copyCurrent d
    let h ← h.addList newMethodList methodList
    set h d (some newMethodList)
  | none => some (h, d)

def removeBy (set : SetMethodList F) (h : Heap F) (d : Delegate) (key : Nat × Nat) :
    Option (Heap F × Delegate) :=
  match d.current with
  | some current => do
    let (h, methodList) ← h.remove current key
    set h d methodList
  | none => some (h, d)

def removeDelegateBy (set : SetMethodList F) (h : Heap F) (d delegate : Delegate) :
    Option (Heap F × Delegate) :=
  match d.current, delegate.current with
  | some current, some methodList => do
    let (h, methodList) ← h.removeList current methodList
    set h d methodList
  | _, _ => some (h, d)

/-! ## With the `SetMethodList` of `_Delegate` -/

variable {h : Heap F} {d delegate : Delegate}

theorem setValueInternal_by (m : Method F) :
    h.setValueInternal d m = setValueBy Heap.setMethodList h d m := rfl

theorem setValueDelegate_by :
    h.setValueDelegate d delegate = setValueDelegateBy Heap.setMethodList h d delegate := rfl

theorem addInternal_by (m : Method F) :
    h.addInternal d m = addBy Heap.setMethodList h d m := rfl

theorem addDelegate_by :
    h.addDelegate d delegate = addDelegateBy Heap.setMethodList h d delegate := rfl

theorem removeInternal_by (key : Nat × Nat) :
    h.removeInternal d key = removeBy Heap.setMethodList h d key := rfl

theorem removeDelegate_by :
    h.removeDelegate d delegate = removeDelegateBy Heap.setMethodList h d delegate := rfl

/-! ## What an operator prepares -/

/-- An operator that prepares a list with these entries and hands it to `set`. -/
def AssignsBy (set : SetMethodList F) (h : Heap F) (d : Delegate)
    (r : Option (Heap F × Delegate)) (entries : List (Method F)) : Prop :=
  ∃ h₁ o, r = set h₁ d o ∧ Prepares h h₁ d.current o entries

variable (set : SetMethodList F)

theorem sound_new (h : Heap F) : h.Sound {} := fun _ hc => by cases hc

/-- A new list with entries is prepared for any delegate. -/
theorem Inv.assignsNew (hi : h.Inv) (hd : h.Sound d) {h₁ : Heap F} {entries : List (Method F)}
    (hedit : Edits h h₁ h.lists.fresh) (hshow : Shows h₁ h.lists.fresh entries)
    (hne : entries ≠ []) :
    AssignsBy set h d (set h₁ d (some h.lists.fresh)) entries :=
  ⟨h₁, some h.lists.fresh, rfl, (Leaves.new hedit hshow hne).prepares hi hd⟩

theorem Inv.setValueBy (hi : h.Inv) (hd : h.Sound d) (m : Method F) :
    AssignsBy set h d (setValueBy set h d m) [m] := by
  obtain ⟨h₁, h₂, hcopy, hadd, hedit, hshow⟩ := hi.copyAdd h.sound_new m
  have hnew : h.newList = (h₁, h.lists.fresh) := Option.some.inj hcopy
  have heq : Heap.setValueBy set h d m = set h₂ d (some h.lists.fresh) := by
    simp [Heap.setValueBy, hnew, hadd]
  rw [heq]
  exact hi.assignsNew set hd hedit hshow (by simp)

theorem contents_some {current : Nat} (hc : d.current = some current) :
    h.contents d = h.visible current := by
  unfold contents
  rw [hc]

theorem contents_none (hc : d.current = none) : h.contents d = [] := by
  unfold contents
  rw [hc]

theorem Inv.visible_ne_nil (hi : h.Inv) {k : Nat} {l : MethodList}
    (hl : h.lists.get k = some l) (hpos : 0 < l.size) : h.visible k ≠ [] := by
  rw [Ne, ← List.length_eq_zero_iff, hi.length_visible hl]
  omega

theorem Inv.setValueDelegateBy (hi : h.Inv) (hd : h.Sound d) (hs : h.Sound delegate) :
    AssignsBy set h d (setValueDelegateBy set h d delegate) (h.contents delegate) := by
  cases hc : delegate.current with
  | none =>
    rw [contents_none hc]
    refine ⟨h, none, ?_, (Leaves.null rfl).prepares hi hd⟩
    unfold Heap.setValueDelegateBy
    rw [hc]
  | some methodList =>
    obtain ⟨l, hl, hpos⟩ := hs methodList hc
    obtain ⟨h₁, h₂, hcopy, hadd, hedit, hshow⟩ := hi.copyAddList h.sound_new hl hpos
    have hnew : h.newList = (h₁, h.lists.fresh) := Option.some.inj hcopy
    have heq : Heap.setValueDelegateBy set h d delegate = set h₂ d (some h.lists.fresh) := by
      simp [Heap.setValueDelegateBy, hc, hnew, hadd]
    rw [heq, contents_some hc]
    exact hi.assignsNew set hd hedit hshow (hi.visible_ne_nil hl hpos)

theorem Inv.addBy (hi : h.Inv) (hd : h.Sound d) (m : Method F) :
    AssignsBy set h d (addBy set h d m) (h.contents d ++ [m]) := by
  obtain ⟨h₁, h₂, hcopy, hadd, hedit, hshow⟩ := hi.copyAdd hd m
  have heq : Heap.addBy set h d m = set h₂ d (some h.lists.fresh) := by
    simp [Heap.addBy, hcopy, hadd]
  rw [heq]
  exact hi.assignsNew set hd hedit hshow (by simp)

theorem Inv.addDelegateBy (hi : h.Inv) (hd : h.Sound d) {methodList : Nat} {l : MethodList}
    (hc : delegate.current = some methodList) (hl : h.lists.get methodList = some l)
    (hpos : 0 < l.size) :
    AssignsBy set h d (addDelegateBy set h d delegate) (h.contents d ++ h.contents delegate) := by
  obtain ⟨h₁, h₂, hcopy, hadd, hedit, hshow⟩ := hi.copyAddList hd hl hpos
  have heq : Heap.addDelegateBy set h d delegate = set h₂ d (some h.lists.fresh) := by
    simp [Heap.addDelegateBy, hc, hcopy, hadd]
  rw [heq, contents_some hc]
  exact hi.assignsNew set hd hedit hshow (by simp [hi.visible_ne_nil hl hpos])

theorem Inv.removeBy (hi : h.Inv) (hd : h.Sound d) {current : Nat}
    (hc : d.current = some current) (key : Nat × Nat) :
    AssignsBy set h d (removeBy set h d key) (removeLast Method.key key (h.contents d)) := by
  obtain ⟨l, hl, hpos⟩ := hd current hc
  obtain ⟨r, hr, hleaves, -⟩ := hi.remove hl hpos key
  rw [contents_some hc]
  rw [← hc] at hleaves
  exact ⟨r.1, r.2, by simp [Heap.removeBy, hc, hr], hleaves.prepares hi hd⟩

theorem Inv.removeDelegateBy (hi : h.Inv) (hd : h.Sound d) (hs : h.Sound delegate)
    {current methodList : Nat} (hc : d.current = some current)
    (hc' : delegate.current = some methodList) :
    AssignsBy set h d (removeDelegateBy set h d delegate)
      (subtract Method.key (h.contents d) ((h.contents delegate).map Method.key)) := by
  obtain ⟨l, hl, hpos⟩ := hd current hc
  obtain ⟨l', hl', -⟩ := hs methodList hc'
  obtain ⟨r, hr, hleaves, -⟩ := hi.removeList hl hpos hl'
  rw [contents_some hc, contents_some hc']
  rw [← hc] at hleaves
  exact ⟨r.1, r.2, by simp [Heap.removeDelegateBy, hc, hc', hr], hleaves.prepares hi hd⟩

end Heap

end VideoPlayerCore
