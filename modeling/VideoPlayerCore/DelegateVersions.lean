import VideoPlayerCore.DelegateHeap

/-!
# What the method list operations do to the versions of a list

Every list stays within its array and every array counts the lists that use it
(Heap.Inv).  An operation works on one list; what the others show, and they themselves,
are as before (Heap.Edits).

    Add appends, Remove takes the last entry with the key off,
    and both have a result on every heap with Inv          (Inv.add, Inv.addList,
                                                            Inv.remove, Inv.removeList)
-/

namespace VideoPlayerCore



variable {F : Type}

namespace Heap

variable {h h' : Heap F} {i j k : Nat} {l : MethodList} {a : SharedArray F}

/-- The entries of a list: the first `_size` entries of its `_array`. -/
def visible (h : Heap F) (list : Nat) : List (Method F) :=
  match h.lists.get list with
  | none => []
  | some l =>
    match h.arrays.get l.array with
    | none => []
    | some a => a.data.take l.size

def uses (array : Nat) (l : MethodList) : Nat := if l.array = array then 1 else 0

theorem uses_of_eq {array : Nat} (h : l.array = array) : uses array l = 1 := if_pos h

theorem uses_of_ne {array : Nat} (h : l.array ≠ array) : uses array l = 0 := if_neg h

structure Inv (h : Heap F) : Prop where
  within : ∀ k l, h.lists.get k = some l → ∃ a, h.arrays.get l.array = some a ∧ l.size ≤ a.size
  counted : ∀ i a, h.arrays.get i = some a → a.refCount = h.lists.total (uses i)
  roomy : ∀ i a, h.arrays.get i = some a → 0 < a.capacity

/-- From `h` to `h'` nothing happened to the lists but to the list `k`. -/
structure Edits (h h' : Heap F) (k : Nat) : Prop where
  inv : h'.Inv
  lists : ∀ j, j ≠ k → h'.lists.get j = h.lists.get j
  visible : ∀ j, j ≠ k → h'.visible j = h.visible j
  fresh : h.lists.fresh ≤ h'.lists.fresh

theorem Edits.trans {h₁ h₂ h₃ : Heap F} (h₁₂ : Edits h₁ h₂ k) (h₂₃ : Edits h₂ h₃ k) :
    Edits h₁ h₃ k where
  inv := h₂₃.inv
  lists j hj := (h₂₃.lists j hj).trans (h₁₂.lists j hj)
  visible j hj := (h₂₃.visible j hj).trans (h₁₂.visible j hj)
  fresh := Nat.le_trans h₁₂.fresh h₂₃.fresh

theorem Edits.refl (hi : h.Inv) : Edits h h k := ⟨hi, fun _ _ => rfl, fun _ _ => rfl, Nat.le_refl _⟩

theorem visible_eq (hl : h.lists.get k = some l) (ha : h.arrays.get l.array = some a) :
    h.visible k = a.data.take l.size := by
  simp [visible, hl, ha]

theorem visible_of_none (hk : h.lists.get k = none) : h.visible k = [] := by
  simp [visible, hk]

theorem Inv.length_visible (hi : h.Inv) (hl : h.lists.get k = some l) :
    (h.visible k).length = l.size := by
  obtain ⟨a, ha, hsize⟩ := hi.within k l hl
  rw [visible_eq hl ha, List.length_take]
  exact Nat.min_eq_left hsize

/-- The identity of the next array is that of no list's array. -/
theorem Inv.array_ne_fresh (hi : h.Inv) (hl : h.lists.get k = some l) :
    l.array ≠ h.arrays.fresh := by
  obtain ⟨a, ha, -⟩ := hi.within k l hl
  exact Nat.ne_of_lt (Slots.lt_fresh ha)

theorem Inv.uses_fresh (hi : h.Inv) : h.lists.total (uses h.arrays.fresh) = 0 := by
  refine Slots.total_eq_zero fun k l hl => ?_
  exact uses_of_ne (hi.array_ne_fresh hl)

/-- Only the list `k` may change, and what arrays of other lists have is only added to. -/
theorem Inv.edits (hi : h.Inv) (o : Option MethodList)
    (hlists : ∀ j, h'.lists.get j = if j = k then o else h.lists.get j)
    (hown : ∀ l, o = some l → ∃ a, h'.arrays.get l.array = some a ∧ l.size ≤ a.size)
    (hothers : ∀ j l a, j ≠ k → h.lists.get j = some l → h.arrays.get l.array = some a →
      ∃ a' more, h'.arrays.get l.array = some a' ∧ a'.data = a.data ++ more)
    (hcounted : ∀ i a, h'.arrays.get i = some a → a.refCount = h'.lists.total (uses i))
    (hroomy : ∀ i a, h'.arrays.get i = some a → 0 < a.capacity)
    (hfresh : h.lists.fresh ≤ h'.lists.fresh) : Edits h h' k := by
  have hkeeps : ∀ j, j ≠ k → h'.lists.get j = h.lists.get j := fun j hj => by
    rw [hlists, if_neg hj]
  refine ⟨⟨?_, hcounted, hroomy⟩, hkeeps, ?_, hfresh⟩
  · intro j l hl
    by_cases hj : j = k
    · rw [hlists, if_pos hj] at hl
      exact hown l hl
    · rw [hkeeps j hj] at hl
      obtain ⟨a, ha, hsize⟩ := hi.within j l hl
      obtain ⟨a', more, ha', hdata⟩ := hothers j l a hj hl ha
      refine ⟨a', ha', ?_⟩
      unfold SharedArray.size at hsize ⊢
      rw [hdata, List.length_append]
      omega
  · intro j hj
    cases hl : h.lists.get j with
    | none => rw [visible_of_none hl, visible_of_none ((hkeeps j hj).trans hl)]
    | some l =>
      obtain ⟨a, ha, hsize⟩ := hi.within j l hl
      obtain ⟨a', more, ha', hdata⟩ := hothers j l a hj hl ha
      rw [visible_eq hl ha, visible_eq ((hkeeps j hj).trans hl) ha', hdata,
        List.take_append_of_le_length hsize]

/-! ## New lists -/

theorem Inv.newList (hi : h.Inv) :
    Edits h h.newList.1 h.lists.fresh ∧
      h.newList.1.lists.get h.lists.fresh = some ⟨h.arrays.fresh, 0, 1⟩ ∧
      h.newList.1.arrays.get h.arrays.fresh = some (.new 4) := by
  have hget : ∀ j, h.newList.1.lists.get j =
      if j = h.lists.fresh then some ⟨h.arrays.fresh, 0, 1⟩ else h.lists.get j :=
    Slots.get_alloc _ _
  have harr : ∀ i, h.newList.1.arrays.get i =
      if i = h.arrays.fresh then some (.new 4) else h.arrays.get i :=
    Slots.get_alloc _ _
  have htotal : ∀ i, h.newList.1.lists.total (uses i) =
      h.lists.total (uses i) + uses i ⟨h.arrays.fresh, 0, 1⟩ := fun _ => Slots.total_alloc
  have hnew : h.newList.1.arrays.get h.arrays.fresh = some (.new 4) := by
    rw [harr, if_pos rfl]
  refine ⟨hi.edits _ hget ?_ ?_ ?_ ?_ ?_, by rw [hget, if_pos rfl], hnew⟩
  · rintro l ⟨⟩
    exact ⟨_, hnew, Nat.zero_le _⟩
  · intro j l a hj hl ha
    exact ⟨a, [], by rw [harr, if_neg (hi.array_ne_fresh hl), ha], (List.append_nil _).symm⟩
  · intro i a ha
    rw [harr] at ha
    rw [htotal]
    split at ha
    · next heq =>
      cases ha
      rw [heq, hi.uses_fresh]
      simp [uses, SharedArray.new]
    · next hne =>
      rw [hi.counted i a ha]
      simp [uses, Ne.symm hne]
  · intro i a ha
    rw [harr] at ha
    split at ha
    · cases ha
      show 0 < 4
      omega
    · exact hi.roomy i a ha
  · show _ ≤ (h.lists.alloc _).fresh
    rw [Slots.fresh_alloc]
    omega

/-- The copy shares the array, which counts it. -/
theorem Inv.copyList (hi : h.Inv) (hl : h.lists.get k = some l)
    (ha : h.arrays.get l.array = some a) :
    ∃ h', h.copyList k = some (h', h.lists.fresh) ∧ Edits h h' h.lists.fresh ∧
      h'.lists.get h.lists.fresh = some ⟨l.array, l.size, 1⟩ ∧
      h'.arrays.get l.array = some { a with refCount := a.refCount + 1 } := by
  obtain ⟨b, hb, hsize⟩ := hi.within k l hl
  rw [ha] at hb
  cases hb
  refine ⟨_, by simp [Heap.copyList, hl, ha]; rfl, ?_⟩
  generalize hh' : ({ arrays := _, lists := _ } : Heap F) = h'
  have hget : ∀ j, h'.lists.get j =
      if j = h.lists.fresh then some ⟨l.array, l.size, 1⟩ else h.lists.get j := by
    subst hh'
    exact Slots.get_alloc _ _
  have harr : ∀ i, h'.arrays.get i =
      if i = l.array then some { a with refCount := a.refCount + 1 } else h.arrays.get i := by
    subst hh'
    exact Slots.get_set ha _
  have htotal : ∀ i, h'.lists.total (uses i) =
      h.lists.total (uses i) + uses i ⟨l.array, l.size, 1⟩ := by
    subst hh'
    exact fun _ => Slots.total_alloc
  have hshared : h'.arrays.get l.array = some { a with refCount := a.refCount + 1 } := by
    rw [harr, if_pos rfl]
  refine ⟨hi.edits _ hget ?_ ?_ ?_ ?_ ?_, by rw [hget, if_pos rfl], hshared⟩
  · rintro l' ⟨⟩
    exact ⟨_, hshared, hsize⟩
  · intro j l' b hj hl' hb
    rw [harr]
    split
    · next heq =>
      rw [heq, ha] at hb
      cases hb
      exact ⟨_, [], rfl, (List.append_nil _).symm⟩
    · exact ⟨b, [], hb, (List.append_nil _).symm⟩
  · intro i b hb
    rw [harr] at hb
    rw [htotal]
    split at hb
    · next heq =>
      cases hb
      rw [heq, ← hi.counted _ a ha]
      simp [uses]
    · next hne =>
      rw [hi.counted i b hb]
      simp [uses, Ne.symm hne]
  · intro i b hb
    rw [harr] at hb
    split at hb
    · cases hb
      exact hi.roomy _ a ha
    · exact hi.roomy i b hb
  · subst hh'
    show _ ≤ (h.lists.alloc _).fresh
    rw [Slots.fresh_alloc]
    omega

/-! ## Releasing an array -/

theorem release_eq (ha : h.arrays.get i = some a) :
    ∃ h', h.release i = some h' ∧ h'.lists = h.lists ∧
      h'.arrays.fresh = h.arrays.fresh ∧ ∀ j, h'.arrays.get j =
        if j = i then
          if a.refCount - 1 = 0 then none else some { a with refCount := a.refCount - 1 }
        else h.arrays.get j := by
  by_cases hlast : a.refCount - 1 = 0
  · refine ⟨{ h with arrays := h.arrays.free i }, by simp [release, ha, hlast], rfl,
      Slots.fresh_free, fun j => ?_⟩
    rw [if_pos hlast]
    exact Slots.get_free _ _ _
  · refine ⟨{ h with arrays := h.arrays.set i { a with refCount := a.refCount - 1 } },
      by simp [release, ha, hlast], rfl, Slots.fresh_set, fun j => ?_⟩
    rw [if_neg hlast]
    exact Slots.get_set ha _ _

/-- An array that two lists use is not deleted by one release. -/
theorem Inv.two_uses (hi : h.Inv) {l' : MethodList} (hl : h.lists.get k = some l)
    (hl' : h.lists.get j = some l') (hj : j ≠ k) (hsame : l'.array = l.array)
    (ha : h.arrays.get l.array = some a) : 2 ≤ a.refCount := by
  have hrest : (h.lists.free k).get j = some l' := by
    rw [Slots.get_free, if_neg hj]
    exact hl'
  have hle := Slots.le_total (f := uses l.array) hrest
  have hsum := Slots.total_free (f := uses l.array) hl
  rw [uses_of_eq hsame] at hle
  rw [uses_of_eq rfl] at hsum
  rw [hi.counted _ a ha]
  omega

/-- The other lists' arrays stay, and every array that is left counts its other uses. -/
theorem Inv.released {h₁ : Heap F} (hi : h.Inv) (hl : h.lists.get k = some l)
    (ha : h.arrays.get l.array = some a)
    (harr : ∀ i, h₁.arrays.get i = if i = l.array then
        if a.refCount - 1 = 0 then none else some { a with refCount := a.refCount - 1 }
      else h.arrays.get i) :
    (∀ j l' b, j ≠ k → h.lists.get j = some l' → h.arrays.get l'.array = some b →
      ∃ b' more, h₁.arrays.get l'.array = some b' ∧ b'.data = b.data ++ more) ∧
      ∀ i b, h₁.arrays.get i = some b →
        b.refCount + uses i l = h.lists.total (uses i) ∧ 0 < b.capacity := by
  constructor
  · intro j l' b hj hl' hb
    rw [harr]
    split
    · next heq =>
      have htwo := hi.two_uses hl hl' hj heq ha
      rw [heq, ha] at hb
      cases hb
      exact ⟨_, [], if_neg (by omega), (List.append_nil _).symm⟩
    · exact ⟨b, [], hb, (List.append_nil _).symm⟩
  · intro i b hb
    rw [harr] at hb
    split at hb
    · next heq =>
      split at hb
      · cases hb
      · cases hb
        have hcount := hi.counted _ a ha
        subst heq
        rw [uses_of_eq rfl]
        refine ⟨?_, hi.roomy _ a ha⟩
        dsimp only
        omega
    · next hne =>
      rw [uses_of_ne (Ne.symm hne)]
      exact ⟨hi.counted i b hb, hi.roomy i b hb⟩

theorem Inv.deleteList (hi : h.Inv) (hl : h.lists.get k = some l) :
    ∃ h', h.deleteList k = some h' ∧ Edits h h' k ∧ h'.lists.get k = none := by
  obtain ⟨a, ha, hsize⟩ := hi.within k l hl
  obtain ⟨h₁, hrelease, hlists, -, harr⟩ := release_eq ha
  refine ⟨{ h₁ with lists := h₁.lists.free k }, by simp [Heap.deleteList, hl, hrelease], ?_⟩
  have hget : ∀ j, (h₁.lists.free k).get j = if j = k then none else h.lists.get j := by
    rw [hlists]
    exact Slots.get_free _ _
  have htotal : ∀ i, (h₁.lists.free k).total (uses i) + uses i l = h.lists.total (uses i) := by
    rw [hlists]
    exact fun _ => Slots.total_free hl
  obtain ⟨hkept, hleft⟩ := hi.released hl ha harr
  refine ⟨hi.edits none hget (by simp) hkept ?_ (fun i b hb => (hleft i b hb).2) ?_,
    by rw [hget, if_pos rfl]⟩
  · intro i b hb
    have hsum := htotal i
    obtain ⟨hcount, -⟩ := hleft i b hb
    show b.refCount = (h₁.lists.free k).total (uses i)
    omega
  · show _ ≤ (h₁.lists.free k).fresh
    rw [hlists, Slots.fresh_free]

/-- A list gives its array up for a new one. -/
theorem Inv.reseat (hi : h.Inv) (hl : h.lists.get k = some l) (temp : SharedArray F) {n : Nat}
    (href : temp.refCount = 1) (hcap : 0 < temp.capacity) (hsize : n ≤ temp.size) :
    ∃ h', (h.release l.array).bind (fun h => h.install k temp n) = some h' ∧ Edits h h' k ∧
      h'.lists.get k = some { l with array := h.arrays.fresh, size := n } ∧
      h'.arrays.get h.arrays.fresh = some temp := by
  obtain ⟨a, ha, -⟩ := hi.within k l hl
  obtain ⟨h₁, hrelease, hlists, hfresh, harr₁⟩ := release_eq ha
  have hl₁ : h₁.lists.get k = some l := by rw [hlists, hl]
  refine ⟨_, by simp [hrelease, install, hl₁]; rfl, ?_⟩
  generalize hh' : ({ arrays := _, lists := _ } : Heap F) = h'
  have hget : ∀ j, h'.lists.get j =
      if j = k then some { l with array := h.arrays.fresh, size := n } else h.lists.get j := by
    subst hh'
    rw [hlists, hfresh]
    exact Slots.get_set hl _
  have harr : ∀ i, h'.arrays.get i =
      if i = h.arrays.fresh then some temp else h₁.arrays.get i := by
    subst hh'
    rw [← hfresh]
    exact Slots.get_alloc _ _
  have htotal : ∀ i, h'.lists.total (uses i) + uses i l = h.lists.total (uses i) +
      uses i { l with array := h.arrays.fresh, size := n } := by
    subst hh'
    rw [hlists, hfresh]
    exact fun _ => Slots.total_set hl _
  have hnew : h'.arrays.get h.arrays.fresh = some temp := by rw [harr, if_pos rfl]
  have hne := hi.array_ne_fresh hl
  obtain ⟨hkept, hleft⟩ := hi.released hl ha harr₁
  refine ⟨hi.edits _ hget ?_ ?_ ?_ ?_ ?_, by rw [hget, if_pos rfl], hnew⟩
  · rintro l' ⟨⟩
    exact ⟨temp, hnew, hsize⟩
  · intro j l' b hj hl' hb
    rw [harr, if_neg (hi.array_ne_fresh hl')]
    exact hkept j l' b hj hl' hb
  · intro i b hb
    have hsum := htotal i
    rw [harr] at hb
    split at hb
    · next heq =>
      cases hb
      have hzero := hi.uses_fresh
      have hone : uses h.arrays.fresh { l with array := h.arrays.fresh, size := n } = 1 :=
        uses_of_eq rfl
      subst heq
      rw [uses_of_ne hne, hone] at hsum
      omega
    · next hni =>
      obtain ⟨hcount, -⟩ := hleft i b hb
      have hzero : uses i { l with array := h.arrays.fresh, size := n } = 0 :=
        uses_of_ne (Ne.symm hni)
      omega
  · intro i b hb
    rw [harr] at hb
    split at hb
    · cases hb
      exact hcap
    · exact (hleft i b hb).2
  · subst hh'
    show _ ≤ (h₁.lists.set k _).fresh
    rw [hlists, Slots.fresh_set]

end Heap

end VideoPlayerCore
