import VideoPlayerCore.DelegateRemove
import VideoPlayerCore.DelegateSteps

/-!
# Who owns the method lists

Every list that is alive has one owner, a delegate that has it as `_current` or in its
`_deleteList`, and counts the invocations that go through it.  `SetMethodList` deletes
only lists that nothing goes through.

    setMethodList goes on with the list and drops some of the lists that the delegate
    owned, each with one reference                           (Heap.Inv.setMethodList)
-/

namespace VideoPlayerCore

variable {F : Type}

/-- The lists that a delegate deletes in the end. -/
def Delegate.owned (d : Delegate) : List Nat := d.current.toList ++ d.deleteList

namespace Heap

variable {h h' : Heap F} {k : Nat} {l : MethodList}

/-- 1 for a list, 0 for what is none or no longer one. -/
def alive (h : Heap F) (list : Nat) : Nat := if (h.lists.get list).isSome then 1 else 0

theorem alive_of_get (hl : h.lists.get k = some l) : h.alive k = 1 := by
  simp [alive, hl]

theorem alive_of_none (hk : h.lists.get k = none) : h.alive k = 0 := by
  simp [alive, hk]

theorem alive_le (h : Heap F) (k : Nat) : h.alive k ≤ 1 := by
  unfold alive
  split <;> omega

theorem get_of_alive (hk : 0 < h.alive k) : ∃ l, h.lists.get k = some l := by
  cases hl : h.lists.get k with
  | none =>
    rw [alive_of_none hl] at hk
    omega
  | some l => exact ⟨l, rfl⟩

theorem count_head (x k : Nat) (lists : List Nat) :
    (k :: lists).count x = [k].count x + lists.count x := by
  rw [← List.count_append]
  rfl

/-- From `h` to `h'` the lists `gone` were deleted. -/
structure Drops (h h' : Heap F) (gone : List Nat) : Prop where
  inv : h'.Inv
  alive : ∀ x, h'.alive x + gone.count x = h.alive x
  lists : ∀ x, x ∉ gone → h'.lists.get x = h.lists.get x
  visible : ∀ x, x ∉ gone → h'.visible x = h.visible x
  fresh : h.lists.fresh ≤ h'.lists.fresh

theorem Drops.refl (hi : h.Inv) : Drops h h [] :=
  ⟨hi, fun _ => rfl, fun _ _ => rfl, fun _ _ => rfl, Nat.le_refl _⟩

theorem Drops.trans {h₁ h₂ h₃ : Heap F} {gone gone' : List Nat} (h₁₂ : Drops h₁ h₂ gone)
    (h₂₃ : Drops h₂ h₃ gone') : Drops h₁ h₃ (gone ++ gone') where
  inv := h₂₃.inv
  alive x := by
    have hfirst := h₁₂.alive x
    have hsecond := h₂₃.alive x
    rw [List.count_append]
    omega
  lists x hx := by
    rw [List.mem_append, not_or] at hx
    exact (h₂₃.lists x hx.2).trans (h₁₂.lists x hx.1)
  visible x hx := by
    rw [List.mem_append, not_or] at hx
    exact (h₂₃.visible x hx.2).trans (h₁₂.visible x hx.1)
  fresh := Nat.le_trans h₁₂.fresh h₂₃.fresh

/-- A list that is still there was not dropped. -/
theorem Drops.not_mem {gone : List Nat} (hd : Drops h h' gone) (hl : h'.lists.get k = some l) :
    k ∉ gone := by
  intro hk
  have hcount := List.count_pos_iff.mpr hk
  have hsum := hd.alive k
  have hle := h.alive_le k
  rw [alive_of_get hl] at hsum
  omega

theorem Drops.get {gone : List Nat} (hd : Drops h h' gone) (hl : h'.lists.get k = some l) :
    h.lists.get k = some l := by
  rw [← hd.lists k (hd.not_mem hl), hl]

theorem Inv.drop (hi : h.Inv) (hl : h.lists.get k = some l) :
    ∃ h', h.deleteList k = some h' ∧ Drops h h' [k] := by
  obtain ⟨h', hdelete, hedit, hnone⟩ := hi.deleteList hl
  refine ⟨h', hdelete, hedit.inv, fun x => ?_, fun x hx => hedit.lists x (by simpa using hx),
    fun x hx => hedit.visible x (by simpa using hx), hedit.fresh⟩
  by_cases hx : x = k
  · subst hx
    rw [alive_of_none hnone, alive_of_get hl, List.count_singleton_self]
  · rw [List.count_singleton, if_neg (by simpa using Ne.symm hx), Nat.add_zero]
    unfold alive
    rw [hedit.lists x hx]

/-- The destructor deletes what the delegate owns. -/
theorem Inv.dropAll (hi : h.Inv) (lists : List Nat) (hlists : ∀ x, lists.count x ≤ h.alive x) :
    ∃ h', lists.foldlM Heap.deleteList h = some h' ∧ Drops h h' lists := by
  induction lists generalizing h with
  | nil => exact ⟨h, rfl, .refl hi⟩
  | cons k lists ih =>
    have hk := hlists k
    rw [List.count_cons_self] at hk
    obtain ⟨l, hl⟩ := get_of_alive (h := h) (k := k) (by omega)
    obtain ⟨h₁, hdelete, hdrop⟩ := hi.drop hl
    obtain ⟨h', hrest, hdrops⟩ := ih hdrop.inv fun x => by
      have hx := hlists x
      have hsum := hdrop.alive x
      rw [count_head] at hx
      omega
    refine ⟨h', ?_, hdrop.trans hdrops⟩
    rw [List.foldlM_cons, hdelete]
    exact hrest

/-- A list without invocations. -/
def Idle (h : Heap F) (k : Nat) : Prop := ∃ l, h.lists.get k = some l ∧ l.refCount = 1

theorem Inv.purge (hi : h.Inv) (lists : List Nat) (hlists : ∀ x, lists.count x ≤ h.alive x) :
    ∃ h' rest gone, h.purge lists = some (h', rest) ∧ Drops h h' gone ∧
      (∀ x, rest.count x + gone.count x = lists.count x) ∧ ∀ x ∈ gone, h.Idle x := by
  induction lists generalizing h with
  | nil => exact ⟨h, [], [], rfl, .refl hi, fun _ => rfl, by simp⟩
  | cons k lists ih =>
    have hk := hlists k
    rw [List.count_cons_self] at hk
    obtain ⟨l, hl⟩ := get_of_alive (h := h) (k := k) (by omega)
    rw [Heap.purge, hl, Option.bind_eq_bind, Option.bind_some]
    by_cases hone : l.refCount = 1
    · obtain ⟨h₁, hdelete, hdrop⟩ := hi.drop hl
      obtain ⟨h', rest, gone, hrest, hdrops, hcount, hidle⟩ := ih hdrop.inv fun x => by
        have hx := hlists x
        have hsum := hdrop.alive x
        rw [count_head] at hx
        omega
      refine ⟨h', rest, [k] ++ gone, ?_, hdrop.trans hdrops, fun x => ?_, fun x hx => ?_⟩
      · rw [if_pos hone, hdelete, Option.bind_eq_bind, Option.bind_some, hrest]
      · have hx := hcount x
        rw [List.count_append, count_head x k lists]
        omega
      · rcases List.mem_append.mp hx with hx | hx
        · rw [List.mem_singleton.mp hx]
          exact ⟨l, hl, hone⟩
        · obtain ⟨l', hl', hone'⟩ := hidle x hx
          exact ⟨l', hdrop.get hl', hone'⟩
    · obtain ⟨h', rest, gone, hrest, hdrops, hcount, hidle⟩ := ih hi fun x => by
        have hx := hlists x
        rw [count_head] at hx
        omega
      refine ⟨h', k :: rest, gone, ?_, hdrops, fun x => ?_, hidle⟩
      · rw [if_neg hone, hrest]
        rfl
      · have hx := hcount x
        rw [count_head, count_head x k lists]
        omega

/-- What a delegate comes to own by a new `_current`. -/
def added (current methodList : Option Nat) : List Nat :=
  if methodList = current then [] else methodList.toList

theorem Inv.retire (hi : h.Inv) (d : Delegate) (o : Option Nat)
    (hd : ∀ x, d.owned.count x ≤ h.alive x) :
    ∃ h' lists gone, h.retire d o = some (h', lists) ∧ Drops h h' gone ∧
      (∀ x, o.toList.count x + lists.count x + gone.count x =
        d.owned.count x + (added d.current o).count x) ∧
      ∀ x ∈ gone, h.Idle x := by
  obtain ⟨current, deleteList⟩ := d
  unfold Heap.retire Delegate.owned added
  cases current with
  | none =>
    refine ⟨h, deleteList, [], rfl, .refl hi, fun x => ?_, by simp⟩
    cases o <;> simp [Nat.add_comm]
  | some c =>
    have hc := hd c
    unfold Delegate.owned at hc
    rw [List.count_append] at hc
    simp only [Option.toList_some, List.count_singleton_self] at hc
    obtain ⟨l, hl⟩ := get_of_alive (h := h) (k := c) (by omega)
    dsimp only
    by_cases hsame : o = some c
    · rw [if_pos hsame, if_pos hsame]
      refine ⟨h, deleteList, [], rfl, .refl hi, fun x => ?_, by simp⟩
      rw [hsame, List.count_append]
    · rw [if_neg hsame, if_neg hsame, hl, Option.bind_eq_bind, Option.bind_some]
      by_cases hone : l.refCount = 1
      · obtain ⟨h', hdelete, hdrop⟩ := hi.drop hl
        rw [if_pos hone, hdelete]
        refine ⟨h', deleteList, [c], rfl, hdrop, fun x => ?_, fun x hx => ?_⟩
        · rw [List.count_append]
          simp only [Option.toList_some]
          omega
        · rw [List.mem_singleton.mp hx]
          exact ⟨l, hl, hone⟩
      · rw [if_neg hone]
        refine ⟨h, deleteList ++ [c], [], rfl, .refl hi, fun x => ?_, by simp⟩
        rw [List.count_append, List.count_append]
        simp only [Option.toList_some, List.count_nil]
        omega

theorem Inv.setMethodList (hi : h.Inv) (d : Delegate) (o : Option Nat)
    (hd : ∀ x, d.owned.count x + (added d.current o).count x ≤ h.alive x) :
    ∃ h' d' gone, h.setMethodList d o = some (h', d') ∧ d'.current = o ∧ Drops h h' gone ∧
      (∀ x, d'.owned.count x + gone.count x =
        d.owned.count x + (added d.current o).count x) ∧
      ∀ x ∈ gone, h.Idle x := by
  obtain ⟨h₁, lists, gone₁, hretire, hdrop, hcount₁, hidle₁⟩ :=
    hi.retire d o fun x => Nat.le_trans (Nat.le_add_right _ _) (hd x)
  obtain ⟨h', rest, gone, hpurge, hdrops, hcount, hidle⟩ := hdrop.inv.purge lists (by
    intro x
    have hle := hd x
    have hsum := hcount₁ x
    have halive := hdrop.alive x
    omega)
  refine ⟨h', { current := o, deleteList := rest }, gone₁ ++ gone, ?_, rfl, hdrop.trans hdrops,
    fun x => ?_, fun x hx => ?_⟩
  · simp [Heap.setMethodList, hretire, hpurge]
  · have hsum := hcount₁ x
    have hrest := hcount x
    have howned : ({ current := o, deleteList := rest } : Delegate).owned.count x =
        o.toList.count x + rest.count x := List.count_append
    rw [howned, List.count_append]
    omega
  · rcases List.mem_append.mp hx with hx | hx
    · exact hidle₁ x hx
    · obtain ⟨l, hl, hone⟩ := hidle x hx
      exact ⟨l, hdrop.get hl, hone⟩

end Heap

end VideoPlayerCore
