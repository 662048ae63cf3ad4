import VideoPlayerCore.DelegateRefines

/-!
# What a delegate is left with by `-=`

`Remove` of a list takes one entry off for each entry of its operand, from the end, and the
order of the operand does not matter.  The counting pass and the removal of one entry have the
same meaning, and `nullptr`, the list itself and a new list tell apart what is left:

    h.removeList k j   is   subtract (visible k) (keys of visible j)      (delegates_subtract)
-/

namespace VideoPlayerCore

open KeyedLists Machine

variable {F : Type}

namespace Heap

variable {h : Heap F} {k : Nat} {l : MethodList} {ks : List (Nat × Nat)}
  {r : Heap F × Option Nat}

/-- `Remove` of entries under the keys `ks` from the list `k` returns `r`. -/
structure Subtracts (h : Heap F) (k : Nat) (ks : List (Nat × Nat)) (r : Heap F × Option Nat) :
    Prop where
  /-- whatever the order of the operand -/
  order : ∀ ks', ks'.Perm ks →
    subtract Method.key (h.visible k) ks' = subtract Method.key (h.visible k) ks
  /-- What is left keeps its order and its callables. -/
  sublist : (subtract Method.key (h.visible k) ks).Sublist (h.visible k)
  shows : ∀ x, r.2 = some x → r.1.visible x = subtract Method.key (h.visible k) ks
  null_iff : r.2 = none ↔ subtract Method.key (h.visible k) ks = []
  same_iff : r.2 = some k ↔ subtract Method.key (h.visible k) ks = h.visible k
  /-- Any other list is a new one. -/
  new : ∀ x, r.2 = some x → x ≠ k → h.lists.get x = none ∧
    ∃ l, r.1.lists.get x = some l ∧ l.refCount = 1
  others : ∀ x l, h.lists.get x = some l →
    r.1.lists.get x = some l ∧ r.1.visible x = h.visible x
  inv : r.1.Inv

theorem Leaves.subtracts (hi : h.Inv) (hl : h.lists.get k = some l) (hne : h.visible k ≠ [])
    (hr : Leaves h (subtract Method.key (h.visible k) ks) (some k) r)
    (hshort : r.2 ≠ some k →
      (subtract Method.key (h.visible k) ks).length < (h.visible k).length) :
    Subtracts h k ks r := by
  have horder : ∀ ks', ks'.Perm ks →
      subtract Method.key (h.visible k) ks' = subtract Method.key (h.visible k) ks :=
    fun ks' hperm => subtract_perm hperm _
  have hsub : (subtract Method.key (h.visible k) ks).Sublist (h.visible k) :=
    subtract_sublist ks (h.visible k)
  generalize hleft : subtract Method.key (h.visible k) ks = left at hr hshort
  cases hr with
  | same heq =>
    refine ⟨horder, hsub, ?_, ?_, ?_, ?_, fun x l hx => ⟨hx, rfl⟩, hi⟩
    · rintro x ⟨⟩
      rw [hleft]
      exact heq
    · rw [hleft, ← heq]
      exact iff_of_false (Option.some_ne_none k) hne
    · rw [hleft]
      exact iff_of_true rfl heq.symm
    · rintro x ⟨⟩ hx
      exact absurd rfl hx
  | null hnil =>
    refine ⟨horder, hsub, ?_, ?_, ?_, ?_, fun x l hx => ⟨hx, rfl⟩, hi⟩
    · rintro x ⟨⟩
    · rw [hleft]
      exact iff_of_true rfl hnil
    · rw [hleft, hnil]
      exact iff_of_false (Option.some_ne_none k).symm hne.symm
    · rintro x ⟨⟩
  | new hedit hshow hleft_ne =>
    have hfresh := Slots.get_fresh h.lists
    have hk : h.lists.fresh ≠ k := (Nat.ne_of_lt (Slots.lt_fresh hl)).symm
    have hlt := hshort (by simpa using hk)
    refine ⟨horder, hsub, ?_, ?_, ?_, ?_, ?_, hedit.inv⟩
    · rintro x ⟨⟩
      rw [hleft]
      exact hshow.2
    · rw [hleft]
      exact iff_of_false (Option.some_ne_none _) hleft_ne
    · rw [hleft]
      refine iff_of_false (fun hsome => hk (Option.some.inj hsome)) fun heq => ?_
      rw [heq] at hlt
      exact Nat.lt_irrefl _ hlt
    · rintro x ⟨⟩ -
      exact ⟨hfresh, hshow.1⟩
    · intro x l hx
      have hold : x ≠ h.lists.fresh := Nat.ne_of_lt (Slots.lt_fresh hx)
      exact ⟨(hedit.lists x hold).trans hx, hedit.visible x hold⟩

theorem Inv.remove_subtracts (hi : h.Inv) (hl : h.lists.get k = some l) (hne : h.visible k ≠ [])
    (key : Nat × Nat) : ∃ r, h.remove k key = some r ∧ Subtracts h k [key] r := by
  have hpos : 0 < l.size := hi.length_visible hl ▸ List.length_pos_iff.mpr hne
  obtain ⟨r, hr, hleaves, hshort⟩ := hi.remove hl hpos key
  exact ⟨r, hr, Leaves.subtracts hi hl hne hleaves hshort⟩

theorem Inv.removeList_subtracts (hi : h.Inv) (hl : h.lists.get k = some l)
    (hne : h.visible k ≠ []) {j : Nat} {other : MethodList} (hj : h.lists.get j = some other) :
    ∃ r, h.removeList k j = some r ∧ Subtracts h k ((h.visible j).map Method.key) r := by
  have hpos : 0 < l.size := hi.length_visible hl ▸ List.length_pos_iff.mpr hne
  obtain ⟨r, hr, hleaves, hshort⟩ := hi.removeList hl hpos hj
  exact ⟨r, hr, Leaves.subtracts hi hl hne hleaves hshort⟩

/-- An operand of one entry goes to the other overload. -/
theorem Inv.removeList_one (hi : h.Inv) (hl : h.lists.get k = some l) {j : Nat}
    {other : MethodList} (hj : h.lists.get j = some other) {m : Method F}
    (hone : h.visible j = [m]) : h.removeList k j = h.remove k m.key := by
  obtain ⟨a, ha, -⟩ := hi.within k l hl
  obtain ⟨b, hb, hrange⟩ := hi.operand hj
  simp only [Heap.removeList, hl, ha, hj, hb, hrange, hone, Option.bind_eq_bind, Option.bind_some]

end Heap

/-- `+=` and then `-=` of another delegate change nothing. -/
theorem Plain.add_remove (p : Plain F) {a b : Nat} (hab : a ≠ b) {A B : List (Method F)}
    (ha : p.delegates.get a = some A) (hb : p.delegates.get b = some B) :
    exec Plain.step p [.addDelegate a b, .removeDelegate a b] = some p := by
  have hget := fun j => Slots.get_set ha (A ++ B) j
  have ha' : (p.delegates.set a (A ++ B)).get a = some (A ++ B) := by rw [hget, if_pos rfl]
  have hb' : (p.delegates.set a (A ++ B)).get b = some B := by rw [hget, if_neg hab.symm, hb]
  have hsame : (p.delegates.set a (A ++ B)).set a A = p.delegates := by
    refine Slots.ext_get (by rw [Slots.fresh_set, Slots.fresh_set]) fun j => ?_
    rw [Slots.get_set ha', hget]
    split
    · next hj => rw [hj, ha]
    · rfl
  simp only [exec, Plain.step, ha, hb, ha', hb', Option.bind_eq_bind, Option.bind_some,
    subtract_append, hsame]

theorem World.Inv.add_remove {w : World F} (hw : w.Inv) {a b : Nat} (hab : a ≠ b)
    (ha : (w.delegates.get a).isSome = true) (hb : (w.delegates.get b).isSome = true) :
    ∃ w', exec World.step w [.addDelegate a b, .removeDelegate a b] = some w' ∧
      w'.plain = w.plain := by
  obtain ⟨da, ha⟩ := Option.isSome_iff_exists.mp ha
  obtain ⟨db, hb⟩ := Option.isSome_iff_exists.mp hb
  have hplain := hw.exec_plain [.addDelegate a b, .removeDelegate a b]
  rw [w.plain.add_remove hab (by rw [w.plain_get, ha]; rfl) (by rw [w.plain_get, hb]; rfl)] at hplain
  exact Option.map_eq_some_iff.mp hplain

/-- **Subtraction of method lists.**  For every list with entries and every operand, in every
heap: `Remove` takes off, for each entry of the operand, the last entry with its key, in whatever
order; the rest keeps its order and its callables; the result is `nullptr` exactly if nothing
remains and the list itself exactly if nothing goes; one entry is removed in the same way by the
other overload.  After any run of the operators `a += b` and then `a -= b` restores `a`. -/
theorem delegates_subtract {h : Heap F} (hi : h.Inv) {k j : Nat} {l other : MethodList}
    (hl : h.lists.get k = some l) (hj : h.lists.get j = some other) (hk : h.visible k ≠ []) :
    (∃ r, h.removeList k j = some r ∧ h.Subtracts k ((h.visible j).map Method.key) r) ∧
      (∀ key, ∃ r, h.remove k key = some r ∧ h.Subtracts k [key] r) ∧
      (∀ m, h.visible j = [m] → h.removeList k j = h.remove k m.key) ∧
      ∀ (acts : List (DelegateAct F)) w a b, exec World.step {} acts = some w → a ≠ b →
        (w.delegates.get a).isSome = true → (w.delegates.get b).isSome = true →
        ∃ w', exec World.step w [.addDelegate a b, .removeDelegate a b] = some w' ∧
          w'.plain = w.plain :=
  ⟨hi.removeList_subtracts hl hk hj, hi.remove_subtracts hl hk,
    fun _ hone => hi.removeList_one hl hj hone,
    fun _ _ _ _ hw hab => (World.inv_start.exec_keeps hw).1.add_remove hab⟩

/-- Pointers 1, 2, 1 without pointers 2, 1: the first entry stays. -/
theorem delegates_subtract_pointers :
    ∃ (h : Heap Unit) (k j : Nat), h.visible k = [⟨0, 1, ()⟩, ⟨0, 2, ()⟩, ⟨0, 1, ()⟩] ∧
      h.visible j = [⟨0, 2, ()⟩, ⟨0, 1, ()⟩] ∧
      ∃ r, h.removeList k j = some r ∧ h.Subtracts k ((h.visible j).map Method.key) r := by
  have hrun : (exec World.step ({} : World Unit) [.constructFrom (.pointer 1 ()),
      .add 0 (.pointer 2 ()), .add 0 (.pointer 1 ()), .constructFrom (.pointer 2 ()),
      .add 1 (.pointer 1 ())]).any (fun w => decide (
        w.heap.visible 2 = [⟨0, 1, ()⟩, ⟨0, 2, ()⟩, ⟨0, 1, ()⟩] ∧
        w.heap.visible 4 = [⟨0, 2, ()⟩, ⟨0, 1, ()⟩] ∧
        (w.heap.lists.get 2).isSome = true ∧ (w.heap.lists.get 4).isSome = true)) = true := by
    decide
  obtain ⟨w, hw, hp⟩ := (Option.any_eq_true _ _).mp hrun
  obtain ⟨hk, hj, hlist, hother⟩ := of_decide_eq_true hp
  obtain ⟨l, hl⟩ := Option.isSome_iff_exists.mp hlist
  obtain ⟨other, hother⟩ := Option.isSome_iff_exists.mp hother
  exact ⟨w.heap, 2, 4, hk, hj,
    (delegates_subtract (World.inv_start.exec_keeps hw).1.heap hl hother (by simp [hk])).1⟩

end VideoPlayerCore
