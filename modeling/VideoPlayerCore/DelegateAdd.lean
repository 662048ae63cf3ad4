import VideoPlayerCore.DelegateVersions

/-!
# Add of method lists

`Add` appends to what a list shows.  Which way it goes (in place, by a truncated copy or
by a larger one) is not to be seen.

    h.add k m       shows visible k ++ [m]                    (Inv.add)
    h.addList k j   shows visible k ++ visible j              (Inv.addList)
-/

namespace VideoPlayerCore

variable {F : Type}

namespace SharedArray

variable {a : SharedArray F}

theorem construct_eq (a : SharedArray F) (entries : List (Method F))
    (h : a.size + entries.length ≤ a.capacity) :
    ∃ b, a.construct entries = some b ∧ b.data = a.data ++ entries ∧ b.capacity = a.capacity ∧
      b.refCount = a.refCount :=
  ⟨_, dif_pos h, rfl, rfl, rfl⟩

theorem range_eq {start len : Nat} (h : start + len ≤ a.size) :
    a.range start len = some ((a.data.drop start).take len) := if_pos h

theorem pushBackRange_eq (a array : SharedArray F) (start len : Nat)
    (hrange : start + len ≤ array.size) (hroom : a.size + len ≤ a.capacity) :
    ∃ b, a.pushBackRange array start len = some b ∧
      b.data = a.data ++ (array.data.drop start).take len ∧ b.capacity = a.capacity ∧
      b.refCount = a.refCount := by
  have hlen : ((array.data.drop start).take len).length = len := by
    unfold SharedArray.size at hrange
    rw [List.length_take, List.length_drop]
    omega
  unfold pushBackRange
  rw [range_eq hrange, Option.bind_some]
  exact construct_eq _ _ (by rw [hlen]; exact hroom)

end SharedArray

namespace Heap

variable {h : Heap F} {j k : Nat} {l : MethodList} {a : SharedArray F}

/-! ## Add -/

theorem Inv.extend (hi : h.Inv) (hl : h.lists.get k = some l) (ha : h.arrays.get l.array = some a)
    (hfull : l.size = a.size) (entries : List (Method F))
    (hroom : a.size + entries.length ≤ a.capacity) :
    ∃ h', h.extend k entries = some h' ∧ Edits h h' k ∧
      h'.lists.get k = some { l with size := l.size + entries.length } ∧
      h'.visible k = h.visible k ++ entries := by
  obtain ⟨b, hb, hdata, hcap, href⟩ := SharedArray.construct_eq _ _ hroom
  refine ⟨_, by simp [Heap.extend, hl, ha, hb]; rfl, ?_⟩
  generalize hh' : ({ arrays := _, lists := _ } : Heap F) = h'
  have hget : ∀ j, h'.lists.get j =
      if j = k then some { l with size := l.size + entries.length } else h.lists.get j := by
    subst hh'
    exact Slots.get_set hl _
  have harr : ∀ i, h'.arrays.get i = if i = l.array then some b else h.arrays.get i := by
    subst hh'
    exact Slots.get_set ha _
  have htotal : ∀ i, h'.lists.total (uses i) = h.lists.total (uses i) := by
    intro i
    have hsum : h'.lists.total (uses i) + uses i l = h.lists.total (uses i) +
        uses i { l with size := l.size + entries.length } := by
      subst hh'
      exact Slots.total_set hl _
    exact Nat.add_right_cancel hsum
  have hown : h'.arrays.get l.array = some b := by rw [harr, if_pos rfl]
  have hlist : h'.lists.get k = some { l with size := l.size + entries.length } := by
    rw [hget, if_pos rfl]
  have hsize : b.data.length = l.size + entries.length := by
    rw [hdata, List.length_append, hfull]
    rfl
  refine ⟨hi.edits _ hget ?_ ?_ ?_ ?_ ?_, hlist, ?_⟩
  · rintro l' ⟨⟩
    exact ⟨b, hown, Nat.le_of_eq hsize.symm⟩
  · intro i l' c hi' hl' hc
    rw [harr]
    split
    · next heq =>
      rw [heq, ha] at hc
      cases hc
      exact ⟨b, entries, rfl, hdata⟩
    · exact ⟨c, [], hc, (List.append_nil _).symm⟩
  · intro i c hc
    rw [htotal]
    rw [harr] at hc
    split at hc
    · next heq =>
      cases hc
      rw [href, heq]
      exact hi.counted _ a ha
    · exact hi.counted i c hc
  · intro i c hc
    rw [harr] at hc
    split at hc
    · cases hc
      rw [hcap]
      exact hi.roomy _ a ha
    · exact hi.roomy i c hc
  · subst hh'
    show _ ≤ (h.lists.set k _).fresh
    rw [Slots.fresh_set]
  · rw [visible_eq hlist hown, visible_eq hl ha]
    show b.data.take (l.size + entries.length) = _
    rw [← hsize, List.take_length, hdata, hfull]
    unfold SharedArray.size
    rw [List.take_length]

/-- `PushBack` behind a move of the entries to a larger array. -/
theorem Inv.moveExtend (hi : h.Inv) (hl : h.lists.get k = some l) (temp : SharedArray F)
    (href : temp.refCount = 1) (hdata : temp.data = h.visible k) (entries : List (Method F))
    (hpos : 0 < temp.capacity) (hroom : l.size + entries.length ≤ temp.capacity) :
    ∃ h₁, (h.release l.array).bind (fun h => h.install k temp l.size) = some h₁ ∧
      Edits h h₁ k ∧ ∃ h', h₁.extend k entries = some h' ∧ Edits h h' k ∧
        (∃ l', h'.lists.get k = some l' ∧ l'.refCount = l.refCount) ∧
        h'.visible k = h.visible k ++ entries := by
  have hsize : temp.size = l.size := by
    unfold SharedArray.size
    rw [hdata, hi.length_visible hl]
  obtain ⟨h₁, hmove, hedit, hl₁, ha₁⟩ := hi.reseat hl temp href hpos (Nat.le_of_eq hsize.symm)
  have hvisible : h₁.visible k = h.visible k := by
    rw [visible_eq hl₁ ha₁, ← hdata]
    show temp.data.take l.size = temp.data
    rw [← hsize]
    unfold SharedArray.size
    rw [List.take_length]
  obtain ⟨h', hext, hedit', hl', hshow⟩ := hedit.inv.extend hl₁ ha₁ hsize.symm entries
    (by rw [hsize]; exact hroom)
  exact ⟨h₁, hmove, hedit, h', hext, hedit.trans hedit', ⟨_, hl', rfl⟩,
    by rw [hshow, hvisible]⟩

/-- The copy of the visible entries that `Add` makes for a list that shares its array with
a longer one. -/
theorem Inv.truncated (hi : h.Inv) (hl : h.lists.get k = some l)
    (ha : h.arrays.get l.array = some a) {cap : Nat} (hcap : l.size ≤ cap) :
    ∃ temp, (SharedArray.new cap).pushBackRange a 0 l.size = some temp ∧
      temp.data = h.visible k ∧ temp.capacity = cap ∧ temp.refCount = 1 := by
  obtain ⟨b, hb, hsize⟩ := hi.within k l hl
  rw [ha] at hb
  cases hb
  obtain ⟨temp, htemp, hdata, hcap, href⟩ := SharedArray.pushBackRange_eq (.new cap) a 0 l.size
    (by omega) (by show 0 + l.size ≤ cap; omega)
  exact ⟨temp, htemp, by rw [hdata, visible_eq hl ha]; rfl, hcap, href⟩

/-- The copy that `Add` makes of a full array. -/
theorem Inv.grown (hl : h.lists.get k = some l)
    (ha : h.arrays.get l.array = some a) (hfull : l.size = a.size) {cap : Nat}
    (hcap : l.size ≤ cap) :
    ∃ temp, (SharedArray.new cap).assign a = some temp ∧
      temp.data = h.visible k ∧ temp.capacity = cap ∧ temp.refCount = 1 := by
  have hroom : (SharedArray.new cap : SharedArray F).size + a.data.length ≤ cap := by
    show 0 + a.size ≤ cap
    omega
  obtain ⟨temp, htemp, hdata, hcap, href⟩ := SharedArray.construct_eq _ _ hroom
  refine ⟨temp, htemp, ?_, hcap, href⟩
  rw [hdata, visible_eq hl ha, hfull]
  unfold SharedArray.size
  rw [List.take_length]
  rfl

/-- A list that is shared, or whose array is full, moves, and what follows is done behind the
move; there is room for the entries then. -/
theorem Inv.grow (hi : h.Inv) (hl : h.lists.get k = some l) (ha : h.arrays.get l.array = some a)
    (capacity capacity' : Nat) (full : Prop) [Decidable full] (entries : List (Method F))
    (hcap : l.size < a.size → 0 < capacity ∧ l.size + entries.length ≤ capacity)
    (hcap' : l.size = a.size → full → 0 < capacity' ∧ l.size + entries.length ≤ capacity')
    (hroom : l.size = a.size → ¬full → a.size + entries.length ≤ a.capacity) :
    ∃ h₁, (∀ rest : Heap F → Option (Heap F), (if l.size < a.size then
          ((SharedArray.new capacity).pushBackRange a 0 l.size).bind fun temp =>
            (h.release l.array).bind fun h => (h.install k temp l.size).bind rest
        else if full then
          ((SharedArray.new capacity').assign a).bind fun temp =>
            (h.release l.array).bind fun h => (h.install k temp l.size).bind rest
        else rest h) = rest h₁) ∧ Edits h h₁ k ∧
      ∃ h', h₁.extend k entries = some h' ∧ Edits h h' k ∧
        (∃ l', h'.lists.get k = some l' ∧ l'.refCount = l.refCount) ∧
        h'.visible k = h.visible k ++ entries := by
  obtain ⟨b, hb, hsize⟩ := hi.within k l hl
  obtain rfl := Option.some.inj (ha.symm.trans hb)
  by_cases hshared : l.size < a.size
  · obtain ⟨hpos, hfits⟩ := hcap hshared
    obtain ⟨temp, htemp, hdata, htempcap, href⟩ := hi.truncated hl ha
      (show l.size ≤ capacity by omega)
    obtain ⟨h₁, hmove, hedit, hext⟩ := hi.moveExtend hl temp href hdata entries
      (by omega) (by omega)
    refine ⟨h₁, fun rest => ?_, hedit, hext⟩
    rw [if_pos hshared, htemp, Option.bind_some, ← Option.bind_assoc, hmove, Option.bind_some]
  · have heq : l.size = a.size := by omega
    by_cases hfull : full
    · obtain ⟨hpos, hfits⟩ := hcap' heq hfull
      obtain ⟨temp, htemp, hdata, htempcap, href⟩ := Inv.grown hl ha heq
        (show l.size ≤ capacity' by omega)
      obtain ⟨h₁, hmove, hedit, hext⟩ := hi.moveExtend hl temp href hdata entries
        (by omega) (by omega)
      refine ⟨h₁, fun rest => ?_, hedit, hext⟩
      rw [if_neg hshared, if_pos hfull, htemp, Option.bind_some, ← Option.bind_assoc, hmove,
        Option.bind_some]
    · obtain ⟨h', hext, hedit, hl', hshow⟩ := hi.extend hl ha heq entries (hroom heq hfull)
      refine ⟨h, fun rest => ?_, .refl hi, h', hext, hedit, ⟨_, hl', rfl⟩, hshow⟩
      rw [if_neg hshared, if_neg hfull]

theorem Inv.add (hi : h.Inv) (hl : h.lists.get k = some l)
    (ha : h.arrays.get l.array = some a) (hpos : 0 < l.size ∨ a.size = 0) (m : Method F) :
    ∃ h', h.add k m = some h' ∧ Edits h h' k ∧
      (∃ l', h'.lists.get k = some l' ∧ l'.refCount = l.refCount) ∧
      h'.visible k = h.visible k ++ [m] := by
  have hroomy := hi.roomy _ a ha
  have hle : a.size ≤ a.capacity := a.size_le
  have hone : [m].length = 1 := rfl
  obtain ⟨h₁, hgrow, -, h', hext, hedit, hl', hshow⟩ := hi.grow hl ha (l.size * 2)
    (a.capacity * 2) (a.size = a.capacity) [m] (fun _ => by omega) (fun _ _ => by omega)
    fun _ _ => by omega
  refine ⟨h', ?_, hedit, hl', hshow⟩
  simp only [Heap.add, hl, ha, Option.bind_eq_bind, Option.bind_some]
  rw [hgrow fun h => h.extend k [m], hext]

/-- The entries of a list as an operand. -/
theorem Inv.operand (hi : h.Inv) (hl : h.lists.get k = some l) :
    ∃ a, h.arrays.get l.array = some a ∧ a.range 0 l.size = some (h.visible k) := by
  obtain ⟨a, ha, hsize⟩ := hi.within k l hl
  refine ⟨a, ha, ?_⟩
  rw [SharedArray.range_eq (by omega), visible_eq hl ha]
  rfl

theorem Inv.addList (hi : h.Inv) (hl : h.lists.get k = some l) {other : MethodList}
    (hj : h.lists.get j = some other) (hne : j ≠ k) (hpos : 0 < other.size) :
    ∃ h', h.addList k j = some h' ∧ Edits h h' k ∧
      (∃ l', h'.lists.get k = some l' ∧ l'.refCount = l.refCount) ∧
      h'.visible k = h.visible k ++ h.visible j := by
  obtain ⟨a, ha, -⟩ := hi.within k l hl
  have hlen := hi.length_visible hj
  obtain ⟨h₁, hgrow, hedit₁, h', hext, hedit, hl', hshow⟩ := hi.grow hl ha
    ((l.size + other.size) * 2) ((l.size + other.size) * 2)
    (a.capacity - 1 ≤ l.size + other.size) (h.visible j) (fun _ => by omega)
    (fun _ _ => by omega) fun _ _ => by omega
  -- the operand is read behind the move and shows what it did before
  have hj₁ : h₁.lists.get j = some other := by rw [hedit₁.lists j hne, hj]
  obtain ⟨b, hb, hrange⟩ := hedit₁.inv.operand hj₁
  rw [hedit₁.visible j hne] at hrange
  have hrest := hgrow fun h => (h.lists.get j).bind fun other =>
    (h.arrays.get other.array).bind fun b => (b.range 0 other.size).bind fun entries =>
      h.extend k entries
  refine ⟨h', ?_, hedit, hl', hshow⟩
  simp only [Heap.addList, hl, ha, hj, Option.bind_eq_bind, Option.bind_some] at hrest ⊢
  rw [hrest, hj₁, Option.bind_some, hb, Option.bind_some, hrange, Option.bind_some, hext]

end Heap

end VideoPlayerCore
