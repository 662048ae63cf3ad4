import VideoPlayerCore.DelegateThrows

/-!
# What an exception leaves behind

An exception in an operator finds the heap with, at most, one list more than before; the
others are as they were (Heap.Edits).  An array is torn by the one copy that `PushBack(m)`
makes, and it is an array of the new list alone, but when `+=` appends in place.

    h.InPlace d   `_current` ends where its array ends, and there is room in it

    u ∈ (op.tryCallable d m).thrown ⟨h, []⟩ → Edits h u.heap fresh ∧
      every array in u.torn is new, or op is += and d is in place      (Inv.thrown_callable)
-/

namespace VideoPlayerCore

open Attempt

variable {F : Type}

namespace Memory

variable {α : Type} {list array : Nat} {t : Memory F}

theorem thrown_listAt_bind {l : MethodList} (h : t.heap.lists.get list = some l)
    (f : MethodList → Attempt (Memory F) α) : (listAt list >>= f).thrown t = (f l).thrown t :=
  thrown_reads_bind h

theorem thrown_arrayAt_bind {a : SharedArray F} (h : t.heap.arrays.get array = some a)
    (f : SharedArray F → Attempt (Memory F) α) :
    (arrayAt array >>= f).thrown t = (f a).thrown t :=
  thrown_reads_bind h

end Memory

namespace Heap

variable {h h₁ : Heap F} {d : Delegate} {j k n : Nat} {l : MethodList} {a : SharedArray F}
  {P P' : Nat → Prop} {u : Memory F}

/-- `+=` of a callable appends to the array of `_current` itself. -/
def InPlace (h : Heap F) (d : Delegate) : Prop :=
  ∃ current l a, d.current = some current ∧ h.lists.get current = some l ∧
    h.arrays.get l.array = some a ∧ l.size = a.size ∧ a.size < a.capacity

/-- Only the list `k` may have changed, and the arrays that are torn meet `P`. -/
structure Behind (h : Heap F) (k : Nat) (P : Nat → Prop) (u : Memory F) : Prop where
  edits : Edits h u.heap k
  torn : ∀ i ∈ u.torn, P i

theorem Edits.behind (hedit : Edits h h₁ k) : h.Behind k P ⟨h₁, []⟩ :=
  ⟨hedit, fun _ hi => absurd hi List.not_mem_nil⟩

theorem Behind.mono (hu : h.Behind k P u) (hP : ∀ i, P i → P' i) : h.Behind k P' u :=
  ⟨hu.edits, fun i hi => hP i (hu.torn i hi)⟩

theorem Edits.then (hedit : Edits h h₁ k) (hu : h₁.Behind k P u) : h.Behind k P u :=
  ⟨hedit.trans hu.edits, hu.torn⟩

/-! ## Add -/

/-- The list has an array of its own behind the move. -/
theorem Inv.move_ensures (hi : h.Inv) (hl : h.lists.get k = some l) {capacity : Nat}
    {fill : SharedArray F → Option (SharedArray F)}
    (hfill : ∃ temp, fill (.new capacity) = some temp ∧ temp.data = h.visible k ∧
      temp.capacity = capacity ∧ temp.refCount = 1) (hcap : 0 < capacity) (n : Nat) :
    (Memory.move k capacity n fill).Ensures ⟨h, []⟩ (h.Behind k P) fun _ t =>
      t.torn = [] ∧ Edits h t.heap k ∧
        ∃ l₁, t.heap.lists.get k = some l₁ ∧ l₁.array = h.arrays.fresh := by
  have hstart : h.Behind k P ⟨h, []⟩ := (Edits.refl hi).behind
  refine .reads_bind fun l' hl' => .points_bind 2 hstart <| .reads_bind fun temp htemp =>
    .points_bind n hstart <| ensures_always fun _ t ht => ?_
  obtain rfl := Option.some.inj (hl.symm.trans hl')
  obtain ⟨temp', htemp', hdata, rfl, href⟩ := hfill
  obtain rfl := Option.some.inj (htemp.symm.trans htemp')
  have hsize : l.size ≤ temp.size := by
    unfold SharedArray.size
    rw [hdata, hi.length_visible hl]
  obtain ⟨h₁, hmove, hedit, hl₁, -⟩ := hi.reseat hl temp href hcap hsize
  dsimp only at ht
  rw [hmove] at ht
  cases ht
  exact ⟨rfl, hedit, _, hl₁, rfl⟩

/-- A list that is shared, or whose array is full, moves. -/
theorem Inv.grow_ensures (hi : h.Inv) (hl : h.lists.get k = some l)
    (ha : h.arrays.get l.array = some a) {capacity capacity' : Nat} {full : Prop} [Decidable full]
    (hcap : l.size < a.size → l.size ≤ capacity ∧ 0 < capacity)
    (hcap' : l.size = a.size → full → l.size ≤ capacity' ∧ 0 < capacity') :
    (if l.size < a.size then
        Memory.move k capacity l.size fun temp => temp.pushBackRange a 0 l.size
      else if full then Memory.move k capacity' a.size fun temp => temp.assign a
      else pure ()).Ensures ⟨h, []⟩ (h.Behind k P) fun _ t => t.torn = [] ∧ Edits h t.heap k ∧
        ∃ l₁, t.heap.lists.get k = some l₁ ∧
          (h.arrays.fresh ≤ l₁.array ∨ l₁.array = l.array ∧ l.size = a.size ∧ ¬full) := by
  obtain ⟨b, hb, hsize⟩ := hi.within k l hl
  obtain rfl := Option.some.inj (ha.symm.trans hb)
  have moved : ∀ t : Memory F, (t.torn = [] ∧ Edits h t.heap k ∧
      ∃ l₁, t.heap.lists.get k = some l₁ ∧ l₁.array = h.arrays.fresh) →
      t.torn = [] ∧ Edits h t.heap k ∧ ∃ l₁, t.heap.lists.get k = some l₁ ∧
        (h.arrays.fresh ≤ l₁.array ∨ l₁.array = l.array ∧ l.size = a.size ∧ ¬full) := by
    rintro t ⟨htorn, hedit, l₁, hl₁, harray⟩
    exact ⟨htorn, hedit, l₁, hl₁, .inl (Nat.le_of_eq harray.symm)⟩
  split
  · next hshared =>
    obtain ⟨hle, hpos⟩ := hcap hshared
    exact (hi.move_ensures hl (hi.truncated hl ha hle) hpos l.size).mono (fun _ hu => hu)
      fun _ t ht => moved t ht
  · next hshared =>
    have heq : l.size = a.size := by omega
    split
    · next hfull =>
      obtain ⟨hle, hpos⟩ := hcap' heq hfull
      exact (hi.move_ensures hl (Inv.grown hl ha heq hle) hpos a.size).mono (fun _ hu => hu)
        fun _ t ht => moved t ht
    · next hroom => exact ensures_pure ⟨rfl, .refl hi, l, hl, .inr ⟨rfl, heq, hroom⟩⟩

theorem Inv.thrown_add (hi : h.Inv) (hl : h.lists.get k = some l)
    (ha : h.arrays.get l.array = some a) (hpos : 0 < l.size ∨ a.size = 0) (m : Method F) :
    ∀ u ∈ (Memory.add k m).thrown ⟨h, []⟩, h.Behind k (fun i => h.arrays.fresh ≤ i ∨
      i = l.array ∧ l.size = a.size ∧ a.size < a.capacity) u := by
  have hle : a.size ≤ a.capacity := a.size_le
  have hroomy := hi.roomy _ a ha
  suffices hadd : (Memory.add k m).Ensures ⟨h, []⟩ (h.Behind k fun i => h.arrays.fresh ≤ i ∨
      i = l.array ∧ l.size = a.size ∧ a.size < a.capacity) fun _ _ => True from hadd.thrown
  refine .reads_bind fun l' hl' => .reads_bind fun a' ha' => ?_
  obtain rfl := Option.some.inj (hl.symm.trans hl')
  obtain rfl := Option.some.inj (ha.symm.trans ha')
  refine (hi.grow_ensures hl ha (fun _ => by omega) fun _ _ => by omega).bind ?_
  rintro _ ⟨h₁, torn⟩ ⟨rfl, hedit, l₁, hl₁, harray⟩
  refine .reads_bind fun l' hl' => .leaving_bind ⟨hedit, fun i hi' => ?_⟩
    (ensures_always fun _ _ _ => trivial)
  obtain rfl := Option.some.inj (hl₁.symm.trans hl')
  rw [List.mem_singleton.mp hi']
  exact harray.imp_right fun hplace => ⟨hplace.1, hplace.2.1, by omega⟩

theorem Inv.thrown_addList (hi : h.Inv) (hl : h.lists.get k = some l) {other : MethodList}
    (hj : h.lists.get j = some other) (hpos : 0 < other.size) :
    ∀ u ∈ (Memory.addList k j).thrown ⟨h, []⟩, h.Behind k P u := by
  obtain ⟨a, ha, -⟩ := hi.within k l hl
  suffices hadd : (Memory.addList k j).Ensures ⟨h, []⟩ (h.Behind k P) fun _ _ => True from
    hadd.thrown
  refine .reads_bind fun l' hl' => .reads_bind fun a' ha' => .reads_bind fun other' hj' => ?_
  obtain rfl := Option.some.inj (hl.symm.trans hl')
  obtain rfl := Option.some.inj (ha.symm.trans ha')
  obtain rfl := Option.some.inj (hj.symm.trans hj')
  refine (hi.grow_ensures hl ha (fun _ => by omega) fun _ _ => by omega).bind ?_
  rintro _ ⟨h₁, torn⟩ ⟨rfl, hedit, -⟩
  -- the copies of the operand's entries come behind the move
  exact .reads_bind fun _ _ => .reads_bind fun _ _ => .reads_bind fun _ _ =>
    .points_bind _ hedit.behind (ensures_always fun _ _ _ => trivial)

/-! ## Remove -/

/-- The copy has no array of its own. -/
theorem fresh_copyList {copy : Nat} (hcopy : h.copyList k = some (h₁, copy)) :
    h₁.arrays.fresh = h.arrays.fresh := by
  obtain ⟨l, -, hcopy⟩ := Option.bind_eq_some_iff.mp hcopy
  obtain ⟨a, -, hcopy⟩ := Option.bind_eq_some_iff.mp hcopy
  cases hcopy
  exact Slots.fresh_set

theorem Inv.copyList_ensures (hi : h.Inv) (hl : h.lists.get k = some l) :
    (Memory.copyList k).Ensures ⟨h, []⟩ (h.Behind h.lists.fresh P) fun copy t =>
      t.torn = [] ∧ h.copyList k = some (t.heap, copy) ∧ Edits h t.heap h.lists.fresh := by
  obtain ⟨a, ha, -⟩ := hi.within k l hl
  obtain ⟨h₁, hcopy, hedit, -⟩ := hi.copyList hl ha
  refine .points_bind 1 (Edits.refl hi).behind (ensures_always fun copy t ht => ?_)
  dsimp only at ht
  rw [hcopy] at ht
  cases ht
  exact ⟨rfl, hcopy, hedit⟩

theorem Inv.thrown_remove (hi : h.Inv) (hl : h.lists.get k = some l) (key : Nat × Nat) :
    ∀ u ∈ (Memory.remove k key).thrown ⟨h, []⟩, h.Behind h.lists.fresh P u := by
  suffices hremove : (Memory.remove k key).Ensures ⟨h, []⟩ (h.Behind h.lists.fresh P)
      fun _ _ => True from hremove.thrown
  refine .reads_bind fun l' hl' => .reads_bind fun a _ => ?_
  split
  · exact ensures_never
  · next count hcount =>
    refine .reads_bind fun last _ => ?_
    split
    · split
      · exact ensures_pure trivial
      · exact (hi.copyList_ensures hl).bind fun _ _ _ => ensures_always fun _ _ _ => trivial
    · refine .reads_bind fun found _ => ?_
      cases found with
      | none => exact ensures_pure trivial
      | some i =>
        refine (hi.copyList_ensures hl).bind fun copy t ht => ?_
        obtain ⟨h₁, torn⟩ := t
        obtain ⟨rfl, -, hedit⟩ := ht
        exact .points_bind 2 hedit.behind <| .reads_bind fun _ _ =>
          .points_bind i hedit.behind <| .reads_bind fun _ _ =>
            .points_bind _ hedit.behind (ensures_always fun _ _ _ => trivial)

/-- `PushBack(m)` to an array that nobody else has. -/
theorem Edits.pushBack_ensures (hedit : Edits h h₁ k) (hl : h₁.lists.get k = some l)
    (ha : h₁.arrays.get l.array = some a) (hfull : l.size = a.size)
    (hnew : h.arrays.fresh ≤ l.array) (m : Method F) :
    (Memory.pushBack k m).Ensures ⟨h₁, []⟩ (h.Behind k fun i => h.arrays.fresh ≤ i) fun _ t =>
      t.torn = [] ∧ Edits h t.heap k ∧ ∃ l' a', t.heap.lists.get k = some l' ∧
        t.heap.arrays.get l'.array = some a' ∧ l'.size = a'.size ∧ h.arrays.fresh ≤ l'.array := by
  refine .reads_bind fun l' hl' => .leaving_bind ⟨hedit, fun i hi => ?_⟩
    (ensures_always fun _ t ht => ?_)
  · obtain rfl := Option.some.inj (hl.symm.trans hl')
    rw [List.mem_singleton.mp hi]
    exact hnew
  · obtain ⟨r, hr, heq⟩ := Option.map_eq_some_iff.mp ht
    obtain ⟨h₂, hext, rfl⟩ := Option.map_eq_some_iff.mp hr
    cases heq
    have hroom : a.size + [m].length ≤ a.capacity := by
      simp only [Heap.extend, hl, ha, Option.bind_eq_bind, Option.bind_some] at hext
      obtain ⟨b, hb, -⟩ := Option.bind_eq_some_iff.mp hext
      exact (Option.dite_none_right_eq_some.mp hb).1
    obtain ⟨h₂', hext', hedit₂, hl₂, -⟩ := hedit.inv.extend hl ha hfull [m] hroom
    obtain rfl := Option.some.inj (hext.symm.trans hext')
    obtain ⟨b, hb, hdata, -⟩ := SharedArray.construct_eq _ _ hroom
    have hb₂ : h₂.arrays.get l.array = some b := by
      simp only [Heap.extend, hl, ha, hb, Option.bind_eq_bind, Option.bind_some] at hext
      obtain rfl := Option.some.inj hext
      rw [Slots.get_set ha, if_pos rfl]
    refine ⟨rfl, hedit.trans hedit₂, _, b, hl₂, hb₂, ?_, hnew⟩
    show l.size + [m].length = b.data.length
    rw [hdata, List.length_append, hfull]
    rfl

theorem Edits.pushLeft_ensures (hedit : Edits h h₁ k) (hl : h₁.lists.get k = some l)
    {temp : SharedArray F} (htemp : h₁.arrays.get l.array = some temp)
    (hfull : l.size = temp.size) (hnew : h.arrays.fresh ≤ l.array) (indexes : List Nat) :
    (Memory.pushLeft k a indexes).Ensures ⟨h₁, []⟩ (h.Behind k fun i => h.arrays.fresh ≤ i)
      fun _ _ => True := by
  induction indexes generalizing h₁ l temp with
  | nil => exact ensures_pure trivial
  | cons i indexes ih =>
    refine .reads_bind fun m _ => (hedit.pushBack_ensures hl htemp hfull hnew m).bind
      fun _ t ht => ?_
    obtain ⟨h₂, torn⟩ := t
    obtain ⟨rfl, hedit₂, l₂, a₂, hl₂, ha₂, hfull₂, hnew₂⟩ := ht
    exact ih hedit₂ hl₂ ha₂ hfull₂ hnew₂

theorem Inv.thrown_removeList (hi : h.Inv) (hl : h.lists.get k = some l) (j : Nat) :
    ∀ u ∈ (Memory.removeList k j).thrown ⟨h, []⟩,
      h.Behind h.lists.fresh (fun i => h.arrays.fresh ≤ i) u := by
  obtain ⟨a, ha, -⟩ := hi.within k l hl
  obtain ⟨h₁, hcopy, hedit₁, hl₁, -⟩ := hi.copyList hl ha
  have hstart : ∀ P, h.Behind h.lists.fresh P ⟨h, []⟩ := fun _ => (Edits.refl hi).behind
  suffices hremove : (Memory.removeList k j).Ensures ⟨h, []⟩
      (h.Behind h.lists.fresh fun i => h.arrays.fresh ≤ i) fun _ _ => True from hremove.thrown
  refine .reads_bind fun l' hl' => .reads_bind fun a' ha' => .reads_bind fun other _ =>
    .reads_bind fun b _ => .reads_bind fun operand _ => ?_
  obtain rfl := Option.some.inj (hl.symm.trans hl')
  obtain rfl := Option.some.inj (ha.symm.trans ha')
  split
  · next m _ => exact ⟨hi.thrown_remove hl m.key, fun _ _ _ => trivial⟩
  · refine .points_bind _ (hstart _) <| .reads_bind fun left _ => .points_bind _ (hstart _) ?_
    split
    · exact ensures_pure trivial
    · split
      · exact ensures_pure trivial
      · next hsome =>
        refine (hi.copyList_ensures hl).bind fun copy t ht => ?_
        obtain ⟨h₁', torn⟩ := t
        obtain ⟨rfl, hcopy', -⟩ := ht
        obtain ⟨rfl, rfl⟩ := Prod.mk.inj (Option.some.inj (hcopy'.symm.trans hcopy))
        refine .points_bind 2 hedit₁.behind ?_
        -- the new list has an array of its own from here on
        obtain ⟨h₂, hmove, hedit₂, hl₂, ha₂⟩ :=
          hedit₁.inv.reseat hl₁ (.new left.length) rfl (by show 0 < left.length; omega)
            (Nat.le_refl 0)
        refine Ensures.bind (Q := fun _ t => t = ⟨h₂, []⟩) (ensures_always fun _ t ht => ?_) ?_
        · dsimp only at ht hmove
          rw [hmove] at ht
          cases ht
          rfl
        · rintro _ _ rfl
          refine .reads_bind fun b _ => Ensures.bind (Q := fun _ _ => True) ?_
            fun _ _ _ => ensures_pure trivial
          exact (hedit₁.trans hedit₂).pushLeft_ensures hl₂ ha₂ rfl
            (Nat.le_of_eq (fresh_copyList hcopy).symm) _

/-! ## The operators -/

theorem Edits.setMethodList_ensures (hedit : Edits h h₁ k) (o : Option Nat) :
    (Memory.setMethodList d o).Ensures ⟨h₁, []⟩ (h.Behind k P) fun _ _ => True :=
  .points_bind _ hedit.behind (ensures_always fun _ _ _ => trivial)

theorem Inv.newList_ensures (hi : h.Inv) :
    Memory.newList.Ensures ⟨h, []⟩ (h.Behind h.lists.fresh P) fun k t =>
      k = h.lists.fresh ∧ t = ⟨h.newList.1, []⟩ := by
  have hstart : h.Behind h.lists.fresh P ⟨h, []⟩ := (Edits.refl hi).behind
  refine .points_bind 1 hstart <| .points_bind 2 hstart <| ensures_always fun _ _ ht => ?_
  cases ht
  exact ⟨rfl, rfl⟩

/-- The new list gets the entry and becomes `_current`. -/
theorem Edits.add_ensures (hedit : Edits h h₁ k) (hl : h₁.lists.get k = some l)
    (ha : h₁.arrays.get l.array = some a) (hpos : 0 < l.size ∨ a.size = 0) (m : Method F)
    (hP : ∀ i, h₁.arrays.fresh ≤ i ∨ i = l.array ∧ l.size = a.size ∧ a.size < a.capacity → P i)
    (o : Option Nat) :
    (do points 1; Memory.add k m; Memory.setMethodList d o : Attempt (Memory F) Delegate).Ensures
      ⟨h₁, []⟩ (h.Behind k P) fun _ _ => True := by
  refine .points_bind 1 hedit.behind (Ensures.bind (Q := fun _ t => ∃ h₂, t = ⟨h₂, []⟩ ∧
    Edits h h₂ k) ⟨fun u hu => ?_, fun _ t ht => ?_⟩ ?_)
  · exact hedit.then ((hedit.inv.thrown_add hl ha hpos m u hu).mono hP)
  · obtain ⟨h₂, hadd, hedit₂, -⟩ := hedit.inv.add hl ha hpos m
    rw [Memory.result_add, hadd] at ht
    cases ht
    exact ⟨h₂, rfl, hedit.trans hedit₂⟩
  · rintro _ _ ⟨h₂, rfl, hedit₂⟩
    exact hedit₂.setMethodList_ensures o

theorem Edits.addList_ensures (hedit : Edits h h₁ k) (hl : h₁.lists.get k = some l)
    {other : MethodList} (hj : h₁.lists.get j = some other) (hne : j ≠ k) (hpos : 0 < other.size)
    (o : Option Nat) :
    (do Memory.addList k j; Memory.setMethodList d o : Attempt (Memory F) Delegate).Ensures
      ⟨h₁, []⟩ (h.Behind k P) fun _ _ => True := by
  refine Ensures.bind (Q := fun _ t => ∃ h₂, t = ⟨h₂, []⟩ ∧ Edits h h₂ k)
    ⟨fun u hu => hedit.then (hedit.inv.thrown_addList hl hj hpos u hu), fun _ t ht => ?_⟩ ?_
  · obtain ⟨h₂, hadd, hedit₂, -⟩ := hedit.inv.addList hl hj hne hpos
    rw [Memory.result_addList, hadd] at ht
    cases ht
    exact ⟨h₂, rfl, hedit.trans hedit₂⟩
  · rintro _ _ ⟨h₂, rfl, hedit₂⟩
    exact hedit₂.setMethodList_ensures o

theorem Leaves.edits (hi : h.Inv) {entries : List (Method F)} {current : Option Nat}
    {r : Heap F × Option Nat} (hr : Leaves h entries current r) : Edits h r.1 h.lists.fresh := by
  cases hr with
  | same => exact .refl hi
  | null => exact .refl hi
  | new hedit => exact hedit

/-- What the removal goes on with becomes `_current`. -/
theorem Inv.remove_ensures (hi : h.Inv) {p : Attempt (Memory F) (Option Nat)}
    (hp : ∀ u ∈ p.thrown ⟨h, []⟩, h.Behind h.lists.fresh P u) {entries : List (Method F)}
    {current : Option Nat} {r : Heap F × Option Nat} (hr : Leaves h entries current r)
    (hresult : p.result ⟨h, []⟩ = some (r.2, ⟨r.1, []⟩)) :
    (do let o ← p; Memory.setMethodList d o : Attempt (Memory F) Delegate).Ensures ⟨h, []⟩
      (h.Behind h.lists.fresh P) fun _ _ => True := by
  refine Ensures.bind (Q := fun _ t => t = ⟨r.1, []⟩) ⟨hp, fun o t ht => ?_⟩ ?_
  · rw [hresult] at ht
    cases ht
    rfl
  · rintro o _ rfl
    exact (hr.edits hi).setMethodList_ensures o

/-- The copy of `_current` shares its array, the list that is made for an empty delegate has
a new one. -/
theorem Inv.copyCurrent_ensures (hi : h.Inv) (hd : h.Sound d) :
    (Memory.copyCurrent d).Ensures ⟨h, []⟩ (h.Behind h.lists.fresh P) fun k t =>
      ∃ h₁ l a, k = h.lists.fresh ∧ t = ⟨h₁, []⟩ ∧ Edits h h₁ k ∧ h₁.lists.get k = some l ∧
        h₁.arrays.get l.array = some a ∧ (0 < l.size ∨ a.size = 0) ∧
        h.arrays.fresh ≤ h₁.arrays.fresh ∧
        (l.size = a.size → a.size < a.capacity → h.arrays.fresh ≤ l.array ∨ h.InPlace d) := by
  unfold Memory.copyCurrent
  cases hc : d.current with
  | none =>
    obtain ⟨hedit, hl, ha⟩ := hi.newList
    refine hi.newList_ensures.mono (fun _ hu => hu) fun k t ht => ?_
    obtain ⟨rfl, rfl⟩ := ht
    refine ⟨_, _, _, rfl, rfl, hedit, hl, ha, .inr rfl, ?_, fun _ _ => .inl (Nat.le_refl _)⟩
    show _ ≤ (h.arrays.alloc _).fresh
    rw [Slots.fresh_alloc]
    exact Nat.le_succ _
  | some current =>
    obtain ⟨l, hl, hpos⟩ := hd current hc
    obtain ⟨a, ha, -⟩ := hi.within current l hl
    obtain ⟨h₁, hcopy, hedit, hl₁, ha₁⟩ := hi.copyList hl ha
    refine (hi.copyList_ensures hl).mono (fun _ hu => hu) fun k t ht => ?_
    obtain ⟨h₁', torn⟩ := t
    obtain ⟨rfl, hcopy', -⟩ := ht
    obtain ⟨rfl, rfl⟩ := Prod.mk.inj (Option.some.inj (hcopy'.symm.trans hcopy))
    exact ⟨_, _, _, rfl, rfl, hedit, hl₁, ha₁, .inl hpos, Nat.le_of_eq (fresh_copyList hcopy).symm,
      fun hfull hroom => .inr ⟨current, l, a, hc, hl, ha, hfull, hroom⟩⟩

theorem Inv.thrown_callable (hi : h.Inv) (hd : h.Sound d) (op : Operator) (m : Method F) :
    ∀ u ∈ (op.tryCallable d m).thrown ⟨h, []⟩, h.Behind h.lists.fresh
      (fun i => h.arrays.fresh ≤ i ∨ op = .add ∧ h.InPlace d) u := by
  suffices hop : (op.tryCallable d m).Ensures ⟨h, []⟩ (h.Behind h.lists.fresh
      fun i => h.arrays.fresh ≤ i ∨ op = .add ∧ h.InPlace d) fun _ _ => True from hop.thrown
  cases op with
  | assign =>
    obtain ⟨hedit, hl, ha⟩ := hi.newList
    refine hi.newList_ensures.bind fun k t ht => ?_
    obtain ⟨rfl, rfl⟩ := ht
    refine hedit.add_ensures hl ha (.inr rfl) m (fun i hi' => .inl ?_) _
    have hfresh : h.newList.1.arrays.fresh = h.arrays.fresh + 1 := Slots.fresh_alloc
    rcases hi' with hle | ⟨rfl, -⟩
    · omega
    · exact Nat.le_refl _
  | add =>
    refine (hi.copyCurrent_ensures hd).bind fun k t ht => ?_
    obtain ⟨h₁, l, a, rfl, rfl, hedit, hl, ha, hpos, hfresh, hplace⟩ := ht
    refine hedit.add_ensures hl ha hpos m (fun i hi' => ?_) _
    rcases hi' with hle | ⟨rfl, hfull, hroom⟩
    · exact .inl (by omega)
    · exact (hplace hfull hroom).imp_right fun hin => ⟨rfl, hin⟩
  | remove =>
    unfold Operator.tryCallable
    cases hc : d.current with
    | none => exact ensures_pure trivial
    | some current =>
      obtain ⟨l, hl, hpos⟩ := hd current hc
      obtain ⟨r, hr, hleaves, -⟩ := hi.remove hl hpos m.key
      exact hi.remove_ensures (hi.thrown_remove hl m.key) hleaves
        (by rw [Memory.result_remove, hr]; rfl)

theorem Inv.thrown_delegate (hi : h.Inv) (hd : h.Sound d) {operand : Delegate}
    (ho : h.Sound operand) (op : Operator) (isThis : Bool) :
    ∀ u ∈ (op.tryDelegate d operand isThis).thrown ⟨h, []⟩,
      h.Behind h.lists.fresh (fun i => h.arrays.fresh ≤ i) u := by
  suffices hop : (op.tryDelegate d operand isThis).Ensures ⟨h, []⟩
      (h.Behind h.lists.fresh fun i => h.arrays.fresh ≤ i) fun _ _ => True from hop.thrown
  unfold Operator.tryDelegate
  cases op with
  | assign =>
    dsimp only
    split
    · exact ensures_pure trivial
    · cases hc : operand.current with
      | none => exact (Edits.refl hi).setMethodList_ensures none
      | some methodList =>
        obtain ⟨other, hj, hpos⟩ := ho methodList hc
        have hne : methodList ≠ h.lists.fresh := Nat.ne_of_lt (Slots.lt_fresh hj)
        obtain ⟨hedit, hl, -⟩ := hi.newList
        refine hi.newList_ensures.bind fun k t ht => ?_
        obtain ⟨rfl, rfl⟩ := ht
        exact hedit.addList_ensures hl ((hedit.lists _ hne).trans hj) hne hpos _
  | add =>
    cases hc : operand.current with
    | none => exact ensures_pure trivial
    | some methodList =>
      obtain ⟨other, hj, hpos⟩ := ho methodList hc
      have hne : methodList ≠ h.lists.fresh := Nat.ne_of_lt (Slots.lt_fresh hj)
      refine (hi.copyCurrent_ensures hd).bind fun k t ht => ?_
      obtain ⟨h₁, l, a, rfl, rfl, hedit, hl, -⟩ := ht
      exact hedit.addList_ensures hl ((hedit.lists _ hne).trans hj) hne hpos _
  | remove =>
    dsimp only
    split
    · exact ensures_pure trivial
    · split
      · exact (Edits.refl hi).setMethodList_ensures none
      · cases hc : d.current with
        | none => exact ensures_pure trivial
        | some current =>
          cases hc' : operand.current with
          | none => exact ensures_pure trivial
          | some methodList =>
            obtain ⟨l, hl, hpos⟩ := hd current hc
            obtain ⟨other, hj, -⟩ := ho methodList hc'
            obtain ⟨r, hr, hleaves, -⟩ := hi.removeList hl hpos hj
            exact hi.remove_ensures (hi.thrown_removeList hl methodList) hleaves
              (by rw [Memory.result_removeList, hr]; rfl)

/-! ## In place -/

/-- Of the four points of an addition in place the third tears the array. -/
theorem Inv.thrown_inPlace (hi : h.Inv) {current : Nat} (hc : d.current = some current)
    (hl : h.lists.get current = some l) (ha : h.arrays.get l.array = some a)
    (hfull : l.size = a.size) (hroom : a.size < a.capacity) (m : Method F) :
    ∃ h₁ h₂, (Operator.add.tryCallable d m).thrown ⟨h, []⟩ =
        [⟨h, []⟩, ⟨h₁, []⟩, ⟨h₁, [l.array]⟩, ⟨h₂, []⟩] ∧
      Edits h h₁ h.lists.fresh ∧ Edits h h₂ h.lists.fresh := by
  obtain ⟨h₁, hcopy, hedit₁, hl₁, ha₁⟩ := hi.copyList hl ha
  obtain ⟨h₂, hext, hedit₂, -⟩ := hedit₁.inv.extend hl₁ ha₁ hfull [m] hroom
  refine ⟨h₁, h₂, ?_, hedit₁, hedit₁.trans hedit₂⟩
  obtain ⟨b, hb, hshared, hcapacity⟩ : ∃ b, h₁.arrays.get l.array = some b ∧
      ¬l.size < b.size ∧ ¬b.size = b.capacity :=
    ⟨_, ha₁, Nat.not_lt.mpr (Nat.le_of_eq hfull.symm), Nat.ne_of_lt hroom⟩
  have hcurrent : (Memory.copyCurrent d).result ⟨h, []⟩ = some (h.lists.fresh, ⟨h₁, []⟩) := by
    rw [Memory.result_copyCurrent, Heap.copyCurrent, hc]
    dsimp only
    rw [hcopy]
    rfl
  have hfirst : (Memory.copyCurrent d).thrown ⟨h, []⟩ = [⟨h, []⟩] := by
    unfold Memory.copyCurrent
    rw [hc]
    rfl
  have hadd : (Memory.add h.lists.fresh m).result ⟨h₁, []⟩ = some ((), ⟨h₂, []⟩) := by
    rw [Memory.result_add, Heap.add, hl₁]
    simp only [Option.bind_eq_bind, Option.bind_some, hb]
    rw [if_neg hshared, if_neg hcapacity, hext]
    rfl
  have htear : (Memory.add h.lists.fresh m).thrown ⟨h₁, []⟩ = [⟨h₁, [l.array]⟩] := by
    rw [Memory.add, Memory.thrown_listAt_bind hl₁, Memory.thrown_arrayAt_bind hb, if_neg hshared,
      if_neg hcapacity, thrown_bind (result_pure () _), Memory.pushBack,
      Memory.thrown_listAt_bind hl₁, thrown_leaving_bind]
    rfl
  have hset : (Memory.setMethodList d (some h.lists.fresh)).thrown ⟨h₂, []⟩ = [⟨h₂, []⟩] := by
    have hne : ¬(d.current = none ∨ some h.lists.fresh = d.current) := by
      rw [hc]
      simp [Ne.symm (Nat.ne_of_lt (Slots.lt_fresh hl))]
    unfold Memory.setMethodList
    rw [if_neg hne]
    rfl
  refine (thrown_bind hcurrent).trans ?_
  rw [hfirst, thrown_points_bind, thrown_bind hadd, htear, hset]
  rfl

end Heap

end VideoPlayerCore
