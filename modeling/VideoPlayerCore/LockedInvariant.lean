import VideoPlayerCore.LockedSteps

/-!
# What delegates with a mutex keep

The lists and arrays of `_Delegate_S` are those of `_Delegate` without references: every
list has one owner.  An operator deletes nothing, so all that there was is there after it
as it was (Heap.Grows); only `TrimExcess` and the destructor delete.

    an operator extends the world, and the delegate shows its result    (put_spec, make_spec)
-/

namespace VideoPlayerCore

open KeyedLists

variable {F : Type}

namespace Heap

variable {h h₁ : Heap F} {d : Delegate}

/-- All the lists of `h` are there and show what they did. -/
structure Grows (h h' : Heap F) : Prop where
  lists : ∀ x l, h.lists.get x = some l → h'.lists.get x = some l
  visible : ∀ x l, h.lists.get x = some l → h'.visible x = h.visible x

theorem Grows.refl (h : Heap F) : Grows h h := ⟨fun _ _ hl => hl, fun _ _ _ => rfl⟩

theorem Prepares.grows {current o : Option Nat} {entries : List (Method F)}
    (hp : Prepares h h₁ current o entries) : Grows h h₁ where
  lists x l hl := by
    have halive := hp.alive x
    rw [alive_of_get hl] at halive
    obtain ⟨l₁, hl₁⟩ := get_of_alive (h := h₁) (k := x) (by omega)
    have hlt := Slots.lt_fresh hl
    rcases hp.lists x l₁ hl₁ with hold | ⟨hle, -⟩
    · rw [hl₁, ← hold, hl]
    · omega
  visible := hp.visible

theorem setMethodListS_spec (h : Heap F) (d : Delegate) (o : Option Nat) :
    ∃ d', h.setMethodListS d o = some (h, d') ∧ d'.current = o ∧
      ∀ x, d'.owned.count x = d.owned.count x + (added d.current o).count x := by
  obtain ⟨current, deleteList⟩ := d
  unfold setMethodListS added Delegate.owned
  cases current with
  | none =>
    refine ⟨_, rfl, rfl, fun x => ?_⟩
    cases o with
    | none => rfl
    | some x' =>
      simp only [Option.toList_some, Option.toList_none, List.nil_append, reduceCtorEq, if_false,
        List.count_append]
      omega
  | some c =>
    dsimp only
    by_cases hsame : o = some c
    · rw [if_pos hsame, if_pos hsame]
      exact ⟨_, rfl, hsame.symm, fun x => rfl⟩
    · rw [if_neg hsame, if_neg hsame]
      refine ⟨_, rfl, rfl, fun x => ?_⟩
      simp only [List.count_append, Option.toList_some]
      omega

/-- In a constructor `SetMethodList` finds nothing to delete. -/
theorem setMethodList_new (h : Heap F) (o : Option Nat) :
    h.setMethodList {} o = h.setMethodListS {} o := rfl

/-! ## What the operators hand to `SetMethodList` -/

/-- A callable is taken as a list of one entry. -/
theorem Inv.callable (hi : h.Inv) (hd : h.Sound d) (op : Operator) (m : Method F) :
    (op.callable setMethodListS h d m = some (h, d) ∧
      op.result (h.contents d) [m] = h.contents d) ∨
      AssignsBy setMethodListS h d (op.callable setMethodListS h d m)
        (op.result (h.contents d) [m]) := by
  cases op with
  | assign => exact .inr (hi.setValueBy _ hd m)
  | add => exact .inr (hi.addBy _ hd m)
  | remove =>
    cases hc : d.current with
    | none =>
      refine .inl ⟨by simp [Operator.callable, Heap.removeBy, hc], ?_⟩
      rw [contents_none hc]
      exact subtract_nil _
    | some current => exact .inr (hi.removeBy _ hd hc m.key)

/-- A delegate operand, taken as its list. -/
theorem Inv.delegate (hi : h.Inv) (hd : h.Sound d) {operand : Delegate} (ho : h.Sound operand)
    {isThis : Bool} (hthis : isThis = true → operand = d) (op : Operator) :
    (op.delegate setMethodListS h d operand isThis = some (h, d) ∧
      op.result (h.contents d) (h.contents operand) = h.contents d) ∨
      AssignsBy setMethodListS h d (op.delegate setMethodListS h d operand isThis)
        (op.result (h.contents d) (h.contents operand)) := by
  unfold Operator.delegate Operator.result
  cases op with
  | assign =>
    by_cases hsame : isThis = true
    · exact .inl ⟨if_pos hsame, by rw [hthis hsame]⟩
    · dsimp only
      rw [if_neg hsame]
      exact .inr (hi.setValueDelegateBy _ hd ho)
  | add =>
    cases hc : operand.current with
    | none =>
      refine .inl ⟨by simp [Heap.addDelegateBy, hc], ?_⟩
      rw [contents_none hc, List.append_nil]
    | some methodList =>
      obtain ⟨l, hl, hpos⟩ := ho methodList hc
      exact .inr (hi.addDelegateBy _ hd hc hl hpos)
  | remove =>
    cases hc : d.current with
    | none =>
      refine .inl ⟨if_pos rfl, ?_⟩
      rw [contents_none hc]
      exact subtract_nil _
    | some current =>
      dsimp only
      rw [if_neg (by simp)]
      by_cases hsame : isThis = true
      · rw [if_pos hsame, hthis hsame]
        exact .inr ⟨h, none, rfl, (Leaves.null (subtract_self _)).prepares hi hd⟩
      · rw [if_neg hsame]
        cases hc' : operand.current with
        | none =>
          refine .inl ⟨by simp [Heap.removeDelegateBy, hc, hc'], ?_⟩
          rw [contents_none hc']
          rfl
        | some methodList => exact .inr (hi.removeDelegateBy _ hd ho hc hc')

end Heap

namespace LockedWorld

variable {w : Wrapper F} {mutex : Policy} {s s' : LockedWorld F} {d : Nat} {dl : Delegate}

/-- The delegates, without references to lists. -/
def world (s : LockedWorld F) : World F := { heap := s.heap, delegates := s.delegates }

abbrev Inv (s : LockedWorld F) : Prop := s.world.Inv

/-- Nothing was deleted from `s` to `s'`. -/
structure Extends (s s' : LockedWorld F) : Prop where
  inv : s'.Inv
  grows : Heap.Grows s.heap s'.heap
  owned : ∀ j dl x, s.delegates.get j = some dl → x ∈ dl.owned →
    ∃ dl', s'.delegates.get j = some dl' ∧ x ∈ dl'.owned
  invocations : s'.invocations = s.invocations

theorem Extends.refl (hs : s.Inv) : Extends s s :=
  ⟨hs, .refl _, fun _ dl _ hd hx => ⟨dl, hd, hx⟩, rfl⟩

theorem Extends.trans {s'' : LockedWorld F} (h : Extends s s') (h' : Extends s' s'') :
    Extends s s'' where
  inv := h'.inv
  grows := ⟨fun x l hl => h'.grows.lists x l (h.grows.lists x l hl), fun x l hl =>
    (h'.grows.visible x l (h.grows.lists x l hl)).trans (h.grows.visible x l hl)⟩
  owned j dl x hd hx := by
    obtain ⟨dl', hd', hx'⟩ := h.owned j dl x hd hx
    exact h'.owned j dl' x hd' hx'
  invocations := h'.invocations.trans h.invocations

theorem put_same (hd : s.delegates.get d = some dl) : s.put d (some (s.heap, dl)) = some s := by
  simp [put, Slots.set_get hd]

/-- An operator that hands a list to `SetMethodList` of `_Delegate_S`. -/
theorem put_spec (hs : s.Inv) (hd : s.delegates.get d = some dl) {entries : List (Method F)}
    {r : Option (Heap F × Delegate)}
    (hr : Heap.AssignsBy Heap.setMethodListS s.heap dl r entries) :
    ∃ s', s.put d r = some s' ∧ s'.plain = s.plain.set d entries ∧ Extends s s' := by
  obtain ⟨h₁, o, rfl, hp⟩ := hr
  obtain ⟨d', hset, hcurrent, hcount⟩ := h₁.setMethodListS_spec dl o
  have hm := hp.moves (.refl hp.inv) (by simp)
  have howner : ∀ x, (s.delegates.set d d').total (fun d => d.owned.count x) = h₁.alive x := by
    intro x
    have hsum : (s.delegates.set d d').total (fun d => d.owned.count x) + dl.owned.count x =
        s.delegates.total (fun d => d.owned.count x) + d'.owned.count x := Slots.total_set hd d'
    have hold : s.delegates.total (fun d => d.owned.count x) = s.heap.alive x := hs.owner x
    have hnew := hcount x
    have halive := hp.alive x
    omega
  have hinv : World.Inv { s.world with heap := h₁, delegates := s.delegates.set d d' } :=
    World.Inv.move hs hm howner (by simp [world])
  have hshow : h₁.contents d' = entries := by
    rw [← hp.shows]
    unfold Heap.contents
    rw [hcurrent]
  have hplain := World.Inv.move_plain hs hd hm howner hshow
  refine ⟨{ s with heap := h₁, delegates := s.delegates.set d d' }, by rw [put, hset]; rfl,
    congrArg Plain.delegates hplain, ⟨hinv, hp.grows, fun j dj x hj hx => ?_, rfl⟩⟩
  by_cases hsame : j = d
  · rw [hsame, hd] at hj
    obtain rfl := Option.some.inj hj
    refine ⟨d', by rw [Slots.get_set hd, if_pos hsame], List.count_pos_iff.mp ?_⟩
    have hpos := List.count_pos_iff.mpr hx
    have hnew := hcount x
    omega
  · exact ⟨dj, by rw [Slots.get_set hd, if_neg hsame, hj], hx⟩

/-- A constructor. -/
theorem make_spec (hs : s.Inv) {entries : List (Method F)} {r : Option (Heap F × Delegate)}
    (hr : r = some (s.heap, {}) ∧ entries = [] ∨
      Heap.AssignsBy Heap.setMethodListS s.heap {} r entries) :
    ∃ s', s.make r = some s' ∧ s'.plain = s.plain.alloc entries ∧ Extends s s' := by
  obtain ⟨hinv, hplain⟩ := World.Inv.construct hs
  let s₀ : LockedWorld F := { s with delegates := s.delegates.alloc {} }
  have hget : s₀.delegates.get s.delegates.fresh = some {} := by
    show (s.delegates.alloc {}).get _ = _
    rw [Slots.get_alloc, if_pos rfl]
  have hext : Extends s s₀ := by
    refine ⟨hinv, .refl _, fun j dj x hj hx => ⟨dj, ?_, hx⟩, rfl⟩
    show (s.delegates.alloc {}).get j = _
    rw [Slots.get_alloc, if_neg (Nat.ne_of_lt (Slots.lt_fresh hj)), hj]
  have hplain₀ : s₀.plain = s.plain.alloc [] := congrArg Plain.delegates hplain
  have hmake : s.make r = s₀.put s.delegates.fresh r := by
    unfold make put
    refine congrArg (fun f => r.map f) (funext fun r => ?_)
    show _ = LockedWorld.mk r.1 ((s.delegates.alloc {}).set s.delegates.fresh r.2) s.invocations
    rw [Slots.set_alloc]
  have hfresh : s.plain.fresh = s.delegates.fresh := Slots.fresh_map _
  rw [hmake]
  rcases hr with ⟨rfl, rfl⟩ | hassign
  · exact ⟨s₀, put_same hget, hplain₀, hext⟩
  · obtain ⟨s', hput, hplain', hext'⟩ := put_spec hinv hget hassign
    refine ⟨s', hput, ?_, hext.trans hext'⟩
    rw [hplain', hplain₀, ← hfresh, Slots.set_alloc]

/-! ## The operators -/

theorem toOption_valid {α : Type} (r : Option α) : (valid r).toOption = r := by
  cases r <;> rfl

/-- An operator whose result, if it is not the delegate as it was, is handed to
`SetMethodList`. -/
theorem put_result (hs : s.Inv) (hd : s.delegates.get d = some dl) {entries : List (Method F)}
    {r : Option (Heap F × Delegate)}
    (hr : r = some (s.heap, dl) ∧ entries = s.heap.contents dl ∨
      Heap.AssignsBy Heap.setMethodListS s.heap dl r entries) :
    ∃ s', s.put d r = some s' ∧ s'.plain = s.plain.set d entries ∧ Extends s s' := by
  rcases hr with ⟨rfl, rfl⟩ | hassign
  · refine ⟨s, put_same hd, ?_, .refl hs⟩
    rw [Slots.set_get (by rw [plain, Slots.get_map, hd]; rfl)]
  · exact put_spec hs hd hassign

theorem same_delegate (hd : s.delegates.get d = some dl) {e : Nat} {operand : Delegate}
    (he : s.delegates.get e = some operand) (hsame : d = e) : operand = dl := by
  rw [hsame, he] at hd
  exact Option.some.inj hd

/-- An operator with a delegate operand that is taken as its list. -/
theorem operate_spec (hs : s.Inv) (hd : s.delegates.get d = some dl) {e : Nat}
    {operand : Delegate} (he : s.delegates.get e = some operand) (op : Operator) :
    ∃ s', s.put d (op.delegate Heap.setMethodListS s.heap dl operand (d = e)) = some s' ∧
      s'.plain = s.plain.set d (op.result (s.heap.contents dl) (s.heap.contents operand)) ∧
      Extends s s' :=
  put_result hs hd (Heap.Inv.delegate hs.heap (World.Inv.sound hs hd) (World.Inv.sound hs he)
    (fun hsame => same_delegate hd he (by simpa using hsame)) op)

theorem operate_callable_spec (hs : s.Inv) (hd : s.delegates.get d = some dl) (op : Operator)
    (m : Method F) :
    ∃ s', s.put d (op.callable Heap.setMethodListS s.heap dl m) = some s' ∧
      s'.plain = s.plain.set d (op.result (s.heap.contents dl) [m]) ∧ Extends s s' :=
  put_result hs hd (Heap.Inv.callable hs.heap (World.Inv.sound hs hd) op m)

/-- A copy that is made of the list. -/
theorem copy_spec (hs : s.Inv) (hd : s.delegates.get d = some dl) :
    ∃ s', s.make (Heap.setValueDelegateBy Heap.setMethodList s.heap {} dl) = some s' ∧
      s'.plain = s.plain.alloc (s.heap.contents dl) ∧ Extends s s' := by
  refine make_spec hs (.inr ?_)
  obtain ⟨h₁, o, hr, hp⟩ := hs.heap.setValueDelegateBy Heap.setMethodList s.heap.sound_new
    (World.Inv.sound hs hd)
  exact ⟨h₁, o, hr.trans (h₁.setMethodList_new o), hp⟩

/-! ## Steps -/

theorem inv_start : Inv ({} : LockedWorld F) := World.inv_start

/-- What a delegate owns is there, with entries, and nobody else's.  There may be lists that
nobody owns. -/
structure Owns (s : LockedWorld F) : Prop where
  heap : s.heap.Inv
  owner : ∀ x, s.delegates.total (fun d => d.owned.count x) ≤ s.heap.alive x
  entries : ∀ x l, s.heap.lists.get x = some l →
    0 < s.delegates.total (fun d => d.owned.count x) → 0 < l.size

theorem Inv.owns (hs : s.Inv) : s.Owns :=
  ⟨hs.heap, fun x => Nat.le_of_eq (hs.owner x), fun x l hl _ => hs.nonempty x l hl⟩

theorem Owns.owned_le (hs : s.Owns) (hd : s.delegates.get d = some dl) (x : Nat) :
    dl.owned.count x ≤ s.heap.alive x :=
  Nat.le_trans (Slots.le_total (f := fun d => d.owned.count x) hd) (hs.owner x)

theorem Owns.get_owned (hs : s.Owns) (hd : s.delegates.get d = some dl) {x : Nat}
    (hx : x ∈ dl.owned) : ∃ l, s.heap.lists.get x = some l ∧ 0 < l.size := by
  have hcount := List.count_pos_iff.mpr hx
  have hle := hs.owned_le hd x
  obtain ⟨l, hl⟩ := Heap.get_of_alive (h := s.heap) (k := x) (by omega)
  have htotal := Slots.le_total (f := fun d => d.owned.count x) hd
  exact ⟨l, hl, hs.entries x l hl (by omega)⟩

theorem Owns.sound (hs : s.Owns) (hd : s.delegates.get d = some dl) : s.heap.Sound dl :=
  fun _ hc => hs.get_owned hd (World.current_mem_owned hc)

/-- What an action does. -/
inductive Moved (s : LockedWorld F) (a : LockedAct F) (s' : LockedWorld F) : Prop
  | grew (h : Extends s s')
  | destroyed (d : Nat) (dl : Delegate) (h' : Heap F) (ha : a = .destroy d)
      (hd : s.delegates.get d = some dl)
      (hrun : ∀ inv ∈ s.invocations, inv.running = true → inv.delegate ≠ d)
      (hdrop : Heap.Drops s.heap h' dl.owned)
      (h : s' = { s with heap := h', delegates := s.delegates.free d })
  | trimmed (d : Nat) (dl : Delegate) (h' : Heap F) (ha : a = .trimExcess d)
      (hd : s.delegates.get d = some dl) (hdrop : Heap.Drops s.heap h' dl.deleteList)
      (h : s' = { s with
        heap := h', delegates := s.delegates.set d { dl with deleteList := [] } })
  | loaded (d : Nat) (dl : Delegate) (methodList : Nat) (ha : a = .load d)
      (hd : s.delegates.get d = some dl) (hc : dl.current = some methodList)
      (h : s' = { s with invocations := s.invocations ++
        [{ delegate := d, methodList := methodList, entries := s.heap.visible methodList }] })
  | called (j : Nat) (inv inv' : Invocation F) (ha : a = .call j)
      (hj : s.invocations[j]? = some inv) (hcall : callNext s.heap inv = some inv')
      (h : s' = { s with invocations := s.invocations.set j inv' })
  | finished (j : Nat) (inv inv' : Invocation F) (ha : a = .finish j)
      (hj : s.invocations[j]? = some inv) (hfinish : finish inv = some inv')
      (h : s' = { s with invocations := s.invocations.set j inv' })

/-- A delegate was made or set by way of `SetMethodList`. -/
inductive Grown (s s' : LockedWorld F) : Prop
  | put (d : Nat) (dl : Delegate) (r : Option (Heap F × Delegate)) (entries : List (Method F))
      (hd : s.delegates.get d = some dl)
      (hr : r = some (s.heap, dl) ∧ entries = s.heap.contents dl ∨
        Heap.AssignsBy Heap.setMethodListS s.heap dl r entries)
      (h : s.put d r = some s')
  | made (r : Option (Heap F × Delegate)) (entries : List (Method F))
      (hr : r = some (s.heap, {}) ∧ entries = [] ∨
        Heap.AssignsBy Heap.setMethodListS s.heap {} r entries)
      (h : s.make r = some s')

theorem step_grown (hs : s.Owns) {a : LockedAct F} (h : s.step w mutex a = some s') :
    Grown s s' ∨ Moved s a s' := by
  have hnew := hs.heap.setValueBy Heap.setMethodListS s.heap.sound_new
  cases a <;> rw [step] at h
  case construct => exact .inl <| .made _ [] (.inl ⟨rfl, rfl⟩) h
  case constructFrom fuel c =>
    rw [construct_callable, toOption_valid] at h
    exact .inl <| .made _ _ (.inr (hnew c.entry)) h
  case constructMethod pObject pFn f => exact .inl <| .made _ _ (.inr (hnew ⟨pObject, pFn, f⟩)) h
  case copy fuel delegate =>
    obtain ⟨dl, hd, h⟩ := Option.bind_eq_some_iff.mp h
    by_cases hmutex : mutex = .stdMutex
    · rw [hmutex, copyConstruct_std, toOption_valid] at h
      obtain ⟨h₁, o, hr, hp⟩ := hs.heap.setValueDelegateBy Heap.setMethodList s.heap.sound_new
        (hs.sound hd)
      exact .inl <| .made _ _ (.inr ⟨h₁, o, hr.trans (h₁.setMethodList_new o), hp⟩) h
    · rw [copyConstruct_wrap w mutex fuel s.heap hmutex] at h
      cases h
  case destroy d =>
    obtain ⟨dl, hd, h⟩ := Option.bind_eq_some_iff.mp h
    split at h
    · cases h
    · next hrun =>
      obtain ⟨h₁, hdelete, h⟩ := Option.bind_eq_some_iff.mp h
      obtain ⟨h', hdelete', hdrop⟩ := hs.heap.dropAll dl.owned (hs.owned_le hd)
      obtain rfl : h₁ = h' := Option.some.inj (hdelete.symm.trans hdelete')
      exact .inr <| .destroyed d dl h₁ rfl hd (fun inv hinv hr heq => hrun ⟨inv, hinv, hr, heq⟩) hdrop
        (Option.some.inj h).symm
  case operate fuel op d c =>
    obtain ⟨dl, hd, h⟩ := Option.bind_eq_some_iff.mp h
    rw [operate_callable, toOption_valid] at h
    exact .inl <| .put d dl _ _ hd (hs.heap.callable (hs.sound hd) op c.entry) h
  case operateDelegate fuel op d delegate cls =>
    obtain ⟨operand, hop, h⟩ := Option.bind_eq_some_iff.mp h
    obtain ⟨dl, hd, h⟩ := Option.bind_eq_some_iff.mp h
    split at h
    · next hcls =>
      by_cases hlist : cls = .base ∨ cls = .locked .stdMutex
      · rw [operate_list w mutex fuel op s.heap dl hlist, toOption_valid] at h
        exact .inl <| .put d dl _ _ hd (hs.heap.delegate (hs.sound hd) (hs.sound hop)
          (fun hsame => same_delegate hd hop (by simpa using hsame)) op) h
      · obtain rfl := hcls.resolve_left fun h => hlist (.inl h)
        rw [operate_wrap w mutex fuel op s.heap dl fun h => hlist (.inr (by rw [h]))] at h
        split at h
        · exact .inl <| .put d dl _ _ hd (.inl ⟨rfl, rfl⟩) h
        · cases h
    · cases h
  case trimExcess d =>
    obtain ⟨dl, hd, h⟩ := Option.bind_eq_some_iff.mp h
    obtain ⟨h₁, hdelete, h⟩ := Option.bind_eq_some_iff.mp h
    obtain ⟨h', hdelete', hdrop⟩ := hs.heap.dropAll dl.deleteList fun x => by
      have hle := hs.owned_le hd x
      rw [Delegate.owned, List.count_append] at hle
      omega
    obtain rfl : h₁ = h' := Option.some.inj (hdelete.symm.trans hdelete')
    exact .inr <| .trimmed d dl h₁ rfl hd hdrop (Option.some.inj h).symm
  case load d =>
    obtain ⟨dl, hd, h⟩ := Option.bind_eq_some_iff.mp h
    obtain ⟨methodList, hc, h⟩ := Option.bind_eq_some_iff.mp h
    exact .inr <| .loaded d dl methodList rfl hd hc (Option.some.inj h).symm
  case call j =>
    obtain ⟨inv, hj, h⟩ := Option.bind_eq_some_iff.mp h
    obtain ⟨inv', hcall, h⟩ := Option.bind_eq_some_iff.mp h
    exact .inr <| .called j inv inv' rfl hj hcall (Option.some.inj h).symm
  case finish j =>
    obtain ⟨inv, hj, h⟩ := Option.bind_eq_some_iff.mp h
    obtain ⟨inv', hfinish, h⟩ := Option.bind_eq_some_iff.mp h
    exact .inr <| .finished j inv inv' rfl hj hfinish (Option.some.inj h).symm

theorem step_moved (hs : s.Inv) {a : LockedAct F} (h : s.step w mutex a = some s') :
    Moved s a s' := by
  rcases step_grown hs.owns h with hgrown | hmoved
  · cases hgrown with
    | put d dl r entries hd hr h =>
      obtain ⟨s₁, hput, -, hext⟩ := put_result hs hd hr
      obtain rfl := Option.some.inj (h.symm.trans hput)
      exact .grew hext
    | made r entries hr h =>
      obtain ⟨s₁, hmake, -, hext⟩ := make_spec hs hr
      obtain rfl := Option.some.inj (h.symm.trans hmake)
      exact .grew hext
  · exact hmoved

theorem Inv.drop (hs : s.Inv) {h' : Heap F} {gone : List Nat} {delegates : Slots Delegate}
    (hdrop : Heap.Drops s.heap h' gone)
    (howner : ∀ x, delegates.total (fun d => d.owned.count x) = h'.alive x) :
    Inv { s with heap := h', delegates := delegates } where
  heap := hdrop.inv
  owner := howner
  refs x l hl := hs.refs x l (hdrop.get hl)
  nonempty x l hl := hs.nonempty x l (hdrop.get hl)
  held r hr := by cases hr

/-- `TrimExcess` gives the lists of `_deleteList` away. -/
theorem total_trimmed {d : Nat} {dl : Delegate} (hd : s.delegates.get d = some dl) (x : Nat) :
    (s.delegates.set d { dl with deleteList := [] }).total (fun d => d.owned.count x) +
      dl.deleteList.count x = s.delegates.total (fun d => d.owned.count x) := by
  have hsum : (s.delegates.set d { dl with deleteList := [] }).total
      (fun d => d.owned.count x) + (dl.current.toList ++ dl.deleteList).count x =
      s.delegates.total (fun d => d.owned.count x) + (dl.current.toList ++ []).count x :=
    Slots.total_set hd _
  rw [List.count_append, List.append_nil] at hsum
  omega

theorem Moved.inv (hs : s.Inv) {a : LockedAct F} (hm : Moved s a s') : s'.Inv := by
  have howner : ∀ x, s.delegates.total (fun d => d.owned.count x) = s.heap.alive x := hs.owner
  cases hm with
  | grew h => exact h.inv
  | destroyed d dl h' ha hd hrun hdrop h =>
    rw [h]
    refine hs.drop hdrop fun x => ?_
    have hsum := Slots.total_free (f := fun d => d.owned.count x) hd
    have hgone := hdrop.alive x
    have hx := howner x
    omega
  | trimmed d dl h' ha hd hdrop h =>
    rw [h]
    refine hs.drop hdrop fun x => ?_
    have hsum := total_trimmed hd x
    have hgone := hdrop.alive x
    have hx := howner x
    omega
  | loaded d dl methodList ha hd hc h =>
    rw [h]
    exact hs
  | called j inv inv' ha hj hcall h =>
    rw [h]
    exact hs
  | finished j inv inv' ha hj hfinish h =>
    rw [h]
    exact hs

theorem inv_of_reach (h : Machine.Reach (step w mutex) ({} : LockedWorld F) s) : s.Inv :=
  h.invariant inv_start fun _ _ _ ht hstep => (step_moved ht hstep).inv ht

end LockedWorld

end VideoPlayerCore
