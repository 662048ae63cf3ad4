import VideoPlayerCore.DelegateInvariant

/-!
# From one method list to the next

An operation first prepares the list that the delegate goes on with (Heap.Prepares) and
then calls `SetMethodList`.  New lists come, idle ones go, those that are still there
show what they did (Heap.Moves), and the delegates own again all that is there.

    Prepares w.heap h₁ dl.current o entries →
      setMethodList keeps the invariant, and the client sees `entries`   (World.Inv.settle)
-/

namespace VideoPlayerCore

variable {F : Type}

namespace Heap

variable {h h₁ h' : Heap F} {d : Delegate} {k : Nat} {l : MethodList}

/-- What a delegate shows. -/
def contents (h : Heap F) (d : Delegate) : List (Method F) :=
  match d.current with
  | none => []
  | some list => h.visible list

/-! ## Preparing the new list -/

/-- `_current` is a list with entries. -/
def Sound (h : Heap F) (d : Delegate) : Prop :=
  ∀ current, d.current = some current → ∃ l, h.lists.get current = some l ∧ 0 < l.size

theorem Inv.copyCurrent (hi : h.Inv) (hd : h.Sound d) :
    ∃ h₁ l a, h.copyCurrent d = some (h₁, h.lists.fresh) ∧ Edits h h₁ h.lists.fresh ∧
      h₁.lists.get h.lists.fresh = some l ∧ l.refCount = 1 ∧ h₁.arrays.get l.array = some a ∧
      (0 < l.size ∨ a.size = 0) ∧ h₁.visible h.lists.fresh = h.contents d := by
  unfold Heap.copyCurrent contents
  cases hc : d.current with
  | none =>
    obtain ⟨hedit, hl, ha⟩ := hi.newList
    exact ⟨_, _, _, rfl, hedit, hl, rfl, ha, .inr rfl, (visible_eq hl ha).trans rfl⟩
  | some current =>
    obtain ⟨l, hl, hpos⟩ := hd current hc
    obtain ⟨a, ha, -⟩ := hi.within current l hl
    obtain ⟨h₁, hcopy, hedit, hl₁, ha₁⟩ := hi.copyList hl ha
    exact ⟨h₁, _, _, hcopy, hedit, hl₁, rfl, ha₁, .inl hpos, by
      rw [visible_eq hl₁ ha₁]; exact (visible_eq hl ha).symm⟩

theorem Inv.copyAdd (hi : h.Inv) (hd : h.Sound d) (m : Method F) :
    ∃ h₁ h₂, h.copyCurrent d = some (h₁, h.lists.fresh) ∧
      h₁.add h.lists.fresh m = some h₂ ∧ Edits h h₂ h.lists.fresh ∧
      Shows h₂ h.lists.fresh (h.contents d ++ [m]) := by
  obtain ⟨h₁, l, a, hcopy, hedit₁, hl, hone, ha, hpos, hshow₁⟩ := hi.copyCurrent hd
  obtain ⟨h₂, hadd, hedit₂, ⟨l', hl', hone'⟩, hshow₂⟩ := hedit₁.inv.add hl ha hpos m
  exact ⟨h₁, h₂, hcopy, hadd, hedit₁.trans hedit₂, ⟨l', hl', hone'.trans hone⟩, by
    rw [hshow₂, hshow₁]⟩

theorem Inv.copyAddList (hi : h.Inv) (hd : h.Sound d) (hl : h.lists.get k = some l)
    (hpos : 0 < l.size) :
    ∃ h₁ h₂, h.copyCurrent d = some (h₁, h.lists.fresh) ∧
      h₁.addList h.lists.fresh k = some h₂ ∧ Edits h h₂ h.lists.fresh ∧
      Shows h₂ h.lists.fresh (h.contents d ++ h.visible k) := by
  have hne : k ≠ h.lists.fresh := Nat.ne_of_lt (Slots.lt_fresh hl)
  obtain ⟨h₁, l₁, a, hcopy, hedit₁, hl₁, hone, ha, -, hshow₁⟩ := hi.copyCurrent hd
  obtain ⟨h₂, hadd, hedit₂, ⟨l', hl', hone'⟩, hshow₂⟩ :=
    hedit₁.inv.addList hl₁ ((hedit₁.lists k hne).trans hl) hne hpos
  exact ⟨h₁, h₂, hcopy, hadd, hedit₁.trans hedit₂, ⟨l', hl', hone'.trans hone⟩, by
    rw [hshow₂, hshow₁, hedit₁.visible k hne]⟩

/-- The heap with what a delegate goes on with, before `SetMethodList`. -/
structure Prepares (h h₁ : Heap F) (current o : Option Nat) (entries : List (Method F)) : Prop where
  inv : h₁.Inv
  alive : ∀ x, h₁.alive x = h.alive x + (added current o).count x
  lists : ∀ x l, h₁.lists.get x = some l →
    h.lists.get x = some l ∨ h.lists.fresh ≤ x ∧ l.refCount = 1 ∧ 0 < l.size
  visible : ∀ x l, h.lists.get x = some l → h₁.visible x = h.visible x
  shows : h₁.contents { current := o } = entries
  fresh : h.lists.fresh ≤ h₁.lists.fresh

theorem Leaves.prepares (hi : h.Inv) (hd : h.Sound d) {entries : List (Method F)}
    {r : Heap F × Option Nat} (hr : Leaves h entries d.current r) :
    Prepares h r.1 d.current r.2 entries := by
  generalize hc : d.current = current at hr
  cases hr with
  | same heq =>
    exact ⟨hi, fun x => by simp [added], fun _ _ => .inl, fun _ _ _ => rfl, heq, Nat.le_refl _⟩
  | null hnil =>
    have hnone : added current none = [] := by
      unfold added
      split <;> rfl
    exact ⟨hi, fun x => by rw [hnone]; rfl, fun _ _ => .inl, fun _ _ _ => rfl, hnil.symm,
      Nat.le_refl _⟩
  | new hedit hshow hne =>
    obtain ⟨⟨l, hl, hone⟩, hentries⟩ := hshow
    have hfresh := Slots.get_fresh h.lists
    have hadded : added current (some h.lists.fresh) = [h.lists.fresh] := by
      refine if_neg fun heq => ?_
      obtain ⟨l', hl', -⟩ := hd h.lists.fresh (hc.trans heq.symm)
      rw [hfresh] at hl'
      cases hl'
    refine ⟨hedit.inv, fun x => ?_, fun x l' hl' => ?_, fun x l' hl' => ?_, hentries, hedit.fresh⟩
    · rw [hadded, List.count_singleton]
      by_cases hx : x = h.lists.fresh
      · subst hx
        rw [alive_of_get hl, alive_of_none hfresh, if_pos (by simp)]
      · rw [if_neg (by simpa using Ne.symm hx), Nat.add_zero]
        unfold alive
        rw [hedit.lists x hx]
    · by_cases hx : x = h.lists.fresh
      · subst hx
        rw [hl] at hl'
        cases hl'
        refine .inr ⟨Nat.le_refl _, hone, ?_⟩
        rw [← hedit.inv.length_visible hl, hentries]
        exact List.length_pos_iff.mpr hne
      · rw [hedit.lists x hx] at hl'
        exact .inl hl'
    · refine hedit.visible x fun hx => ?_
      rw [hx, hfresh] at hl'
      cases hl'

/-- The lists of `h` that are still there show what they did. -/
structure Keeps (h h' : Heap F) : Prop where
  fresh : h.lists.fresh ≤ h'.lists.fresh
  visible : ∀ x l', x < h.lists.fresh → h'.lists.get x = some l' →
    (∃ l, h.lists.get x = some l) ∧ h'.visible x = h.visible x

theorem Keeps.refl (h : Heap F) : Keeps h h := ⟨Nat.le_refl _, fun _ l _ hl => ⟨⟨l, hl⟩, rfl⟩⟩

theorem Keeps.trans {h₂ : Heap F} (h₁₂ : Keeps h h₁) (h₂₃ : Keeps h₁ h₂) : Keeps h h₂ where
  fresh := Nat.le_trans h₁₂.fresh h₂₃.fresh
  visible x l' hx hl' := by
    obtain ⟨⟨l₁, hl₁⟩, heq⟩ := h₂₃.visible x l' (Nat.lt_of_lt_of_le hx h₁₂.fresh) hl'
    obtain ⟨hl, heq'⟩ := h₁₂.visible x l₁ hx hl₁
    exact ⟨hl, heq.trans heq'⟩

/-- From `h` to `h'` new lists came and idle ones went. -/
structure Moves (h h' : Heap F) : Prop where
  inv : h'.Inv
  lists : ∀ x l, h'.lists.get x = some l →
    h.lists.get x = some l ∨ h.lists.fresh ≤ x ∧ l.refCount = 1 ∧ 0 < l.size
  stays : ∀ x l, h.lists.get x = some l → l.refCount ≠ 1 → h'.lists.get x = some l
  keeps : Keeps h h'

theorem Prepares.moves {current o : Option Nat} {entries : List (Method F)} {gone : List Nat}
    (hp : Prepares h h₁ current o entries) (hdrop : Drops h₁ h' gone)
    (hidle : ∀ x ∈ gone, h₁.Idle x) : Moves h h' where
  inv := hdrop.inv
  lists x l hl := hp.lists x l (hdrop.get hl)
  stays x l hl hone := by
    have hlt := Slots.lt_fresh hl
    obtain ⟨l₁, hl₁⟩ := get_of_alive (h := h₁) (k := x) (by
      rw [hp.alive, alive_of_get hl]
      omega)
    obtain rfl : l₁ = l := by
      rcases hp.lists x l₁ hl₁ with hold | ⟨hle, -⟩
      · rw [hl] at hold
        exact (Option.some_inj.mp hold).symm
      · omega
    rw [hdrop.lists x, hl₁]
    intro hx
    obtain ⟨l', hl', hone'⟩ := hidle x hx
    rw [hl₁] at hl'
    cases hl'
    exact hone hone'
  keeps := by
    refine ⟨Nat.le_trans hp.fresh hdrop.fresh, fun x l' hx hl' => ?_⟩
    rcases hp.lists x l' (hdrop.get hl') with hold | ⟨hle, -⟩
    · exact ⟨⟨l', hold⟩, (hdrop.visible x (hdrop.not_mem hl')).trans (hp.visible x l' hold)⟩
    · omega

end Heap

namespace World

variable {w w' : World F} {d : Nat} {dl : Delegate}

/-- What the client sees of a world. -/
def plain (w : World F) : Plain F where
  delegates := w.delegates.map w.heap.contents
  running := w.running.map fun r => (r.1, w.heap.visible r.2)

/-- How many invocations go through a list. -/
def passes (w : World F) (list : Nat) : Nat := (w.running.map Prod.snd).count list

structure Inv (w : World F) : Prop where
  heap : w.heap.Inv
  owner : ∀ x, w.delegates.total (fun d => d.owned.count x) = w.heap.alive x
  refs : ∀ x l, w.heap.lists.get x = some l → l.refCount = 1 + w.passes x
  nonempty : ∀ x l, w.heap.lists.get x = some l → 0 < l.size
  held : ∀ r ∈ w.running, ∃ d, w.delegates.get r.1 = some d ∧ r.2 ∈ d.owned

/-- What a delegate owns is there. -/
theorem Inv.get_owned (hw : w.Inv) (hd : w.delegates.get d = some dl) {x : Nat}
    (hx : x ∈ dl.owned) : ∃ l, w.heap.lists.get x = some l := by
  have hcount := List.count_pos_iff.mpr hx
  have hle := Slots.le_total (f := fun d => d.owned.count x) hd
  have howner := hw.owner x
  exact Heap.get_of_alive (by omega)

theorem current_mem_owned {current : Nat} (hc : dl.current = some current) :
    current ∈ dl.owned := by
  simp [Delegate.owned, hc]

theorem Inv.sound (hw : w.Inv) (hd : w.delegates.get d = some dl) : w.heap.Sound dl := by
  intro current hc
  obtain ⟨l, hl⟩ := hw.get_owned hd (current_mem_owned hc)
  exact ⟨l, hl, hw.nonempty current l hl⟩

theorem Inv.get_running (hw : w.Inv) {r : Nat × Nat} (hr : r ∈ w.running) :
    ∃ l, w.heap.lists.get r.2 = some l ∧ l.refCount ≠ 1 := by
  obtain ⟨dl, hd, hx⟩ := hw.held r hr
  obtain ⟨l, hl⟩ := hw.get_owned hd hx
  have hrefs := hw.refs _ l hl
  have hpass : 0 < w.passes r.2 := List.count_pos_iff.mpr (List.mem_map_of_mem hr)
  exact ⟨l, hl, by omega⟩

/-- New lists come and idle ones go, and the delegates own what is there. -/
theorem Inv.move (hw : w.Inv) {h' : Heap F} {delegates : Slots Delegate}
    (hm : w.heap.Moves h')
    (howner : ∀ x, delegates.total (fun d => d.owned.count x) = h'.alive x)
    (hheld : ∀ r ∈ w.running, ∃ d, delegates.get r.1 = some d ∧ r.2 ∈ d.owned) :
    Inv { w with heap := h', delegates := delegates } where
  heap := hm.inv
  owner := howner
  refs x l hl := by
    rcases hm.lists x l hl with hold | ⟨hle, hone, -⟩
    · exact hw.refs x l hold
    · have hnone : w.passes x = 0 := by
        refine List.count_eq_zero.mpr fun hx => ?_
        obtain ⟨r, hr, rfl⟩ := List.mem_map.mp hx
        obtain ⟨l', hl', -⟩ := hw.get_running hr
        have hlt := Slots.lt_fresh hl'
        omega
      show l.refCount = 1 + w.passes x
      omega
  nonempty x l hl := by
    rcases hm.lists x l hl with hold | ⟨-, -, hpos⟩
    · exact hw.nonempty x l hold
    · exact hpos
  held := hheld

/-- A running invocation sees what it saw. -/
theorem Inv.move_running (hw : w.Inv) {h' : Heap F} (hm : w.heap.Moves h') :
    (w.running.map fun r => (r.1, h'.visible r.2)) = w.plain.running := by
  refine List.map_congr_left fun r hr => ?_
  obtain ⟨l, hl, hone⟩ := hw.get_running hr
  rw [(hm.keeps.visible r.2 l (Slots.lt_fresh hl) (hm.stays _ l hl hone)).2]

/-- A delegate that is not edited shows what it showed. -/
theorem Inv.move_contents (hw : w.Inv) {h' : Heap F} (hm : w.heap.Moves h')
    (hd : w.delegates.get d = some dl) (halive : ∀ x ∈ dl.owned, 0 < h'.alive x) :
    h'.contents dl = w.heap.contents dl := by
  unfold Heap.contents
  split
  · rfl
  · next current hc =>
    have hx := current_mem_owned hc
    obtain ⟨l, hl⟩ := hw.get_owned hd hx
    obtain ⟨l', hl'⟩ := Heap.get_of_alive (halive current hx)
    exact (hm.keeps.visible current l' (Slots.lt_fresh hl) hl').2

/-- The client sees that one delegate changes. -/
theorem Inv.move_plain (hw : w.Inv) (hd : w.delegates.get d = some dl) {h' : Heap F}
    {d' : Delegate} {entries : List (Method F)} (hm : w.heap.Moves h')
    (howner : ∀ x, (w.delegates.set d d').total (fun d => d.owned.count x) = h'.alive x)
    (hshow : h'.contents d' = entries) :
    plain { w with heap := h', delegates := w.delegates.set d d' } =
      { w.plain with delegates := w.plain.delegates.set d entries } := by
  have hget := fun j => Slots.get_set hd d' j
  unfold plain
  rw [Plain.mk.injEq]
  refine ⟨?_, hw.move_running hm⟩
  have hplain : (w.delegates.map w.heap.contents).get d = some (w.heap.contents dl) := by
    rw [Slots.get_map, hd]
    rfl
  refine Slots.ext_get (by simp) fun j => ?_
  rw [Slots.get_map, hget, Slots.get_set hplain, Slots.get_map]
  split
  · rw [Option.map_some, hshow]
  · next hj =>
    cases hdj : w.delegates.get j with
    | none => rfl
    | some dj =>
      have hd' : (w.delegates.set d d').get j = some dj := by rw [hget, if_neg hj, hdj]
      rw [Option.map_some, Option.map_some, hw.move_contents hm hdj fun x hx => ?_]
      have hle := Slots.le_total (f := fun d => d.owned.count x) hd'
      have hpos := List.count_pos_iff.mpr hx
      rw [howner] at hle
      omega

/-- `SetMethodList` behind the preparation. -/
theorem Inv.settle (hw : w.Inv) (hd : w.delegates.get d = some dl) {h₁ : Heap F} {o : Option Nat}
    {entries : List (Method F)} (hp : w.heap.Prepares h₁ dl.current o entries) :
    ∃ h' d', h₁.setMethodList dl o = some (h', d') ∧
      Inv { w with heap := h', delegates := w.delegates.set d d' } ∧
      w.heap.Keeps h' ∧
      plain { w with heap := h', delegates := w.delegates.set d d' } =
        { w.plain with delegates := w.plain.delegates.set d entries } := by
  have hown : ∀ x, dl.owned.count x ≤ w.heap.alive x := fun x => by
    rw [← hw.owner]
    exact Slots.le_total (f := fun d => d.owned.count x) hd
  obtain ⟨h', d', gone, hset, hcurrent, hdrop, hcount, hidle⟩ :=
    hp.inv.setMethodList dl o fun x => by
      rw [hp.alive]
      exact Nat.add_le_add_right (hown x) _
  have hm := hp.moves hdrop hidle
  have htotal : ∀ x, (w.delegates.set d d').total (fun d => d.owned.count x) +
      dl.owned.count x = w.heap.alive x + d'.owned.count x := fun x => by
    rw [← hw.owner]
    exact Slots.total_set hd d'
  have howner : ∀ x, (w.delegates.set d d').total (fun d => d.owned.count x) = h'.alive x := by
    intro x
    have ht := htotal x
    have hc := hcount x
    have ha := hdrop.alive x
    rw [hp.alive] at ha
    omega
  have hget := fun j => Slots.get_set hd d' j
  have halive : ∀ {j dj x}, (w.delegates.set d d').get j = some dj → x ∈ dj.owned →
      0 < h'.alive x := by
    intro j dj x hj hx
    have hle := Slots.le_total (f := fun d => d.owned.count x) hj
    have hpos := List.count_pos_iff.mpr hx
    rw [howner] at hle
    omega
  refine ⟨h', d', hset, hw.move hm howner fun r hr => ?_, hm.keeps, ?_⟩
  · obtain ⟨dr, hdr, hx⟩ := hw.held r hr
    by_cases hsame : r.1 = d
    · refine ⟨d', by rw [hget, if_pos hsame], ?_⟩
      rw [hsame, hd] at hdr
      cases hdr
      -- the list stays, and no other delegate has come to own it
      obtain ⟨l, hl, hone⟩ := hw.get_running hr
      have ht := htotal r.2
      rw [howner, Heap.alive_of_get (hm.stays _ l hl hone), Heap.alive_of_get hl] at ht
      have hpos := List.count_pos_iff.mpr hx
      exact List.count_pos_iff.mp (by omega)
    · exact ⟨dr, by rw [hget, if_neg hsame, hdr], hx⟩
  · refine hw.move_plain hd hm howner ?_
    rw [← hp.shows]
    unfold Heap.contents
    rw [hcurrent]
    cases o with
    | none => rfl
    | some x =>
      have hd' : (w.delegates.set d d').get d = some d' := by rw [hget, if_pos rfl]
      obtain ⟨l, hl⟩ := Heap.get_of_alive (halive hd' (current_mem_owned hcurrent))
      dsimp only
      rw [hdrop.visible x (hdrop.not_mem hl)]

end World

end VideoPlayerCore
