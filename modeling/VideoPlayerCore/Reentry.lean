import VideoPlayerCore.ReentrySteps

/-!
# Handlers may change the delegate that calls them

What an invocation goes through is fixed when it begins, whatever its handlers and those
of the invocations inside do; its list is not deleted before it ends.  Lists that were
replaced in the meantime wait in `_deleteList` and are gone after the next
`SetMethodList` that finds no invocation of the delegate running.

    Inv: every frame has called the first entries of its list    (Nest.Inv)
    a list stays with its delegate as long as it is there        (World.Inv.keepsOwner)
    an idle delegate has nothing left to delete                  (World.Inv.purges)
-/

namespace VideoPlayerCore

open Machine

variable {F : Type}

/-! ## What a step leaves alone -/

namespace World

variable {w w' : World F} {a : DelegateAct F} {d j : Nat} {dl : Delegate}

theorem make_cases {f : Heap F → Option (Heap F × Delegate)} (hs : w.make f = some w') :
    ∃ h d, w' = { w with heap := h, delegates := w.delegates.alloc d } := by
  unfold World.make at hs
  obtain ⟨⟨h, d⟩, -, hw⟩ := Option.bind_eq_some_iff.mp hs
  exact ⟨h, d, (Option.some.inj hw).symm⟩

theorem edit_cases {f : Heap F → Delegate → Option (Heap F × Delegate)}
    (hs : w.edit d f = some w') :
    ∃ dl h d', w.delegates.get d = some dl ∧ f w.heap dl = some (h, d') ∧
      w' = { w with heap := h, delegates := w.delegates.set d d' } := by
  unfold World.edit at hs
  obtain ⟨dl, hd, hs⟩ := Option.bind_eq_some_iff.mp hs
  obtain ⟨⟨h, d'⟩, hf, hw⟩ := Option.bind_eq_some_iff.mp hs
  exact ⟨dl, h, d', hd, hf, (Option.some.inj hw).symm⟩

/-- What becomes of the table of delegates. -/
inductive Table (w w' : World F) : Prop
  | made (d : Delegate) (h : w'.delegates = w.delegates.alloc d)
  | edited (j : Nat) (dl d' : Delegate) (hd : w.delegates.get j = some dl)
      (h : w'.delegates = w.delegates.set j d')
  | gone (j : Nat) (dl : Delegate) (hd : w.delegates.get j = some dl)
      (h : w'.delegates = w.delegates.free j)
  | same (h : w'.delegates = w.delegates)

/-- No operation starts or ends an invocation. -/
def Quiet : DelegateAct F → Prop
  | .invoke _ | .finish => False
  | _ => True

theorem make_table {f : Heap F → Option (Heap F × Delegate)} (hs : w.make f = some w') :
    Table w w' ∧ w'.running = w.running := by
  obtain ⟨h, d, rfl⟩ := make_cases hs
  exact ⟨.made d rfl, rfl⟩

theorem edit_table {f : Heap F → Delegate → Option (Heap F × Delegate)}
    (hs : w.edit d f = some w') : Table w w' ∧ w'.running = w.running := by
  obtain ⟨dl, h, d', hd, -, rfl⟩ := edit_cases hs
  exact ⟨.edited d dl d' hd rfl, rfl⟩

theorem step_table (hs : w.step a = some w') :
    Table w w' ∧ (Quiet a → w'.running = w.running) := by
  have hquiet : Table w w' ∧ w'.running = w.running →
      Table w w' ∧ (Quiet a → w'.running = w.running) := fun h => ⟨h.1, fun _ => h.2⟩
  cases a <;> rw [World.step] at hs
  case construct => exact hquiet (make_table hs)
  case constructFrom c => exact hquiet (make_table hs)
  case constructMethod pObject pFn f => exact hquiet (make_table hs)
  case copy delegate =>
    obtain ⟨operand, -, hs⟩ := Option.bind_eq_some_iff.mp hs
    exact hquiet (make_table hs)
  case destroy d =>
    obtain ⟨dl, hd, hs⟩ := Option.bind_eq_some_iff.mp hs
    split at hs
    · cases hs
    · obtain ⟨h, -, hw⟩ := Option.bind_eq_some_iff.mp hs
      obtain rfl := Option.some.inj hw
      exact ⟨.gone d dl hd rfl, fun _ => rfl⟩
  case assign d c => exact hquiet (edit_table hs)
  case assignDelegate d delegate =>
    obtain ⟨operand, -, hs⟩ := Option.bind_eq_some_iff.mp hs
    exact hquiet (edit_table hs)
  case add d c => exact hquiet (edit_table hs)
  case addDelegate d delegate =>
    obtain ⟨operand, -, hs⟩ := Option.bind_eq_some_iff.mp hs
    exact hquiet (edit_table hs)
  case remove d c => exact hquiet (edit_table hs)
  case removeDelegate d delegate =>
    obtain ⟨operand, -, hs⟩ := Option.bind_eq_some_iff.mp hs
    exact hquiet (edit_table hs)
  case invoke d =>
    obtain ⟨dl, -, hs⟩ := Option.bind_eq_some_iff.mp hs
    obtain ⟨methodList, -, hs⟩ := Option.bind_eq_some_iff.mp hs
    obtain ⟨h, -, hw⟩ := Option.bind_eq_some_iff.mp hs
    obtain rfl := Option.some.inj hw
    exact ⟨.same rfl, False.elim⟩
  case finish =>
    split at hs
    · cases hs
    · obtain ⟨h, -, hw⟩ := Option.bind_eq_some_iff.mp hs
      obtain rfl := Option.some.inj hw
      exact ⟨.same rfl, False.elim⟩

/-- The delegate `d` owns the list `x`, or `x` has been deleted. -/
def Owns (w : World F) (d x : Nat) : Prop :=
  x < w.heap.lists.fresh ∧
    ((∃ dl, w.delegates.get d = some dl ∧ x ∈ dl.owned) ∨ w.heap.lists.get x = none)

/-- A list stays with its delegate as long as it is there. -/
theorem Inv.keepsOwner (hw : w.Inv) (hw' : w'.Inv) (hk : w.heap.Keeps w'.heap) {x : Nat}
    (ht : Table w w') (ho : w.Owns d x) : w'.Owns d x := by
  obtain ⟨hfresh, ho⟩ := ho
  refine ⟨Nat.lt_of_lt_of_le hfresh hk.fresh, ?_⟩
  cases hx' : w'.heap.lists.get x with
  | none => exact .inr rfl
  | some l' =>
    obtain ⟨⟨l, hl⟩, -⟩ := hk.visible x l' hfresh hx'
    refine .inl ?_
    rcases ho with ⟨dl, hd, hx⟩ | hnone
    · have hpos := List.count_pos_iff.mpr hx
      have howner := hw.owner x
      have howner' := hw'.owner x
      rw [Heap.alive_of_get hl] at howner
      rw [Heap.alive_of_get hx'] at howner'
      cases ht with
      | made d₁ h =>
        refine ⟨dl, ?_, hx⟩
        rw [h, Slots.get_alloc, if_neg (Nat.ne_of_lt (Slots.lt_fresh hd)), hd]
      | edited j dj d' hj h =>
        by_cases hsame : d = j
        · rw [hsame, hj] at hd
          obtain rfl := Option.some.inj hd
          have hsum : (w.delegates.set j d').total (fun d => d.owned.count x) + dj.owned.count x =
              w.delegates.total (fun d => d.owned.count x) + d'.owned.count x :=
            Slots.total_set hj d'
          rw [← h] at hsum
          refine ⟨d', by rw [h, Slots.get_set hj, if_pos hsame], ?_⟩
          exact List.count_pos_iff.mp (by omega)
        · exact ⟨dl, by rw [h, Slots.get_set hj, if_neg hsame, hd], hx⟩
      | gone j dj hj h =>
        by_cases hsame : d = j
        · rw [hsame, hj] at hd
          obtain rfl := Option.some.inj hd
          have hsum : (w.delegates.free j).total (fun d => d.owned.count x) + dj.owned.count x =
              w.delegates.total (fun d => d.owned.count x) := Slots.total_free hj
          rw [← h] at hsum
          omega
        · exact ⟨dl, by rw [h, Slots.get_free, if_neg hsame, hd], hx⟩
      | same h => exact ⟨dl, by rw [h, hd], hx⟩
    · rw [hl] at hnone
      cases hnone

end World

/-! ## SetMethodList without invocations -/

namespace Heap

variable {h h' : Heap F} {k : Nat}

theorem deleteList_get (hs : h.deleteList k = some h') {x : Nat} {l : MethodList}
    (hl : h'.lists.get x = some l) : h.lists.get x = some l := by
  unfold deleteList at hs
  obtain ⟨lk, -, hs⟩ := Option.bind_eq_some_iff.mp hs
  obtain ⟨h₁, hrelease, hw⟩ := Option.bind_eq_some_iff.mp hs
  obtain rfl := Option.some.inj hw
  have hlists : h₁.lists = h.lists := by
    unfold release at hrelease
    obtain ⟨a, -, hrelease⟩ := Option.bind_eq_some_iff.mp hrelease
    split at hrelease <;>
      · obtain rfl := Option.some.inj hrelease
        rfl
  rw [Slots.get_free] at hl
  split at hl
  · cases hl
  · rw [← hlists, hl]

theorem purge_idle {lists rest : List Nat} (hs : h.purge lists = some (h', rest))
    (hidle : ∀ x ∈ lists, ∀ l, h.lists.get x = some l → l.refCount = 1) : rest = [] := by
  induction lists generalizing h with
  | nil =>
    obtain ⟨-, rfl⟩ := Prod.mk.inj (Option.some.inj hs)
    rfl
  | cons k lists ih =>
    rw [purge] at hs
    obtain ⟨l, hl, hs⟩ := Option.bind_eq_some_iff.mp hs
    rw [if_pos (hidle k List.mem_cons_self l hl)] at hs
    obtain ⟨h₁, hdelete, hs⟩ := Option.bind_eq_some_iff.mp hs
    exact ih hs fun x hx lx hlx =>
      hidle x (List.mem_cons_of_mem _ hx) lx (deleteList_get hdelete hlx)

theorem retire_idle {d : Delegate} {o : Option Nat} {lists : List Nat}
    (hs : h.retire d o = some (h', lists))
    (hidle : ∀ x ∈ d.owned, ∀ l, h.lists.get x = some l → l.refCount = 1) :
    lists = d.deleteList ∧ ∀ x l, h'.lists.get x = some l → h.lists.get x = some l := by
  unfold retire at hs
  split at hs
  · next current hc =>
    split at hs
    · obtain ⟨rfl, rfl⟩ := Prod.mk.inj (Option.some.inj hs)
      exact ⟨rfl, fun _ _ h => h⟩
    · obtain ⟨l, hl, hs⟩ := Option.bind_eq_some_iff.mp hs
      rw [if_pos (hidle current (World.current_mem_owned hc) l hl)] at hs
      obtain ⟨h₁, hdelete, heq⟩ := Option.map_eq_some_iff.mp hs
      obtain ⟨rfl, rfl⟩ := Prod.mk.inj heq
      exact ⟨rfl, fun _ _ hx => deleteList_get hdelete hx⟩
  · obtain ⟨rfl, rfl⟩ := Prod.mk.inj (Option.some.inj hs)
    exact ⟨rfl, fun _ _ h => h⟩

theorem setMethodList_idle {d d' : Delegate} {o : Option Nat}
    (hs : h.setMethodList d o = some (h', d'))
    (hidle : ∀ x ∈ d.owned, ∀ l, h.lists.get x = some l → l.refCount = 1) :
    d'.deleteList = [] := by
  unfold setMethodList at hs
  obtain ⟨⟨h₁, lists⟩, hretire, hs⟩ := Option.bind_eq_some_iff.mp hs
  obtain ⟨⟨h₂, rest⟩, hpurge, hw⟩ := Option.bind_eq_some_iff.mp hs
  obtain ⟨-, rfl⟩ := Prod.mk.inj (Option.some.inj hw)
  obtain ⟨rfl, hback⟩ := retire_idle hretire hidle
  exact purge_idle hpurge fun x hx l hl =>
    hidle x (List.mem_append_right _ hx) l (hback x l hl)

end Heap

namespace World

variable {w w' : World F} {a : DelegateAct F} {d : Nat} {dl : Delegate}

/-- An operator that calls `SetMethodList` prepares a list for it. -/
theorem Inv.assigns (hw : w.Inv) (ha : w.setsList a = some d) (hs : w.step a = some w') :
    ∃ dl f entries, w.delegates.get d = some dl ∧ w.edit d f = some w' ∧
      w.heap.Assigns dl (f w.heap dl) entries := by
  cases a <;> rw [World.step] at hs
  case assign e c =>
    obtain rfl := Option.some.inj ha
    obtain ⟨dl, h, d', hd, -⟩ := edit_cases hs
    exact ⟨dl, _, _, hd, hs, hw.heap.setValueInternal (hw.sound hd) c.entry⟩
  case assignDelegate e delegate =>
    rw [setsList] at ha
    split at ha
    · cases ha
    · next hne =>
      obtain rfl := Option.some.inj ha
      obtain ⟨operand, hop, hs⟩ := Option.bind_eq_some_iff.mp hs
      obtain ⟨dl, h, d', hd, -⟩ := edit_cases hs
      refine ⟨dl, _, w.heap.contents operand, hd, hs, ?_⟩
      rw [if_neg hne]
      exact hw.heap.setValueDelegate (hw.sound hd) (hw.sound hop)
  case add e c =>
    obtain rfl := Option.some.inj ha
    obtain ⟨dl, h, d', hd, -⟩ := edit_cases hs
    exact ⟨dl, _, _, hd, hs, hw.heap.addInternal (hw.sound hd) c.entry⟩
  case addDelegate e delegate =>
    obtain ⟨operand, hop, hs⟩ := Option.bind_eq_some_iff.mp hs
    rw [setsList, hop, Option.bind_some] at ha
    obtain ⟨methodList, hc, rfl⟩ := Option.map_eq_some_iff.mp ha
    obtain ⟨dl, h, d', hd, -⟩ := edit_cases hs
    obtain ⟨l, hl, hpos⟩ := hw.sound hop methodList hc
    exact ⟨dl, _, _, hd, hs, hw.heap.addDelegate (hw.sound hd) hc hl hpos⟩
  case remove e c =>
    obtain ⟨dl, h, d', hd, -⟩ := edit_cases hs
    rw [setsList, hd, Option.bind_some] at ha
    obtain ⟨current, hc, rfl⟩ := Option.map_eq_some_iff.mp ha
    exact ⟨dl, _, _, hd, hs, hw.heap.removeInternal (hw.sound hd) hc c.entry.key⟩
  case removeDelegate e delegate =>
    obtain ⟨operand, hop, hs⟩ := Option.bind_eq_some_iff.mp hs
    obtain ⟨dl, h, d', hd, -⟩ := edit_cases hs
    rw [setsList, hd, Option.bind_some] at ha
    obtain ⟨current, hc, ha⟩ := Option.bind_eq_some_iff.mp ha
    by_cases hsame : e = delegate
    · rw [if_pos hsame] at ha
      obtain rfl := Option.some.inj ha
      refine ⟨dl, _, [], hd, hs, ?_⟩
      rw [if_neg (by rw [hc]; simp), if_pos hsame]
      exact ⟨w.heap, none, rfl, (Heap.Leaves.null rfl).prepares hw.heap (hw.sound hd)⟩
    · rw [if_neg hsame, hop, Option.bind_some] at ha
      obtain ⟨methodList, hc', rfl⟩ := Option.map_eq_some_iff.mp ha
      refine ⟨dl, _, KeyedLists.subtract Method.key (w.heap.contents dl)
        ((w.heap.contents operand).map Method.key), hd, hs, ?_⟩
      rw [if_neg (by rw [hc]; simp), if_neg hsame]
      exact hw.heap.removeDelegate (hw.sound hd) (hw.sound hop) hc hc'
  all_goals cases ha

/-- No invocation goes through a list of a delegate that does not run. -/
theorem Inv.idle (hw : w.Inv) (hd : w.delegates.get d = some dl)
    (hidle : d ∉ w.running.map Prod.fst) {x : Nat} (hx : x ∈ dl.owned) : w.passes x = 0 := by
  refine List.count_eq_zero.mpr fun hpass => ?_
  obtain ⟨r, hr, rfl⟩ := List.mem_map.mp hpass
  obtain ⟨dr, hdr, hxr⟩ := hw.held r hr
  have hne : r.1 ≠ d := fun h => hidle (h ▸ List.mem_map_of_mem hr)
  -- two delegates would own the list
  have hfree : (w.delegates.free d).get r.1 = some dr := by rw [Slots.get_free, if_neg hne, hdr]
  have hsum := Slots.total_free (f := fun d => d.owned.count r.2) hd
  have hle := Slots.le_total (f := fun d => d.owned.count r.2) hfree
  have hpos := List.count_pos_iff.mpr hx
  have hpos' := List.count_pos_iff.mpr hxr
  have howner := hw.owner r.2
  have halive := w.heap.alive_le r.2
  omega

/-- An idle delegate has nothing left to delete. -/
theorem Inv.purges (hw : w.Inv) (ha : w.setsList a = some d)
    (hidle : d ∉ w.running.map Prod.fst) (hs : w.step a = some w') :
    ∃ dl, w'.delegates.get d = some dl ∧ dl.deleteList = [] := by
  obtain ⟨dl, f, entries, hd, hedit, h₁, o, hset, hp⟩ := hw.assigns ha hs
  obtain ⟨dl', h', d', hd', hf, rfl⟩ := edit_cases hedit
  rw [hd] at hd'
  obtain rfl := Option.some.inj hd'
  rw [hset] at hf
  refine ⟨d', by rw [Slots.get_set hd, if_pos rfl], Heap.setMethodList_idle hf fun x hx l hl => ?_⟩
  rcases hp.lists x l hl with hold | ⟨-, hone, -⟩
  · rw [hw.refs x l hold, hw.idle hd hidle hx]
  · exact hone

end World

/-! ## The nest of invocations -/

/-- A frame has called the first entries of its list. -/
structure Frame.Ok (f : Frame F) : Prop where
  size : f.entries.length = f.n + 1
  bound : f.i ≤ f.n
  called : f.called = f.entries.take (f.i + if f.inHandler then 1 else 0)

/-- What an invocation called when it had ended. -/
def Ended.Ok (e : Ended F) : Prop :=
  e.called <+: e.entries ∧ (e.threw = false → e.called = e.entries)

theorem Frame.Ok.enter {f : Frame F} (hf : f.Ok) (hout : f.inHandler = false) {m : Method F}
    (hm : f.entries[f.i]? = some m) : (f.enter m).Ok := by
  refine ⟨hf.size, hf.bound, ?_⟩
  show f.called ++ [m] = f.entries.take (f.i + 1)
  rw [hf.called, hout, List.take_add_one, hm]
  rfl

theorem Frame.Ok.next {f : Frame F} (hf : f.Ok) (hin : f.inHandler = true) (hlt : f.i < f.n) :
    f.next.Ok := by
  refine ⟨hf.size, hlt, ?_⟩
  show f.called = f.entries.take (f.i + 1 + 0)
  rw [hf.called, hin]
  rfl

theorem Frame.Ok.close {f : Frame F} (hf : f.Ok) (hin : f.inHandler = true) {threw : Bool}
    (hall : threw = false → ¬f.i < f.n) : (f.close threw).Ok := by
  have hcalled := hf.called
  rw [hin] at hcalled
  refine ⟨?_, fun h => ?_⟩
  · show f.called <+: f.entries
    rw [hcalled]
    exact List.take_prefix _ _
  · have hn := hall h
    have hsize := hf.size
    show f.called = f.entries
    rw [hcalled]
    exact List.take_of_length_le (by simp only [if_true]; omega)

namespace Nest

structure Inv (s : Nest F) : Prop where
  world : s.world.Inv
  frames : s.frames.map Frame.entries = s.world.plain.running.map Prod.snd
  ok : ∀ f ∈ s.frames, f.Ok
  ended : ∀ e ∈ s.ended, e.Ok

variable {s s' : Nest F} {a : CallAct F}

/-- A step of the nest and one of the plain lists: both have no result, or the same. -/
def Answers (s : Nest F) (r : Option (Nest F)) (p : Option (PlainNest F)) : Prop :=
  r = none ∧ p = none ∨
    ∃ s', r = some s' ∧ p = some s'.plain ∧ s'.Inv ∧ s.world.heap.Keeps s'.world.heap ∧
      World.Table s.world s'.world

/-- The frame and the list of the innermost invocation. -/
theorem Inv.head (hs : s.Inv) {f : Frame F} {frames : List (Frame F)} (hf : s.frames = f :: frames) :
    ∃ d methodList running, s.world.running = (d, methodList) :: running ∧
      f.entries = s.world.heap.visible methodList ∧
      frames.map Frame.entries = (running.map fun r => s.world.heap.visible r.2) := by
  have hframes := hs.frames
  rw [hf] at hframes
  cases hr : s.world.running with
  | nil => simp [World.plain, hr] at hframes
  | cons r running =>
    simp only [World.plain, hr, List.map_cons, List.map_map] at hframes
    obtain ⟨hhead, htail⟩ := List.cons.inj hframes
    exact ⟨r.1, r.2, running, rfl, hhead, htail⟩

/-- `(*methodList)[i]` is entry `i` of what was visible at the start. -/
theorem Inv.methodAt (hs : s.Inv) {f : Frame F} {frames : List (Frame F)}
    (hf : s.frames = f :: frames) {d methodList : Nat} {running : List (Nat × Nat)}
    (hr : s.world.running = (d, methodList) :: running)
    (hentries : f.entries = s.world.heap.visible methodList) :
    s.world.heap.methodAt methodList f.i = f.entries[f.i]? := by
  have hok := hs.ok f (by rw [hf]; exact List.mem_cons_self)
  obtain ⟨l, hl, -⟩ : ∃ l, s.world.heap.lists.get methodList = some l ∧ l.refCount ≠ 1 :=
    hs.world.get_running (r := (d, methodList)) (by rw [hr]; exact List.mem_cons_self)
  obtain ⟨array, ha, -⟩ := hs.world.heap.within methodList l hl
  have hlen := hs.world.heap.length_visible hl
  have hsize := hok.size
  have hbound := hok.bound
  rw [hentries] at hsize ⊢
  rw [Heap.visible_eq hl ha, List.getElem?_take_of_lt (by omega)]
  simp [Heap.methodAt, hl, ha]

theorem Inv.leave (hs : s.Inv) {f : Frame F} {frames : List (Frame F)}
    (hf : s.frames = f :: frames) (hin : f.inHandler = true) {threw : Bool}
    (hall : threw = false → ¬f.i < f.n) :
    s.Answers (s.leave f frames threw) (s.plain.leave f frames threw) := by
  obtain ⟨d, methodList, running, hr, -, htail⟩ := hs.head hf
  have hok := hs.ok f (by rw [hf]; exact List.mem_cons_self)
  rcases hs.world.finish with ⟨-, hnone⟩ | ⟨w', hstep, hplain, hinv, hkeeps⟩
  · rw [Plain.step] at hnone
    simp [World.plain, hr] at hnone
  · refine .inr ⟨⟨w', frames, s.ended ++ [f.close threw]⟩, by simp [Nest.leave, hstep], ?_,
      ⟨hinv, ?_, fun g hg => hs.ok g (by rw [hf]; exact List.mem_cons_of_mem _ hg), ?_⟩, hkeeps,
      (World.step_table hstep).1⟩
    · simp [PlainNest.leave, Nest.plain, hplain]
    · rw [Plain.step] at hplain
      simp only [World.plain, hr, List.map_cons, Option.some.injEq] at hplain
      have hrunning := congrArg Plain.running hplain
      show frames.map Frame.entries = w'.plain.running.map Prod.snd
      rw [htail, World.plain, ← hrunning, List.map_map]
      rfl
    · intro e he
      rcases List.mem_append.mp he with he | he
      · exact hs.ended e he
      · rw [List.mem_singleton.mp he]
        exact hok.close hin hall

theorem Inv.start (hs : s.Inv) (d : Nat) : s.Answers (s.start d) (s.plain.start d) := by
  rcases hs.world.invoke d with ⟨hnone, hnone'⟩ | ⟨w', hstep, hplain, hinv, hkeeps⟩
  · exact .inl ⟨by simp [Nest.start, hnone], by simp [PlainNest.start, Nest.plain, hnone']⟩
  · -- the list that was entered is the new head
    obtain ⟨methodList, hrunning⟩ : ∃ methodList, w'.running = (d, methodList) :: s.world.running := by
      rw [World.step] at hstep
      obtain ⟨dl, -, hstep⟩ := Option.bind_eq_some_iff.mp hstep
      obtain ⟨methodList, -, hstep⟩ := Option.bind_eq_some_iff.mp hstep
      obtain ⟨h, -, hw⟩ := Option.bind_eq_some_iff.mp hstep
      obtain rfl := Option.some.inj hw
      exact ⟨methodList, rfl⟩
    obtain ⟨l, hl, -⟩ : ∃ l, w'.heap.lists.get methodList = some l ∧ l.refCount ≠ 1 :=
      hinv.get_running (r := (d, methodList)) (by rw [hrunning]; exact List.mem_cons_self)
    have hlen := hinv.heap.length_visible hl
    have hpos := hinv.nonempty methodList l hl
    obtain ⟨n, hn⟩ : ∃ n, l.size = n + 1 := ⟨l.size - 1, by omega⟩
    have htail : (s.world.running.map fun r => (r.1, w'.heap.visible r.2)) =
        s.world.plain.running := by
      rw [Plain.step] at hplain
      obtain ⟨entries, -, hplain⟩ := Option.bind_eq_some_iff.mp hplain
      split at hplain
      · cases hplain
      · have heq := congrArg Plain.running (Option.some.inj hplain)
        rw [World.plain, World.plain] at heq
        dsimp only at heq
        rw [hrunning, List.map_cons] at heq
        exact (List.cons.inj heq).2.symm
    refine .inr ⟨⟨w', { n := n, entries := w'.heap.visible methodList } :: s.frames, s.ended⟩,
      by simp [Nest.start, hstep, hrunning, hl, hn], ?_, ⟨hinv, ?_, ?_, hs.ended⟩, hkeeps,
      (World.step_table hstep).1⟩
    · have hhead : w'.plain.running.head? = some (d, w'.heap.visible methodList) := by
        simp [World.plain, hrunning]
      simp only [PlainNest.start, Nest.plain, hplain, Option.bind_eq_bind, Option.bind_some, hhead]
      rw [hlen, hn, Nat.add_sub_cancel]
    · show _ :: s.frames.map Frame.entries =
        (w'.running.map fun r => (r.1, w'.heap.visible r.2)).map Prod.snd
      rw [hs.frames, hrunning, ← htail]
      rfl
    · intro f hf
      rcases List.mem_cons.mp hf with rfl | hf
      · exact ⟨by rw [hlen, hn], Nat.zero_le n, rfl⟩
      · exact hs.ok f hf

/-- An operation of user code leaves the invocations alone. -/
theorem Inv.run (hs : s.Inv) {b : DelegateAct F} (hb : World.Quiet b) :
    s.Answers ((s.world.step b).map fun w => { s with world := w })
      ((s.plain.plain.step b).map fun plain => { s.plain with plain := plain }) := by
  rcases hs.world.step b with ⟨hnone, hnone'⟩ | ⟨w', hstep, hplain, hinv, hkeeps⟩
  · exact .inl ⟨by rw [hnone]; rfl, by rw [Nest.plain, hnone']; rfl⟩
  · obtain ⟨htable, hquiet⟩ := World.step_table hstep
    refine .inr ⟨{ s with world := w' }, by rw [hstep]; rfl, by rw [Nest.plain, hplain]; rfl,
      ⟨hinv, ?_, hs.ok, hs.ended⟩, hkeeps, htable⟩
    have hrunning : w'.plain.running = s.world.plain.running := by
      rw [World.plain, hquiet hb]
      refine List.map_congr_left fun r hr => ?_
      obtain ⟨l, hl, -⟩ := hs.world.get_running hr
      obtain ⟨l', hl', -⟩ := hinv.get_running (r := r) (by rw [hquiet hb]; exact hr)
      rw [(hkeeps.visible r.2 l' (Slots.lt_fresh hl) hl').2]
    show s.frames.map Frame.entries = w'.plain.running.map Prod.snd
    rw [hrunning, hs.frames]

/-- Frames change, the world does not. -/
theorem Inv.frame (hs : s.Inv) {f g : Frame F} {frames : List (Frame F)}
    (hf : s.frames = f :: frames) (hentries : g.entries = f.entries) (hg : g.Ok) :
    s.Answers (some { s with frames := g :: frames })
      (some { s.plain with frames := g :: frames }) := by
  refine .inr ⟨_, rfl, rfl, ⟨hs.world, ?_, ?_, hs.ended⟩, .refl _, .same rfl⟩
  · rw [← hs.frames, hf, List.map_cons, List.map_cons, hentries]
  · intro f' hf'
    rcases List.mem_cons.mp hf' with rfl | hf'
    · exact hg
    · exact hs.ok f' (by rw [hf]; exact List.mem_cons_of_mem _ hf')

theorem Inv.step (hs : s.Inv) (a : CallAct F) : s.Answers (s.step a) (s.plain.step a) := by
  have hnone : s.Answers none none := .inl ⟨rfl, rfl⟩
  cases a with
  | run b =>
    unfold Nest.step PlainNest.step
    dsimp only
    rw [show s.plain.frames = s.frames from rfl]
    split
    · cases b with
      | finish => exact hnone
      | invoke d => exact hs.start d
      | _ => exact hs.run trivial
    · exact hnone
  | call =>
    rw [Nest.step, PlainNest.step, show s.plain.frames = s.frames from rfl]
    split
    · next f frames hf =>
      split
      · exact hnone
      · next hout =>
        obtain ⟨d, methodList, running, hr, hentries, -⟩ := hs.head hf
        have hok := hs.ok f (by rw [hf]; exact List.mem_cons_self)
        have hlt : f.i < f.entries.length := by
          have hsize := hok.size
          have hbound := hok.bound
          omega
        have hm : f.entries[f.i]? = some f.entries[f.i] := List.getElem?_eq_getElem hlt
        rw [hr, List.head?_cons]
        simp only [Option.bind_eq_bind, Option.bind_some]
        rw [hs.methodAt hf hr hentries, hm]
        exact hs.frame hf rfl (hok.enter (Bool.not_eq_true _ ▸ hout) hm)
    · exact hnone
  | handlerReturns =>
    rw [Nest.step, PlainNest.step, show s.plain.frames = s.frames from rfl]
    split
    · next f frames hf =>
      split
      · next hin =>
        have hok := hs.ok f (by rw [hf]; exact List.mem_cons_self)
        split
        · next hlt => exact hs.frame hf rfl (hok.next hin hlt)
        · next hlast => exact hs.leave hf hin fun _ => hlast
      · exact hnone
    · exact hnone
  | handlerThrows =>
    rw [Nest.step, PlainNest.step, show s.plain.frames = s.frames from rfl]
    split
    · next f frames hf =>
      split
      · next hin => exact hs.leave hf hin fun h => by cases h
      · exact hnone
    · exact hnone

theorem inv_start : Inv ({} : Nest F) where
  world := World.inv_start
  frames := rfl
  ok f hf := by cases hf
  ended e he := by cases he

theorem Inv.after (hs : s.Inv) (h : s.step a = some s') :
    s'.Inv ∧ s.world.heap.Keeps s'.world.heap ∧ World.Table s.world s'.world := by
  rcases hs.step a with ⟨hnone, -⟩ | ⟨s₁, hstep, -, hinv, hkeeps, htable⟩
  · rw [h] at hnone
    cases hnone
  · rw [h] at hstep
    obtain rfl := Option.some.inj hstep
    exact ⟨hinv, hkeeps, htable⟩

theorem Inv.reach (hs : s.Inv) (h : Reach Nest.step s s') :
    s'.Inv ∧ s.world.heap.Keeps s'.world.heap ∧ ∀ d x, s.world.Owns d x → s'.world.Owns d x := by
  refine h.invariant (I := fun t => t.Inv ∧ s.world.heap.Keeps t.world.heap ∧
    ∀ d x, s.world.Owns d x → t.world.Owns d x) ⟨hs, .refl _, fun _ _ h => h⟩ ?_
  intro t a u ⟨ht, hk, ho⟩ hu
  obtain ⟨hinv, hkeeps, htable⟩ := ht.after hu
  exact ⟨hinv, hk.trans hkeeps, fun d x hx =>
    ht.world.keepsOwner hinv.world hkeeps htable (ho d x hx)⟩

theorem step_run {b : DelegateAct F} {d : Nat} (hb : s.world.setsList b = some d)
    (h : s.step (.run b) = some s') : s.world.step b = some s'.world := by
  unfold Nest.step at h
  dsimp only at h
  split at h
  · cases b with
    | finish => cases hb
    | invoke e => cases hb
    | _ =>
      obtain ⟨w', hw, rfl⟩ := Option.map_eq_some_iff.mp h
      exact hw
  · cases h

/-- A list that was `_current` is, from then on, owned by its delegate or deleted. -/
theorem Inv.owns_current (hs : s.Inv) {d x : Nat} {dl : Delegate}
    (hd : s.world.delegates.get d = some dl) (hc : dl.current = some x) : s.world.Owns d x := by
  have hx := World.current_mem_owned hc
  obtain ⟨l, hl⟩ := hs.world.get_owned hd hx
  exact ⟨Slots.lt_fresh hl, .inl ⟨dl, hd, hx⟩⟩

end Nest

/-- Invocations go through the entries they began with, whatever handlers do and whether
they throw; their lists live as long as they do, and an idle delegate keeps, after the next
`SetMethodList`, none of the lists that it replaced. -/
theorem reentrant_delegates (acts : List (CallAct F)) :
    (exec Nest.step {} acts).map Nest.plain = exec PlainNest.step {} acts ∧
      ∀ s, exec Nest.step {} acts = some s →
        (∀ e ∈ s.ended, e.called <+: e.entries ∧ (e.threw = false → e.called = e.entries)) ∧
        (∀ f ∈ s.frames, f.called <+: f.entries) ∧
        (∀ r ∈ s.world.running, ∃ l, s.world.heap.lists.get r.2 = some l) ∧
        (∀ s' x, Reach Nest.step s s' → x < s.world.heap.lists.fresh →
          s.world.heap.lists.get x = none → s'.world.heap.lists.get x = none) ∧
        ∀ d a s', d ∉ s.world.running.map Prod.fst → s.world.setsList a = some d →
          s.step (.run a) = some s' →
          ∃ dl, s'.world.delegates.get d = some dl ∧ dl.deleteList = [] ∧
            ∀ s₀ dl₀ x, Reach Nest.step {} s₀ → Reach Nest.step s₀ s →
              s₀.world.delegates.get d = some dl₀ → dl₀.current = some x →
              dl.current ≠ some x → s'.world.heap.lists.get x = none := by
  have hstep : ∀ (s : Nest F) a, s.Inv → (s.step a).map Nest.plain = s.plain.step a := by
    intro s a hs
    rcases hs.step a with ⟨hr, hp⟩ | ⟨s', hr, hp, -⟩
    · rw [hr, hp]
      rfl
    · rw [hr, hp]
      rfl
  refine ⟨exec_map Nest.plain hstep (fun s a s' hs h => (hs.after h).1) acts Nest.inv_start,
    fun s hs => ?_⟩
  obtain ⟨hinv, -⟩ := Nest.inv_start.reach (reach_of_exec hs)
  refine ⟨hinv.ended, fun f hf => ?_, fun r hr => ?_, fun s' x h hlt hnone => ?_, ?_⟩
  · rw [(hinv.ok f hf).called]
    exact List.take_prefix _ _
  · obtain ⟨l, hl, -⟩ := hinv.world.get_running hr
    exact ⟨l, hl⟩
  · obtain ⟨-, hk, -⟩ := hinv.reach h
    by_contra hsome
    obtain ⟨l', hl'⟩ := Option.ne_none_iff_exists'.mp hsome
    obtain ⟨⟨l, hl⟩, -⟩ := hk.visible x l' hlt hl'
    rw [hnone] at hl
    cases hl
  · intro d a s' hidle ha hs'
    obtain ⟨dl, hd, hnil⟩ := hinv.world.purges ha hidle (Nest.step_run ha hs')
    refine ⟨dl, hd, hnil, fun s₀ dl₀ x h₀ h hd₀ hc hne => ?_⟩
    obtain ⟨hinv₀, -⟩ := Nest.inv_start.reach h₀
    obtain ⟨-, -, howns⟩ := hinv₀.reach (h.tail trivial hs')
    obtain ⟨-, ⟨dl', hd', hx⟩ | hnone⟩ := howns d x (hinv₀.owns_current hd₀ hc)
    · rw [hd] at hd'
      obtain rfl := Option.some.inj hd'
      rw [Delegate.owned, hnil, List.append_nil] at hx
      exact absurd (Option.mem_toList.mp hx) hne
    · exact hnone

/-- The second handler invokes the delegate again and empties it; one inside throws, both
invocations are left, and the next addition deletes the list that they went through. -/
example : (exec Nest.step {} [.run (.constructFrom (.pointer 1 ())), .run (.add 0 (.pointer 2 ())),
    .run (.invoke 0), .call, .handlerReturns, .call, .run (.invoke 0), .call, .run (.removeDelegate 0 0),
    .handlerThrows, .handlerThrows, .run (.add 0 (.pointer 3 ()))]).map
      (fun s => (s.ended.map fun e => (e.called.map Method.pMethodAdress, e.threw),
        (s.world.delegates.get 0).map Delegate.deleteList)) =
      some ([([1], true), ([1, 2], true)], some []) := by decide

end VideoPlayerCore
