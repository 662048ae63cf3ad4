import VideoPlayerCore.DelegateVirtual

/-!
# Delegates are plain lists

Whatever a client does, the world of delegates, shared arrays and deferred deletes goes
through the same states as the plain lists: an operation fails (runs past a capacity,
reads what is not there, touches a deleted object) only if the client asks for something
that the plain lists have no answer to.  A version of a list that is still there shows
what it showed before.

    (exec World.step {} acts).map World.plain = exec Plain.step {} acts
    sizes in bounds in every world reached, versions kept         (delegates_are_lists)
-/

namespace VideoPlayerCore

open KeyedLists Machine

variable {F : Type}

namespace Heap

variable {h : Heap F} {d delegate : Delegate}

/-- An operator that prepares a list with these entries and hands it to `SetMethodList`. -/
def Assigns (h : Heap F) (d : Delegate) (r : Option (Heap F × Delegate))
    (entries : List (Method F)) : Prop :=
  ∃ h₁ o, r = h₁.setMethodList d o ∧ Prepares h h₁ d.current o entries

theorem Inv.setValueInternal (hi : h.Inv) (hd : h.Sound d) (m : Method F) :
    h.Assigns d (h.setValueInternal d m) [m] := by
  rw [setValueInternal_by]
  exact hi.setValueBy Heap.setMethodList hd m

theorem Inv.setValueDelegate (hi : h.Inv) (hd : h.Sound d) (hs : h.Sound delegate) :
    h.Assigns d (h.setValueDelegate d delegate) (h.contents delegate) := by
  rw [setValueDelegate_by]
  exact hi.setValueDelegateBy Heap.setMethodList hd hs

theorem Inv.addInternal (hi : h.Inv) (hd : h.Sound d) (m : Method F) :
    h.Assigns d (h.addInternal d m) (h.contents d ++ [m]) := by
  rw [addInternal_by]
  exact hi.addBy Heap.setMethodList hd m

theorem Inv.addDelegate (hi : h.Inv) (hd : h.Sound d) {methodList : Nat} {l : MethodList}
    (hc : delegate.current = some methodList) (hl : h.lists.get methodList = some l)
    (hpos : 0 < l.size) :
    h.Assigns d (h.addDelegate d delegate) (h.contents d ++ h.contents delegate) := by
  rw [addDelegate_by]
  exact hi.addDelegateBy Heap.setMethodList hd hc hl hpos

theorem Inv.removeInternal (hi : h.Inv) (hd : h.Sound d) {current : Nat}
    (hc : d.current = some current) (key : Nat × Nat) :
    h.Assigns d (h.removeInternal d key) (removeLast Method.key key (h.contents d)) := by
  rw [removeInternal_by]
  exact hi.removeBy Heap.setMethodList hd hc key

theorem Inv.removeDelegate (hi : h.Inv) (hd : h.Sound d) (hs : h.Sound delegate)
    {current methodList : Nat} (hc : d.current = some current)
    (hc' : delegate.current = some methodList) :
    h.Assigns d (h.removeDelegate d delegate)
      (subtract Method.key (h.contents d) ((h.contents delegate).map Method.key)) := by
  rw [removeDelegate_by]
  exact hi.removeDelegateBy Heap.setMethodList hd hs hc hc'

/-- A reference count is no entry. -/
theorem Inv.setRef (hi : h.Inv) {k : Nat} {l : MethodList} (hl : h.lists.get k = some l)
    (n : Nat) {h' : Heap F} (hh' : h' = { h with lists := h.lists.set k { l with refCount := n } }) :
    h'.Inv ∧ (∀ x, h'.visible x = h.visible x) ∧ h'.lists.fresh = h.lists.fresh ∧
      ∀ x, h'.lists.get x = if x = k then some { l with refCount := n } else h.lists.get x := by
  subst hh'
  have hget := fun x => Slots.get_set hl { l with refCount := n } x
  obtain ⟨a, ha, hsize⟩ := hi.within k l hl
  have hedit : Edits h { h with lists := h.lists.set k { l with refCount := n } } k := by
    refine hi.edits _ hget ?_ ?_ ?_ hi.roomy ?_
    · rintro l' ⟨⟩
      exact ⟨a, ha, hsize⟩
    · intro i l' b _ _ hb
      exact ⟨b, [], hb, (List.append_nil _).symm⟩
    · intro i b hb
      have hsum : (h.lists.set k { l with refCount := n }).total (uses i) + uses i l =
          h.lists.total (uses i) + uses i { l with refCount := n } := Slots.total_set hl _
      rw [hi.counted i b hb]
      exact (Nat.add_right_cancel hsum).symm
    · show _ ≤ (h.lists.set k _).fresh
      rw [Slots.fresh_set]
  refine ⟨hedit.inv, fun x => ?_, Slots.fresh_set, hget⟩
  by_cases hx : x = k
  · subst hx
    rw [visible_eq (h := { h with lists := h.lists.set x { l with refCount := n } })
      ((hget x).trans (if_pos rfl)) ha, visible_eq hl ha]
  · exact hedit.visible x hx

end Heap

namespace World

variable {w w' : World F} {d : Nat} {dl : Delegate}

/-- A step of the world and one of the plain lists: both have no result, or the same. -/
def Answers (w : World F) (r : Option (World F)) (p : Option (Plain F)) : Prop :=
  r = none ∧ p = none ∨
    ∃ w', r = some w' ∧ p = some w'.plain ∧ w'.Inv ∧ w.heap.Keeps w'.heap

theorem plain_get (w : World F) (d : Nat) :
    w.plain.delegates.get d = (w.delegates.get d).map w.heap.contents := Slots.get_map _ _ _

/-- A read of a delegate; without the delegate both have no result. -/
theorem Answers.get {d : Nat} {f : Delegate → Option (World F)}
    {g : List (Method F) → Option (Plain F)}
    (h : ∀ dl, w.delegates.get d = some dl → Answers w (f dl) (g (w.heap.contents dl))) :
    Answers w (w.delegates.get d >>= f) (w.plain.delegates.get d >>= g) := by
  rw [plain_get]
  cases hd : w.delegates.get d with
  | none => exact .inl ⟨rfl, rfl⟩
  | some dl => exact h dl hd

/-- An operator is a function of the list. -/
theorem Inv.edit (hw : w.Inv) (d : Nat) (f : Heap F → Delegate → Option (Heap F × Delegate))
    (g : List (Method F) → List (Method F))
    (hf : ∀ dl, w.delegates.get d = some dl →
      f w.heap dl = some (w.heap, dl) ∧ g (w.heap.contents dl) = w.heap.contents dl ∨
        w.heap.Assigns dl (f w.heap dl) (g (w.heap.contents dl))) :
    Answers w (w.edit d f) ((w.plain.delegates.get d).bind fun entries =>
      some { w.plain with delegates := w.plain.delegates.set d (g entries) }) := by
  rw [plain_get]
  cases hd : w.delegates.get d with
  | none => exact .inl ⟨by simp [World.edit, hd], rfl⟩
  | some dl =>
    rw [Option.map_some, Option.bind_some]
    rcases hf dl hd with ⟨hsame, hg⟩ | ⟨h₁, o, hset, hp⟩
    · refine .inr ⟨w, ?_, ?_, hw, .refl _⟩
      · simp [World.edit, hd, hsame, Slots.set_get hd]
      · rw [hg, Slots.set_get (by rw [plain_get, hd]; rfl)]
    · obtain ⟨h', d', hset', hinv, hkeeps, hplain⟩ := hw.settle hd hp
      refine .inr ⟨_, ?_, congrArg some hplain.symm, hinv, hkeeps⟩
      simp [World.edit, hd, hset, hset']

/-- A delegate that is empty. -/
theorem Inv.construct (hw : w.Inv) :
    Inv { w with delegates := w.delegates.alloc {} } ∧
      plain { w with delegates := w.delegates.alloc {} } =
        { w.plain with delegates := w.plain.delegates.alloc [] } := by
  have hget := fun j => Slots.get_alloc w.delegates {} j
  refine ⟨⟨hw.heap, fun x => ?_, hw.refs, hw.nonempty, fun r hr => ?_⟩, ?_⟩
  · rw [Slots.total_alloc, hw.owner]
    rfl
  · obtain ⟨dr, hdr, hx⟩ := hw.held r hr
    refine ⟨dr, ?_, hx⟩
    rw [hget, if_neg (Nat.ne_of_lt (Slots.lt_fresh hdr)), hdr]
  · unfold plain
    rw [Plain.mk.injEq]
    refine ⟨Slots.ext_get (by simp) fun j => ?_, rfl⟩
    rw [Slots.get_map, hget, Slots.get_alloc, Slots.get_map, Slots.fresh_map]
    split <;> rfl

/-- A constructor is an operator of the new delegate. -/
theorem Inv.make (hw : w.Inv) (f : Heap F → Option (Heap F × Delegate))
    (entries : List (Method F))
    (hf : f w.heap = some (w.heap, {}) ∧ entries = [] ∨ w.heap.Assigns {} (f w.heap) entries) :
    Answers w (w.make f)
      (some { w.plain with delegates := w.plain.delegates.alloc entries }) := by
  obtain ⟨hinv, hplain⟩ := hw.construct
  have hget : (w.delegates.alloc {}).get w.delegates.fresh = some {} := by
    rw [Slots.get_alloc, if_pos rfl]
  have hmake : w.make f =
      World.edit { w with delegates := w.delegates.alloc {} } w.delegates.fresh fun h _ => f h := by
    unfold World.make World.edit
    dsimp only
    rw [hget]
    simp only [Option.bind_eq_bind, Option.bind_some, Slots.set_alloc]
  have hfresh : w.plain.delegates.fresh = w.delegates.fresh := Slots.fresh_map _
  have hedit := hinv.edit w.delegates.fresh (fun h _ => f h) (fun _ => entries) fun dl hdl => by
    rw [show World.delegates _ = w.delegates.alloc {} from rfl, hget] at hdl
    cases hdl
    rcases hf with ⟨hnew, hnil⟩ | hassign
    · exact .inl ⟨hnew, hnil⟩
    · exact .inr hassign
  rw [← hmake, hplain, ← hfresh] at hedit
  rw [Slots.get_alloc, if_pos rfl, Option.bind_some] at hedit
  rw [show (Plain.delegates _).set _ _ = _ from Slots.set_alloc w.plain.delegates [] entries] at hedit
  exact hedit

/-- Only a reference count and the running invocations change. -/
theorem Inv.setRef (hw : w.Inv) {k n : Nat} {l : MethodList} (hl : w.heap.lists.get k = some l)
    {h' : Heap F} (hh' : h' = { w.heap with lists := w.heap.lists.set k { l with refCount := n } })
    {running : List (Nat × Nat)} (hn : n = 1 + (running.map Prod.snd).count k)
    (hpasses : ∀ x, x ≠ k → (running.map Prod.snd).count x = w.passes x)
    (hheld : ∀ r ∈ running, ∃ d, w.delegates.get r.1 = some d ∧ r.2 ∈ d.owned) :
    Inv { w with heap := h', running := running } ∧ w.heap.Keeps h' ∧
      plain { w with heap := h', running := running } =
        { w.plain with running := running.map fun r => (r.1, w.heap.visible r.2) } := by
  obtain ⟨hinv, hvisible, hfresh, hget⟩ := hw.heap.setRef hl n hh'
  have hold : ∀ x l', h'.lists.get x = some l' →
      ∃ l₀, w.heap.lists.get x = some l₀ ∧ l'.size = l₀.size ∧
        l'.refCount = 1 + (running.map Prod.snd).count x := by
    intro x l' hl'
    rw [hget] at hl'
    split at hl'
    · next hx =>
      cases hl'
      rw [hx]
      exact ⟨l, hl, rfl, hn⟩
    · next hx => exact ⟨l', hl', rfl, by rw [hpasses x hx, hw.refs x l' hl']⟩
  refine ⟨⟨hinv, fun x => ?_, fun x l' hl' => ?_, fun x l' hl' => ?_, hheld⟩, ⟨?_, ?_⟩, ?_⟩
  · rw [hw.owner]
    unfold Heap.alive
    rw [hget]
    by_cases hx : x = k
    · rw [if_pos hx, hx, hl]
      rfl
    · rw [if_neg hx]
  · obtain ⟨l₀, -, -, hrefs⟩ := hold x l' hl'
    exact hrefs
  · obtain ⟨l₀, hl₀, hsize, -⟩ := hold x l' hl'
    rw [hsize]
    exact hw.nonempty x l₀ hl₀
  · rw [hfresh]
  · intro x l' _ hl'
    obtain ⟨l₀, hl₀, -⟩ := hold x l' hl'
    exact ⟨⟨l₀, hl₀⟩, hvisible x⟩
  · have hcontents : h'.contents = w.heap.contents := by
      funext d
      unfold Heap.contents
      split
      · rfl
      · rw [hvisible]
    have hshow : h'.visible = w.heap.visible := funext hvisible
    unfold plain
    dsimp only
    rw [hcontents, hshow]

theorem Inv.invoke (hw : w.Inv) (d : Nat) :
    Answers w (w.step (.invoke d)) (w.plain.step (.invoke d)) := by
  rw [World.step, Plain.step]
  refine .get fun dl hd => ?_
  cases hc : dl.current with
  | none => exact .inl ⟨rfl, if_pos (Heap.contents_none hc)⟩
  | some methodList =>
    obtain ⟨l, hl, hpos⟩ := hw.sound hd methodList hc
    have hcount : ((d, methodList) :: w.running).map Prod.snd =
        methodList :: w.running.map Prod.snd := rfl
    obtain ⟨hinv, hkeeps, hplain⟩ := hw.setRef (n := l.refCount + 1) hl rfl
      (show l.refCount + 1 = 1 + (((d, methodList) :: w.running).map Prod.snd).count methodList by
        have hrefs := hw.refs methodList l hl
        unfold passes at hrefs
        rw [hcount, List.count_cons_self]
        omega)
      (fun x hx => by rw [hcount, List.count_cons_of_ne (Ne.symm hx)]; rfl)
      (fun r hr => by
        rcases List.mem_cons.mp hr with hr | hr
        · rw [hr]
          exact ⟨dl, hd, current_mem_owned hc⟩
        · exact hw.held r hr)
    refine .inr ⟨_, by simp [Heap.addRef, hl], ?_, hinv, hkeeps⟩
    rw [if_neg (by rw [Heap.contents_some hc]; exact hw.heap.visible_ne_nil hl hpos), hplain,
      Heap.contents_some hc]
    rfl

theorem Inv.finish (hw : w.Inv) : Answers w (w.step .finish) (w.plain.step .finish) := by
  obtain ⟨heap, delegates, running⟩ := w
  cases running with
  | nil => exact .inl ⟨rfl, rfl⟩
  | cons r running =>
    obtain ⟨d, methodList⟩ := r
    obtain ⟨l, hl, -⟩ := hw.get_running List.mem_cons_self
    obtain ⟨hinv, hkeeps, hplain⟩ := hw.setRef (n := l.refCount - 1) hl rfl
      (show l.refCount - 1 = 1 + (running.map Prod.snd).count methodList by
        have hrefs := hw.refs methodList l hl
        unfold passes at hrefs
        rw [List.map_cons, List.count_cons_self] at hrefs
        omega)
      (fun x hx => by
        unfold passes
        rw [List.map_cons, List.count_cons_of_ne (Ne.symm hx)])
      (fun r hr => hw.held r (List.mem_cons_of_mem _ hr))
    refine .inr ⟨_, by simp [World.step, Heap.removeRef, hl], ?_, hinv, hkeeps⟩
    rw [hplain]
    rfl

theorem Inv.destroy (hw : w.Inv) (d : Nat) :
    Answers w (w.step (.destroy d)) (w.plain.step (.destroy d)) := by
  rw [World.step, Plain.step]
  refine .get fun dl hd => ?_
  have hruns : w.plain.running.map Prod.fst = w.running.map Prod.fst := by
    unfold plain
    simp
  rw [hruns]
  by_cases hrun : d ∈ w.running.map Prod.fst
  · rw [if_pos hrun, if_pos hrun]
    exact .inl ⟨rfl, rfl⟩
  · rw [if_neg hrun, if_neg hrun]
    have hrest : ∀ x, (w.delegates.free d).total (fun d => d.owned.count x) +
        dl.owned.count x = w.heap.alive x := fun x => by
      rw [← hw.owner]
      exact Slots.total_free hd
    have hget := fun j => Slots.get_free w.delegates d j
    have hothers : ∀ {j dj x}, (w.delegates.free d).get j = some dj → x ∈ dj.owned →
        0 < (w.delegates.free d).total (fun d => d.owned.count x) := by
      intro j dj x hj hx
      have hle := Slots.le_total (f := fun d => d.owned.count x) hj
      have hpos := List.count_pos_iff.mpr hx
      omega
    have hheld : ∀ r ∈ w.running, ∃ dr, (w.delegates.free d).get r.1 = some dr ∧
        r.2 ∈ dr.owned := by
      intro r hr
      obtain ⟨dr, hdr, hx⟩ := hw.held r hr
      refine ⟨dr, ?_, hx⟩
      have hne : r.1 ≠ d := by
        rintro rfl
        exact hrun (List.mem_map_of_mem hr)
      rw [hget, if_neg hne, hdr]
    obtain ⟨h', hdelete, hdrop⟩ := hw.heap.dropAll dl.owned fun x => by
      have hsum := hrest x
      omega
    -- what a delegate that does not run owns is idle
    have hidle : ∀ x ∈ dl.owned, w.heap.Idle x := by
      intro x hx
      obtain ⟨l, hl⟩ := hw.get_owned hd hx
      have hnone : w.passes x = 0 := by
        refine List.count_eq_zero.mpr fun hmem => ?_
        obtain ⟨r, hr, rfl⟩ := List.mem_map.mp hmem
        obtain ⟨dr, hdr, hx'⟩ := hheld r hr
        have hother := hothers hdr hx'
        have hpos := List.count_pos_iff.mpr hx
        have hsum := hrest r.2
        have hle := w.heap.alive_le r.2
        omega
      exact ⟨l, hl, by rw [hw.refs x l hl, hnone]⟩
    have hsame : w.heap.Prepares w.heap dl.current dl.current (w.heap.contents dl) :=
      ⟨hw.heap, fun x => by simp [Heap.added], fun _ _ => .inl, fun _ _ _ => rfl, rfl,
        Nat.le_refl _⟩
    have hm := hsame.moves hdrop hidle
    have howner : ∀ x, (w.delegates.free d).total (fun d => d.owned.count x) = h'.alive x := by
      intro x
      have hsum := hrest x
      have halive := hdrop.alive x
      omega
    refine .inr ⟨{ w with heap := h', delegates := w.delegates.free d }, ?_, ?_,
      hw.move hm howner hheld, hm.keeps⟩
    · unfold Delegate.owned at hdelete
      rw [hdelete]
      rfl
    · refine congrArg some ?_
      unfold plain
      rw [Plain.mk.injEq]
      refine ⟨Slots.ext_get (by simp) fun j => ?_, (hw.move_running hm).symm⟩
      rw [Slots.get_free, Slots.get_map, Slots.get_map, hget]
      split
      · rfl
      · next hj =>
        cases hdj : w.delegates.get j with
        | none => rfl
        | some dj =>
          have hdj' : (w.delegates.free d).get j = some dj := by rw [hget, if_neg hj, hdj]
          rw [Option.map_some, Option.map_some, hw.move_contents hm hdj fun x hx => by
            rw [← howner]
            exact hothers hdj' hx]

/-! ### Operators with another delegate -/

theorem Inv.copy (hw : w.Inv) (delegate : Nat) :
    Answers w (w.step (.copy delegate)) (w.plain.step (.copy delegate)) := by
  rw [World.step, Plain.step]
  refine .get fun operand hop => ?_
  have hassign := hw.heap.setValueDelegate (Heap.sound_new _) (hw.sound hop)
  refine hw.make _ (w.heap.contents operand) ?_
  unfold Heap.setValueDelegate at hassign
  split at hassign
  · exact .inr hassign
  · next hc => exact .inl ⟨rfl, Heap.contents_none hc⟩

theorem Inv.assignDelegate (hw : w.Inv) (d delegate : Nat) :
    Answers w (w.step (.assignDelegate d delegate))
      (w.plain.step (.assignDelegate d delegate)) := by
  rw [World.step, Plain.step]
  refine .get fun operand hop => ?_
  refine hw.edit d _ (fun _ => w.heap.contents operand) fun dl hd => ?_
  by_cases hsame : d = delegate
  · rw [if_pos hsame]
    rw [hsame, hop] at hd
    cases hd
    exact .inl ⟨rfl, rfl⟩
  · rw [if_neg hsame]
    exact .inr (hw.heap.setValueDelegate (hw.sound hd) (hw.sound hop))

theorem Inv.addDelegate (hw : w.Inv) (d delegate : Nat) :
    Answers w (w.step (.addDelegate d delegate)) (w.plain.step (.addDelegate d delegate)) := by
  rw [World.step, Plain.step]
  refine .get fun operand hop => ?_
  refine hw.edit d _ (fun entries => entries ++ w.heap.contents operand) fun dl hd => ?_
  cases hc : operand.current with
  | none =>
    refine .inl ⟨by unfold Heap.addDelegate; rw [hc], ?_⟩
    rw [Heap.contents_none hc, List.append_nil]
  | some methodList =>
    obtain ⟨l, hl, hpos⟩ := hw.sound hop methodList hc
    exact .inr (hw.heap.addDelegate (hw.sound hd) hc hl hpos)

theorem Inv.removeDelegate (hw : w.Inv) (d delegate : Nat) :
    Answers w (w.step (.removeDelegate d delegate))
      (w.plain.step (.removeDelegate d delegate)) := by
  rw [World.step, Plain.step]
  refine .get fun operand hop => ?_
  refine hw.edit d _ (fun entries =>
    subtract Method.key entries ((w.heap.contents operand).map Method.key)) fun dl hd => ?_
  cases hc : dl.current with
  | none =>
    refine .inl ⟨if_pos rfl, ?_⟩
    rw [Heap.contents_none hc, subtract_nil]
  | some current =>
    rw [if_neg (by simp)]
    by_cases hsame : d = delegate
    · rw [if_pos hsame]
      rw [hsame, hop] at hd
      cases hd
      exact .inr ⟨w.heap, none, rfl,
        (Heap.Leaves.null (subtract_self _)).prepares hw.heap (hw.sound hop)⟩
    · rw [if_neg hsame]
      cases hc' : operand.current with
      | none =>
        refine .inl ⟨by unfold Heap.removeDelegate; rw [hc, hc'], ?_⟩
        rw [Heap.contents_none hc']
        rfl
      | some methodList =>
        exact .inr (hw.heap.removeDelegate (hw.sound hd) (hw.sound hop) hc hc')

theorem Inv.step (hw : w.Inv) (a : DelegateAct F) : Answers w (w.step a) (w.plain.step a) := by
  cases a with
  | construct =>
    rw [World.step, Plain.step]
    exact hw.make _ [] (.inl ⟨rfl, rfl⟩)
  | constructFrom c =>
    rw [World.step, Plain.step]
    exact hw.make _ _ (.inr (hw.heap.setValueInternal (Heap.sound_new _) c.entry))
  | constructMethod pObject pFn f =>
    rw [World.step, Plain.step]
    exact hw.make _ _ (.inr (hw.heap.setValueInternal (Heap.sound_new _) ⟨pObject, pFn, f⟩))
  | copy delegate => exact hw.copy delegate
  | destroy d => exact hw.destroy d
  | assign d c =>
    rw [World.step, Plain.step]
    exact hw.edit d _ (fun _ => [c.entry]) fun dl hd =>
      .inr (hw.heap.setValueInternal (hw.sound hd) c.entry)
  | assignDelegate d delegate => exact hw.assignDelegate d delegate
  | add d c =>
    rw [World.step, Plain.step]
    exact hw.edit d _ (fun entries => entries ++ [c.entry]) fun dl hd =>
      .inr (hw.heap.addInternal (hw.sound hd) c.entry)
  | addDelegate d delegate => exact hw.addDelegate d delegate
  | remove d c =>
    rw [World.step, Plain.step]
    refine hw.edit d _ (removeLast Method.key c.entry.key) fun dl hd => ?_
    cases hc : dl.current with
    | none =>
      refine .inl ⟨by unfold Heap.removeInternal; rw [hc], ?_⟩
      rw [Heap.contents_none hc]
      rfl
    | some current => exact .inr (hw.heap.removeInternal (hw.sound hd) hc c.entry.key)
  | removeDelegate d delegate => exact hw.removeDelegate d delegate
  | invoke d => exact hw.invoke d
  | finish => exact hw.finish

theorem inv_start : Inv ({} : World F) where
  heap := ⟨fun _ _ hl => by simp [Slots.get_empty] at hl, fun _ _ hl => by simp [Slots.get_empty] at hl,
    fun _ _ hl => by simp [Slots.get_empty] at hl⟩
  owner _ := rfl
  refs _ _ hl := by simp [Slots.get_empty] at hl
  nonempty _ _ hl := by simp [Slots.get_empty] at hl
  held _ hr := by simp at hr

theorem Inv.step_plain (hw : w.Inv) (a : DelegateAct F) :
    (w.step a).map World.plain = w.plain.step a := by
  rcases hw.step a with ⟨hr, hp⟩ | ⟨w', hr, hp, -, -⟩
  · rw [hr, hp]
    rfl
  · rw [hr, hp]
    rfl

theorem Inv.step_keeps (hw : w.Inv) {a : DelegateAct F} (h : w.step a = some w') :
    w'.Inv ∧ w.heap.Keeps w'.heap := by
  rcases hw.step a with ⟨hr, -⟩ | ⟨w'', hr, -, hinv, hk⟩
  · rw [hr] at h
    cases h
  · rw [hr] at h
    cases h
    exact ⟨hinv, hk⟩

/-- A run of the world is one of the plain lists. -/
theorem Inv.exec_plain (hw : w.Inv) (acts : List (DelegateAct F)) :
    (exec World.step w acts).map World.plain = exec Plain.step w.plain acts :=
  exec_map World.plain (fun _ a hw => hw.step_plain a) (fun _ _ _ hw h => (hw.step_keeps h).1) acts hw

theorem Inv.exec_keeps (hw : w.Inv) {acts : List (DelegateAct F)}
    (h : exec World.step w acts = some w') : w'.Inv ∧ w.heap.Keeps w'.heap := by
  refine Reach.invariant (I := fun w' => w'.Inv ∧ w.heap.Keeps w'.heap) (reach_of_exec h)
    ⟨hw, .refl _⟩ fun w₁ a w₂ hw₁ h₁ => ?_
  obtain ⟨hinv, hk⟩ := hw₁.1.step_keeps h₁
  exact ⟨hinv, hw₁.2.trans hk⟩

end World

/-- Every client sees plain lists; sizes are in bounds and versions do not change. -/
theorem delegates_are_lists (acts : List (DelegateAct F)) :
    (exec World.step {} acts).map World.plain = exec Plain.step {} acts ∧
      ∀ w, exec World.step {} acts = some w →
        (∀ k l, w.heap.lists.get k = some l → ∃ a, w.heap.arrays.get l.array = some a ∧
          l.size ≤ a.size ∧ a.size ≤ a.capacity) ∧
        ∀ more w', exec World.step w more = some w' → w.heap.Keeps w'.heap := by
  refine ⟨World.inv_start.exec_plain acts, fun w hw => ?_⟩
  obtain ⟨hinv, -⟩ := World.inv_start.exec_keeps hw
  refine ⟨fun k l hl => ?_, fun more w' h => (hinv.exec_keeps h).2⟩
  obtain ⟨a, ha, hsize⟩ := hinv.heap.within k l hl
  exact ⟨a, ha, hsize, a.size_le⟩

/-- An invocation goes on through the version it began with, while both additions run. -/
example : (exec World.step {} [.constructFrom (.pointer 1 ()), .invoke 0, .add 0 (.pointer 2 ()),
    .add 0 (.pointer 3 ())]).map (fun w => (w.plain.running, w.plain.delegates.get 0)) =
      some ([(0, [⟨0, 1, ()⟩])], some [⟨0, 1, ()⟩, ⟨0, 2, ()⟩, ⟨0, 3, ()⟩]) := by decide

end VideoPlayerCore
