import VideoPlayerCore.DelegateRefines

/-!
# Delegates leave nothing behind

Arrays are shared by versions and counted, versions are owned by one delegate each and kept for
as long as an invocation may go through them.  No step makes an array that no version refers
to, so the destructors delete everything that the operators have allocated.

    h.Referred → h.release i = some h' → h'.Referred                       (Referred.release)
    w.Inv → w.heap.Referred → w.running = [] →
      exec step w (w.living.map .destroy) ends with no lists and no arrays  (Inv.destroy_all)
-/

namespace VideoPlayerCore

open Machine

variable {F : Type}

namespace Heap

variable {h h' : Heap F} {i k : Nat}

/-- Every array is referred to. -/
def Referred (h : Heap F) : Prop := ∀ i a, h.arrays.get i = some a → 0 < a.refCount

/-! ## What becomes of the arrays -/

theorem Referred.set (hr : h.Referred) {a b : SharedArray F} (ha : h.arrays.get i = some a)
    (hb : 0 < b.refCount) (lists : Slots MethodList) :
    Referred { arrays := h.arrays.set i b, lists := lists } := by
  intro j c hc
  change (h.arrays.set i b).get j = some c at hc
  rw [Slots.get_set ha] at hc
  split at hc
  · obtain rfl := Option.some.inj hc
    exact hb
  · exact hr j c hc

theorem Referred.alloc (hr : h.Referred) {b : SharedArray F} (hb : 0 < b.refCount)
    (lists : Slots MethodList) : Referred { arrays := h.arrays.alloc b, lists := lists } := by
  intro j c hc
  change (h.arrays.alloc b).get j = some c at hc
  rw [Slots.get_alloc] at hc
  split at hc
  · obtain rfl := Option.some.inj hc
    exact hb
  · exact hr j c hc

/-- The last reference frees the array. -/
theorem Referred.release (hr : h.Referred) (hs : h.release i = some h') : h'.Referred := by
  unfold Heap.release at hs
  simp only [Option.bind_eq_bind, Option.bind_eq_some_iff] at hs
  obtain ⟨a, ha, hs⟩ := hs
  split at hs
  · obtain rfl := Option.some.inj hs
    intro j c hc
    change (h.arrays.free i).get j = some c at hc
    rw [Slots.get_free] at hc
    split at hc
    · cases hc
    · exact hr j c hc
  · next hleft =>
    obtain rfl := Option.some.inj hs
    exact hr.set ha (Nat.pos_of_ne_zero hleft) _

theorem Referred.newList (hr : h.Referred) : h.newList.1.Referred :=
  hr.alloc Nat.one_pos _

theorem Referred.copyList {r : Heap F × Nat} (hr : h.Referred) (hs : h.copyList k = some r) :
    r.1.Referred := by
  unfold Heap.copyList at hs
  simp only [Option.bind_eq_bind, Option.bind_eq_some_iff] at hs
  obtain ⟨l, -, a, ha, hs⟩ := hs
  obtain rfl := Option.some.inj hs
  exact hr.set ha (Nat.succ_pos _) _

theorem Referred.deleteList (hr : h.Referred) (hs : h.deleteList k = some h') : h'.Referred := by
  unfold Heap.deleteList at hs
  simp only [Option.bind_eq_bind, Option.bind_eq_some_iff] at hs
  obtain ⟨l, -, h₁, hrelease, hs⟩ := hs
  obtain rfl := Option.some.inj hs
  exact fun i a ha => hr.release hrelease i a ha

theorem Referred.install {temp : SharedArray F} {size : Nat} (hr : h.Referred)
    (htemp : temp.refCount = 1) (hs : h.install k temp size = some h') : h'.Referred := by
  unfold Heap.install at hs
  simp only [Option.bind_eq_bind, Option.bind_eq_some_iff] at hs
  obtain ⟨l, -, hs⟩ := hs
  obtain rfl := Option.some.inj hs
  exact hr.alloc (by omega) _

theorem construct_refCount {a b : SharedArray F} {entries : List (Method F)}
    (hs : a.construct entries = some b) : b.refCount = a.refCount := by
  unfold SharedArray.construct at hs
  split at hs
  · obtain rfl := Option.some.inj hs
    rfl
  · cases hs

theorem pushBackRange_refCount {a array b : SharedArray F} {start len : Nat}
    (hs : a.pushBackRange array start len = some b) : b.refCount = a.refCount := by
  unfold SharedArray.pushBackRange at hs
  obtain ⟨entries, -, hs⟩ := Option.bind_eq_some_iff.mp hs
  exact construct_refCount hs

theorem pushLeft_refCount {newArray a b : SharedArray F} {indexes : List Nat}
    (hs : pushLeft newArray a indexes = some b) : b.refCount = newArray.refCount := by
  induction indexes generalizing newArray with
  | nil =>
    obtain rfl := Option.some.inj hs
    rfl
  | cons i indexes ih =>
    unfold pushLeft at hs
    simp only [Option.bind_eq_bind, Option.bind_eq_some_iff] at hs
    obtain ⟨m, -, next, hpush, hs⟩ := hs
    rw [ih hs]
    exact construct_refCount hpush

theorem Referred.extend {entries : List (Method F)} (hr : h.Referred)
    (hs : h.extend k entries = some h') : h'.Referred := by
  unfold Heap.extend at hs
  simp only [Option.bind_eq_bind, Option.bind_eq_some_iff] at hs
  obtain ⟨l, -, a, ha, b, hb, hs⟩ := hs
  obtain rfl := Option.some.inj hs
  refine hr.set ha ?_ _
  rw [construct_refCount hb]
  exact hr _ a ha

/-! ## MethodList -/

theorem Referred.add {m : Method F} (hr : h.Referred) (hs : h.add k m = some h') :
    h'.Referred := by
  unfold Heap.add at hs
  simp only [Option.bind_eq_bind, Option.bind_eq_some_iff] at hs
  obtain ⟨l, -, a, -, hs⟩ := hs
  split at hs
  · simp only [Option.bind_eq_some_iff] at hs
    obtain ⟨temp, htemp, h₁, hrelease, h₂, hinstall, hs⟩ := hs
    exact ((hr.release hrelease).install (pushBackRange_refCount htemp) hinstall).extend hs
  · split at hs
    · simp only [Option.bind_eq_some_iff] at hs
      obtain ⟨temp, htemp, h₁, hrelease, h₂, hinstall, hs⟩ := hs
      exact ((hr.release hrelease).install (construct_refCount htemp) hinstall).extend hs
    · exact hr.extend hs

theorem Referred.addList {list : Nat} (hr : h.Referred) (hs : h.addList k list = some h') :
    h'.Referred := by
  unfold Heap.addList at hs
  simp only [Option.bind_eq_bind, Option.bind_eq_some_iff] at hs
  obtain ⟨l, -, a, -, other, -, hs⟩ := hs
  split at hs
  · simp only [Option.bind_eq_some_iff] at hs
    obtain ⟨temp, htemp, h₁, hrelease, h₂, hinstall, other', -, array, -, entries, -, hs⟩ := hs
    exact ((hr.release hrelease).install (pushBackRange_refCount htemp) hinstall).extend hs
  · split at hs
    · simp only [Option.bind_eq_some_iff] at hs
      obtain ⟨temp, htemp, h₁, hrelease, h₂, hinstall, other', -, array, -, entries, -, hs⟩ := hs
      exact ((hr.release hrelease).install (construct_refCount htemp) hinstall).extend hs
    · simp only [Option.bind_some, Option.bind_eq_some_iff] at hs
      obtain ⟨other', -, array, -, entries, -, hs⟩ := hs
      exact hr.extend hs

theorem Referred.remove {key : Nat × Nat} {r : Heap F × Option Nat} (hr : h.Referred)
    (hs : h.remove k key = some r) : r.1.Referred := by
  unfold Heap.remove at hs
  simp only [Option.bind_eq_bind, Option.bind_eq_some_iff] at hs
  obtain ⟨l, -, a, -, hs⟩ := hs
  split at hs
  · cases hs
  · obtain ⟨last, -, hs⟩ := Option.bind_eq_some_iff.mp hs
    split at hs
    · split at hs
      · obtain rfl := Option.some.inj hs
        exact hr
      · obtain ⟨⟨h₁, copy⟩, hcopy, hs⟩ := Option.bind_eq_some_iff.mp hs
        obtain rfl := Option.some.inj hs
        exact fun i a ha => hr.copyList hcopy i a ha
    · obtain ⟨found, -, hs⟩ := Option.bind_eq_some_iff.mp hs
      split at hs
      · obtain ⟨⟨h₁, copy⟩, hcopy, hs⟩ := Option.bind_eq_some_iff.mp hs
        simp only [Option.bind_eq_some_iff] at hs
        obtain ⟨temp, htemp, temp', htemp', h₂, hrelease, h₃, hinstall, hs⟩ := hs
        obtain rfl := Option.some.inj hs
        have hone : temp'.refCount = 1 :=
          (pushBackRange_refCount htemp').trans (pushBackRange_refCount htemp)
        exact ((hr.copyList hcopy).release hrelease).install hone hinstall
      · obtain rfl := Option.some.inj hs
        exact hr

theorem Referred.removeList {list : Nat} {r : Heap F × Option Nat} (hr : h.Referred)
    (hs : h.removeList k list = some r) : r.1.Referred := by
  unfold Heap.removeList at hs
  simp only [Option.bind_eq_bind, Option.bind_eq_some_iff] at hs
  obtain ⟨l, -, a, -, other, -, array, -, operand, -, hs⟩ := hs
  split at hs
  · exact hr.remove hs
  · obtain ⟨left, -, hs⟩ := Option.bind_eq_some_iff.mp hs
    split at hs
    · obtain rfl := Option.some.inj hs
      exact hr
    · split at hs
      · obtain rfl := Option.some.inj hs
        exact hr
      · obtain ⟨⟨h₁, copy⟩, hcopy, hs⟩ := Option.bind_eq_some_iff.mp hs
        simp only [Option.bind_eq_some_iff] at hs
        obtain ⟨h₂, hrelease, array', -, newArray, hleft, h₃, hinstall, hs⟩ := hs
        obtain rfl := Option.some.inj hs
        exact ((hr.copyList hcopy).release hrelease).install (pushLeft_refCount hleft) hinstall

/-! ## The operators -/

theorem Referred.purge {lists : List Nat} {r : Heap F × List Nat} (hr : h.Referred)
    (hs : h.purge lists = some r) : r.1.Referred := by
  induction lists generalizing h r with
  | nil =>
    obtain rfl := Option.some.inj hs
    exact hr
  | cons list lists ih =>
    unfold Heap.purge at hs
    simp only [Option.bind_eq_bind, Option.bind_eq_some_iff] at hs
    obtain ⟨l, -, hs⟩ := hs
    split at hs
    · obtain ⟨h₁, hdelete, hs⟩ := Option.bind_eq_some_iff.mp hs
      exact ih (hr.deleteList hdelete) hs
    · obtain ⟨⟨h₁, rest⟩, hpurge, hs⟩ := Option.bind_eq_some_iff.mp hs
      obtain rfl := Option.some.inj hs
      exact @ih h (h₁, rest) hr hpurge

theorem Referred.retire {d : Delegate} {o : Option Nat} {r : Heap F × List Nat} (hr : h.Referred)
    (hs : h.retire d o = some r) : r.1.Referred := by
  unfold Heap.retire at hs
  split at hs
  · split at hs
    · obtain rfl := Option.some.inj hs
      exact hr
    · obtain ⟨l, -, hs⟩ := Option.bind_eq_some_iff.mp hs
      split at hs
      · obtain ⟨h₁, hdelete, rfl⟩ := Option.map_eq_some_iff.mp hs
        exact hr.deleteList hdelete
      · obtain rfl := Option.some.inj hs
        exact hr
  · obtain rfl := Option.some.inj hs
    exact hr

theorem Referred.setMethodList {d : Delegate} {o : Option Nat} {r : Heap F × Delegate}
    (hr : h.Referred) (hs : h.setMethodList d o = some r) : r.1.Referred := by
  unfold Heap.setMethodList at hs
  simp only [Option.bind_eq_bind, Option.bind_eq_some_iff] at hs
  obtain ⟨⟨h₁, lists⟩, hretire, ⟨h₂, rest⟩, hpurge, hs⟩ := hs
  obtain rfl := Option.some.inj hs
  exact (hr.retire hretire).purge hpurge

theorem Referred.setValueInternal {d : Delegate} {m : Method F} {r : Heap F × Delegate}
    (hr : h.Referred) (hs : h.setValueInternal d m = some r) : r.1.Referred := by
  unfold Heap.setValueInternal at hs
  obtain ⟨h₁, hadd, hs⟩ := Option.bind_eq_some_iff.mp hs
  exact (hr.newList.add hadd).setMethodList hs

theorem Referred.setValueDelegate {d delegate : Delegate} {r : Heap F × Delegate}
    (hr : h.Referred) (hs : h.setValueDelegate d delegate = some r) : r.1.Referred := by
  unfold Heap.setValueDelegate at hs
  split at hs
  · obtain ⟨h₁, hadd, hs⟩ := Option.bind_eq_some_iff.mp hs
    exact (hr.newList.addList hadd).setMethodList hs
  · exact hr.setMethodList hs

theorem Referred.copyCurrent {d : Delegate} {r : Heap F × Nat} (hr : h.Referred)
    (hs : h.copyCurrent d = some r) : r.1.Referred := by
  unfold Heap.copyCurrent at hs
  split at hs
  · exact hr.copyList hs
  · obtain rfl := Option.some.inj hs
    exact hr.newList

theorem Referred.addInternal {d : Delegate} {m : Method F} {r : Heap F × Delegate}
    (hr : h.Referred) (hs : h.addInternal d m = some r) : r.1.Referred := by
  unfold Heap.addInternal at hs
  simp only [Option.bind_eq_bind, Option.bind_eq_some_iff] at hs
  obtain ⟨⟨h₁, list⟩, hcopy, h₂, hadd, hs⟩ := hs
  exact ((hr.copyCurrent hcopy).add hadd).setMethodList hs

theorem Referred.addDelegate {d delegate : Delegate} {r : Heap F × Delegate} (hr : h.Referred)
    (hs : h.addDelegate d delegate = some r) : r.1.Referred := by
  unfold Heap.addDelegate at hs
  split at hs
  · simp only [Option.bind_eq_bind, Option.bind_eq_some_iff] at hs
    obtain ⟨⟨h₁, list⟩, hcopy, h₂, hadd, hs⟩ := hs
    exact ((hr.copyCurrent hcopy).addList hadd).setMethodList hs
  · obtain rfl := Option.some.inj hs
    exact hr

theorem Referred.removeInternal {d : Delegate} {key : Nat × Nat} {r : Heap F × Delegate}
    (hr : h.Referred) (hs : h.removeInternal d key = some r) : r.1.Referred := by
  unfold Heap.removeInternal at hs
  split at hs
  · obtain ⟨⟨h₁, list⟩, hremove, hs⟩ := Option.bind_eq_some_iff.mp hs
    exact (hr.remove hremove).setMethodList hs
  · obtain rfl := Option.some.inj hs
    exact hr

theorem Referred.removeDelegate {d delegate : Delegate} {r : Heap F × Delegate}
    (hr : h.Referred) (hs : h.removeDelegate d delegate = some r) : r.1.Referred := by
  unfold Heap.removeDelegate at hs
  split at hs
  · obtain ⟨⟨h₁, list⟩, hremove, hs⟩ := Option.bind_eq_some_iff.mp hs
    exact (hr.removeList hremove).setMethodList hs
  · obtain rfl := Option.some.inj hs
    exact hr

theorem Referred.deleteAll {lists : List Nat} (hr : h.Referred)
    (hs : lists.foldlM Heap.deleteList h = some h') : h'.Referred := by
  induction lists generalizing h with
  | nil =>
    obtain rfl := Option.some.inj hs
    exact hr
  | cons list lists ih =>
    rw [List.foldlM_cons] at hs
    obtain ⟨h₁, hdelete, hs⟩ := Option.bind_eq_some_iff.mp hs
    exact ih (hr.deleteList hdelete) hs

end Heap

/-! ## A step of the client -/

namespace World

variable {w w' : World F} {a : DelegateAct F}

theorem make_referred {f : Heap F → Option (Heap F × Delegate)}
    (hs : w.make f = some w') (hf : ∀ r, f w.heap = some r → r.1.Referred) :
    w'.heap.Referred := by
  unfold World.make at hs
  obtain ⟨r, hr, hs⟩ := Option.bind_eq_some_iff.mp hs
  obtain rfl := Option.some.inj hs
  exact hf r hr

theorem edit_referred {d : Nat} {f : Heap F → Delegate → Option (Heap F × Delegate)}
    (hs : w.edit d f = some w') (hf : ∀ dl r, f w.heap dl = some r → r.1.Referred) :
    w'.heap.Referred := by
  unfold World.edit at hs
  simp only [Option.bind_eq_bind, Option.bind_eq_some_iff] at hs
  obtain ⟨dl, -, r, hr, hs⟩ := hs
  obtain rfl := Option.some.inj hs
  exact hf dl r hr

theorem step_referred (hr : w.heap.Referred) (hs : w.step a = some w') : w'.heap.Referred := by
  cases a with
  | construct =>
    rw [World.step] at hs
    refine make_referred hs fun r h => ?_
    obtain rfl := Option.some.inj h
    exact hr
  | constructFrom c =>
    rw [World.step] at hs
    exact make_referred hs fun r h => hr.setValueInternal h
  | constructMethod pObject pFn f =>
    rw [World.step] at hs
    refine make_referred hs fun r h => ?_
    obtain ⟨h₁, hadd, h⟩ := Option.bind_eq_some_iff.mp h
    obtain rfl := Option.some.inj h
    exact hr.newList.add hadd
  | copy delegate =>
    rw [World.step] at hs
    obtain ⟨dl, -, hs⟩ := Option.bind_eq_some_iff.mp hs
    refine make_referred hs fun r h => ?_
    split at h
    · obtain ⟨h₁, hadd, h⟩ := Option.bind_eq_some_iff.mp h
      obtain rfl := Option.some.inj h
      exact hr.newList.addList hadd
    · obtain rfl := Option.some.inj h
      exact hr
  | destroy d =>
    rw [World.step] at hs
    obtain ⟨dl, -, hs⟩ := Option.bind_eq_some_iff.mp hs
    split at hs
    · cases hs
    · obtain ⟨h₁, hdelete, hs⟩ := Option.bind_eq_some_iff.mp hs
      obtain rfl := Option.some.inj hs
      exact hr.deleteAll hdelete
  | assign d c =>
    rw [World.step] at hs
    exact edit_referred hs fun dl r h => hr.setValueInternal h
  | assignDelegate d delegate =>
    rw [World.step] at hs
    obtain ⟨operand, -, hs⟩ := Option.bind_eq_some_iff.mp hs
    refine edit_referred hs fun dl r h => ?_
    split at h
    · obtain rfl := Option.some.inj h
      exact hr
    · exact hr.setValueDelegate h
  | add d c =>
    rw [World.step] at hs
    exact edit_referred hs fun dl r h => hr.addInternal h
  | addDelegate d delegate =>
    rw [World.step] at hs
    obtain ⟨operand, -, hs⟩ := Option.bind_eq_some_iff.mp hs
    exact edit_referred hs fun dl r h => hr.addDelegate h
  | remove d c =>
    rw [World.step] at hs
    exact edit_referred hs fun dl r h => hr.removeInternal h
  | removeDelegate d delegate =>
    rw [World.step] at hs
    obtain ⟨operand, -, hs⟩ := Option.bind_eq_some_iff.mp hs
    refine edit_referred hs fun dl r h => ?_
    split at h
    · obtain rfl := Option.some.inj h
      exact hr
    · split at h
      · exact hr.setMethodList h
      · exact hr.removeDelegate h
  | invoke d =>
    rw [World.step] at hs
    unfold Heap.addRef at hs
    simp only [Option.bind_eq_bind, Option.bind_eq_some_iff] at hs
    obtain ⟨dl, -, list, -, h₁, ⟨l, -, h⟩, hs⟩ := hs
    obtain rfl := Option.some.inj h
    obtain rfl := Option.some.inj hs
    exact hr
  | finish =>
    rw [World.step] at hs
    unfold Heap.removeRef at hs
    split at hs
    · cases hs
    · simp only [Option.bind_eq_bind, Option.bind_eq_some_iff] at hs
      obtain ⟨h₁, ⟨l, -, h⟩, hs⟩ := hs
      obtain rfl := Option.some.inj h
      obtain rfl := Option.some.inj hs
      exact hr

theorem exec_referred {acts : List (DelegateAct F)} (hs : exec World.step {} acts = some w) :
    w.heap.Referred := by
  refine (reach_of_exec hs).invariant (fun i a ha => ?_) fun w a w' hr h => step_referred hr h
  rw [Slots.get_empty] at ha
  cases ha

/-! ## The end -/

/-- The destructor of a delegate that does not run. -/
theorem Inv.destroyed {d : Nat} {dl : Delegate} (hw : w.Inv) (hd : w.delegates.get d = some dl)
    (hidle : w.running = []) : ∃ w', w.step (.destroy d) = some w' ∧ w'.Inv ∧
      w'.delegates = w.delegates.free d ∧ w'.running = [] := by
  have hplain : w.plain.step (.destroy d) ≠ none := by
    have hget : w.plain.delegates.get d = some (w.heap.contents dl) := by
      rw [plain_get, hd]
      rfl
    have hnone : w.plain.running = [] := by
      unfold World.plain
      rw [hidle]
      rfl
    rw [Plain.step, hget, hnone]
    simp
  rcases hw.step (.destroy d) with ⟨-, hp⟩ | ⟨w', hs, -, hinv, -⟩
  · exact absurd hp hplain
  · refine ⟨w', hs, hinv, ?_⟩
    rw [World.step, hd, Option.bind_eq_bind, Option.bind_some] at hs
    split at hs
    · cases hs
    · obtain ⟨h₁, -, hs⟩ := Option.bind_eq_some_iff.mp hs
      obtain rfl := Option.some.inj hs
      exact ⟨rfl, hidle⟩

/-- The destructors of these delegates, one after the other. -/
theorem Inv.destroy_list {ds : List Nat} (hw : w.Inv) (hidle : w.running = []) (hnodup : ds.Nodup)
    (hds : ∀ d ∈ ds, ∃ dl, w.delegates.get d = some dl) :
    ∃ w', exec World.step w (ds.map .destroy) = some w' ∧ w'.Inv ∧
      ∀ d, w'.delegates.get d = if d ∈ ds then none else w.delegates.get d := by
  induction ds generalizing w with
  | nil => exact ⟨w, rfl, hw, fun d => (if_neg List.not_mem_nil).symm⟩
  | cons d ds ih =>
    obtain ⟨hnot, hnodup⟩ := List.nodup_cons.mp hnodup
    obtain ⟨dl, hd⟩ := hds d List.mem_cons_self
    obtain ⟨w₁, hs, hw₁, hfree, hidle₁⟩ := hw.destroyed hd hidle
    have hget := fun j => Slots.get_free w.delegates d j
    obtain ⟨w', hexec, hw', hleft⟩ := ih hw₁ hidle₁ hnodup fun e he => by
      obtain ⟨dl', hd'⟩ := hds e (List.mem_cons_of_mem _ he)
      have hne : e ≠ d := by
        rintro rfl
        exact hnot he
      refine ⟨dl', ?_⟩
      rw [hfree, hget, if_neg hne]
      exact hd'
    refine ⟨w', ?_, hw', fun e => ?_⟩
    · rw [List.map_cons, exec, hs]
      exact hexec
    · rw [hleft, hfree, hget]
      by_cases hin : e ∈ ds
      · rw [if_pos hin, if_pos (List.mem_cons_of_mem _ hin)]
      · rw [if_neg hin]
        by_cases he : e = d
        · rw [if_pos he, he, if_pos List.mem_cons_self]
        · have hcons : ¬ e ∈ d :: ds := fun h => (List.mem_cons.mp h).elim he hin
          rw [if_neg he, if_neg hcons]

/-- Without delegates there are no lists, and without lists no arrays. -/
theorem Inv.empty (hw : w.Inv) (hr : w.heap.Referred) (hnone : ∀ d, w.delegates.get d = none) :
    (∀ k, w.heap.lists.get k = none) ∧ ∀ i, w.heap.arrays.get i = none := by
  have hlists : ∀ k, w.heap.lists.get k = none := by
    intro k
    have howner := hw.owner k
    rw [Slots.total_eq_zero fun d dl hd => by cases (hnone d).symm.trans hd] at howner
    refine Option.eq_none_iff_forall_ne_some.mpr fun l hl => ?_
    rw [Heap.alive_of_get hl] at howner
    cases howner
  refine ⟨hlists, fun i => Option.eq_none_iff_forall_ne_some.mpr fun a ha => ?_⟩
  have hpos := hr i a ha
  rw [hw.heap.counted i a ha,
    Slots.total_eq_zero fun k l hl => by cases (hlists k).symm.trans hl] at hpos
  exact Nat.lt_irrefl 0 hpos

/-- The delegates that have not been destroyed. -/
def living (w : World F) : List Nat :=
  (List.range w.delegates.fresh).filter fun d => (w.delegates.get d).isSome

theorem mem_living {d : Nat} : d ∈ w.living ↔ ∃ dl, w.delegates.get d = some dl := by
  unfold living
  rw [List.mem_filter, List.mem_range, Option.isSome_iff_exists]
  exact ⟨fun h => h.2, fun ⟨dl, hd⟩ => ⟨Slots.lt_fresh hd, dl, hd⟩⟩

theorem Inv.destroy_all (hw : w.Inv) (hr : w.heap.Referred) (hidle : w.running = []) :
    ∃ w', exec World.step w (w.living.map .destroy) = some w' ∧
      (∀ k, w'.heap.lists.get k = none) ∧ ∀ i, w'.heap.arrays.get i = none := by
  have hnodup : w.living.Nodup := List.nodup_range.filter _
  obtain ⟨w', hexec, hw', hleft⟩ := hw.destroy_list hidle hnodup fun d hd => mem_living.mp hd
  have hr' : w'.heap.Referred :=
    (reach_of_exec hexec).invariant hr fun w a w' hr h => step_referred hr h
  refine ⟨w', hexec, hw'.empty hr' fun d => ?_⟩
  rw [hleft]
  split
  · rfl
  · next hdead =>
    exact Option.eq_none_iff_forall_ne_some.mpr fun dl hd => hdead (mem_living.mpr ⟨dl, hd⟩)

end World

/-- In every run of a client a version is there as long as one delegate owns it, an array
exactly as long as a version refers to it, counted by `_refCount`; when no invocation runs, the
destructors of the delegates that are left empty the heap. -/
theorem delegates_leave_nothing (acts : List (DelegateAct F)) {w : World F}
    (h : exec World.step {} acts = some w) :
    (∀ k, w.delegates.total (fun d => d.owned.count k) = w.heap.alive k) ∧
      (∀ i a, w.heap.arrays.get i = some a →
        0 < a.refCount ∧ a.refCount = w.heap.lists.total (Heap.uses i)) ∧
      (∀ k l, w.heap.lists.get k = some l → ∃ a, w.heap.arrays.get l.array = some a) ∧
      (w.running = [] → ∃ w', exec World.step w (w.living.map .destroy) = some w' ∧
        (∀ k, w'.heap.lists.get k = none) ∧ ∀ i, w'.heap.arrays.get i = none) := by
  obtain ⟨hw, -⟩ := World.inv_start.exec_keeps h
  have hr := World.exec_referred h
  have hthere : ∀ k l, w.heap.lists.get k = some l → ∃ a, w.heap.arrays.get l.array = some a := by
    intro k l hl
    obtain ⟨a, ha, -⟩ := hw.heap.within k l hl
    exact ⟨a, ha⟩
  exact ⟨hw.owner, fun i a ha => ⟨hr i a ha, hw.heap.counted i a ha⟩, hthere, hw.destroy_all hr⟩

/-- A handler adds another one and copies the delegate, which leaves the running version
behind; what is left of three arrays and five versions goes with the two delegates. -/
theorem delegates_leave_nothing_two :
    ∃ w w' : World Unit, w.living = [0, 1] ∧ w.heap.arrays.fresh = 3 ∧ w.heap.lists.fresh = 5 ∧
      exec World.step w [.destroy 0, .destroy 1] = some w' ∧
      (∀ k, w'.heap.lists.get k = none) ∧ ∀ i, w'.heap.arrays.get i = none := by
  have hrun : (exec World.step ({} : World Unit) [.constructFrom (.pointer 1 ()), .invoke 0,
      .add 0 (.pointer 2 ()), .copy 0, .finish, .remove 0 (.pointer 1 ()),
      .add 1 (.pointer 3 ())]).map
        (fun w => (w.living, w.heap.arrays.fresh, w.heap.lists.fresh, w.running)) =
      some ([0, 1], 3, 5, []) := by
    decide +kernel
  obtain ⟨w, hexec, hw⟩ := Option.map_eq_some_iff.mp hrun
  obtain ⟨hliving, harrays, hlists, hidle⟩ : w.living = [0, 1] ∧ w.heap.arrays.fresh = 3 ∧
      w.heap.lists.fresh = 5 ∧ w.running = [] := by
    simpa only [Prod.mk.injEq] using hw
  obtain ⟨-, -, -, hend⟩ := delegates_leave_nothing _ hexec
  obtain ⟨w', hdestroy, hempty⟩ := hend hidle
  rw [hliving] at hdestroy
  exact ⟨w, w', hliving, harrays, hlists, hdestroy, hempty⟩

end VideoPlayerCore
