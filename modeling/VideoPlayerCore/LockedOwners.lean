import VideoPlayerCore.LockedInvariant

/-!
# Lists that nobody has

An exception can leave a list behind that no delegate has.  The delegates still own lists of
their own (LockedWorld.Owns), whatever else is on the heap, and no action mixes them up.

    s.Owns → s.step w mutex a = some s' → s'.Owns                     (Owns.step)
    a list that is made and lost is not to be seen                    (Owns.plain_lose)
-/

namespace VideoPlayerCore

variable {F : Type}

namespace LockedWorld

variable {w : Wrapper F} {mutex : Policy} {s s' : LockedWorld F} {a : LockedAct F} {d : Nat}
  {dl : Delegate} {h' : Heap F}

/-- New lists go to delegates, or to nobody. -/
theorem Owns.grow (hs : s.Owns) {current o : Option Nat} {entries : List (Method F)}
    {delegates : Slots Delegate} (hp : Heap.Prepares s.heap h' current o entries)
    (htotal : ∀ x, delegates.total (fun d => d.owned.count x) =
      s.delegates.total (fun d => d.owned.count x) + (Heap.added current o).count x) :
    Owns { s with heap := h', delegates := delegates } where
  heap := hp.inv
  owner x := by
    have howner := hs.owner x
    show delegates.total (fun d => d.owned.count x) ≤ h'.alive x
    rw [htotal, hp.alive]
    omega
  entries x l hl hpos := by
    rcases hp.lists x l hl with hold | ⟨-, -, hsize⟩
    · refine hs.entries x l hold ?_
      have halive := hp.alive x
      have hle := h'.alive_le x
      have hpos' : 0 < delegates.total (fun d => d.owned.count x) := hpos
      rw [Heap.alive_of_get hold] at halive
      rw [htotal] at hpos'
      omega
    · exact hsize

theorem Owns.drop (hs : s.Owns) {gone : List Nat} {delegates : Slots Delegate}
    (hdrop : Heap.Drops s.heap h' gone)
    (htotal : ∀ x, delegates.total (fun d => d.owned.count x) + gone.count x =
      s.delegates.total (fun d => d.owned.count x)) :
    Owns { s with heap := h', delegates := delegates } where
  heap := hdrop.inv
  owner x := by
    have howner := hs.owner x
    have halive := hdrop.alive x
    have hsum := htotal x
    show delegates.total (fun d => d.owned.count x) ≤ h'.alive x
    omega
  entries x l hl hpos := by
    have hsum := htotal x
    have hpos' : 0 < delegates.total (fun d => d.owned.count x) := hpos
    exact hs.entries x l (hdrop.get hl) (by omega)

theorem Owns.step (hs : s.Owns) (h : s.step w mutex a = some s') : s'.Owns := by
  rcases step_grown hs h with hgrown | hmoved
  · cases hgrown with
    | put d dl r entries hd hr h =>
      rcases hr with ⟨rfl, -⟩ | ⟨h₁, o, rfl, hp⟩
      · obtain rfl := Option.some.inj ((put_same hd).symm.trans h)
        exact hs
      · obtain ⟨d', hset, -, hcount⟩ := h₁.setMethodListS_spec dl o
        rw [put, hset] at h
        obtain rfl := Option.some.inj h
        refine hs.grow hp fun x => ?_
        have hsum := Slots.total_set (f := fun d => d.owned.count x) hd d'
        have hx := hcount x
        dsimp only at hsum ⊢
        omega
    | made r entries hr h =>
      rcases hr with ⟨rfl, -⟩ | ⟨h₁, o, rfl, hp⟩
      · obtain rfl := Option.some.inj h
        refine ⟨hs.heap, fun x => ?_, fun x l hl hpos => hs.entries x l hl ?_⟩
        · exact Nat.le_trans (Nat.le_of_eq Slots.total_alloc) (hs.owner x)
        · exact Nat.lt_of_lt_of_eq hpos Slots.total_alloc
      · obtain ⟨d', hset, -, hcount⟩ := h₁.setMethodListS_spec {} o
        rw [make, hset] at h
        obtain rfl := Option.some.inj h
        refine hs.grow hp fun x => ?_
        have hx := hcount x
        rw [Slots.total_alloc, hx]
        exact congrArg _ (Nat.zero_add _)
  · cases hmoved with
    | grew h => exact Inv.owns h.inv
    | destroyed d dl h' ha hd hrun hdrop h =>
      rw [h]
      exact hs.drop hdrop fun x => Slots.total_free hd
    | trimmed d dl h' ha hd hdrop h =>
      rw [h]
      exact hs.drop hdrop fun x => total_trimmed hd x
    | loaded d dl methodList ha hd hc h =>
      rw [h]
      exact ⟨hs.heap, hs.owner, hs.entries⟩
    | called j inv inv' ha hj hcall h =>
      rw [h]
      exact ⟨hs.heap, hs.owner, hs.entries⟩
    | finished j inv inv' ha hj hfinish h =>
      rw [h]
      exact ⟨hs.heap, hs.owner, hs.entries⟩

/-! ## A list that is lost -/

/-- A list that a delegate has is not the one that was made last. -/
theorem Owns.ne_fresh (hs : s.Owns) (hd : s.delegates.get d = some dl) {x : Nat}
    (hx : x ∈ dl.owned) : x ≠ s.heap.lists.fresh := by
  obtain ⟨l, hl, -⟩ := hs.get_owned hd hx
  exact Nat.ne_of_lt (Slots.lt_fresh hl)

theorem Owns.lose (hs : s.Owns) (hedit : Heap.Edits s.heap h' s.heap.lists.fresh) :
    Owns { s with heap := h' } := by
  have hfresh : s.delegates.total (fun d => d.owned.count s.heap.lists.fresh) = 0 :=
    Slots.total_eq_zero fun d dl hd => List.count_eq_zero.mpr fun hx => hs.ne_fresh hd hx rfl
  refine ⟨hedit.inv, fun x => ?_, fun x l hl hpos => ?_⟩
  · show s.delegates.total (fun d => d.owned.count x) ≤ h'.alive x
    by_cases hx : x = s.heap.lists.fresh
    · rw [hx, hfresh]
      exact Nat.zero_le _
    · have howner := hs.owner x
      unfold Heap.alive at howner ⊢
      rwa [hedit.lists x hx]
  · have hpos' : 0 < s.delegates.total (fun d => d.owned.count x) := hpos
    have hx : x ≠ s.heap.lists.fresh := by
      intro hx
      rw [hx, hfresh] at hpos'
      exact Nat.lt_irrefl 0 hpos'
    have hl' : h'.lists.get x = some l := hl
    rw [hedit.lists x hx] at hl'
    exact hs.entries x l hl' hpos'

theorem Owns.plain_lose (hs : s.Owns) (hedit : Heap.Edits s.heap h' s.heap.lists.fresh) :
    LockedWorld.plain { s with heap := h' } = s.plain := by
  refine Slots.ext_get (by simp [plain]) fun j => ?_
  show (s.delegates.map h'.contents).get j = (s.delegates.map s.heap.contents).get j
  rw [Slots.get_map, Slots.get_map]
  cases hd : s.delegates.get j with
  | none => rfl
  | some dl =>
    rw [Option.map_some, Option.map_some]
    unfold Heap.contents
    cases hc : dl.current with
    | none => rfl
    | some current =>
      dsimp only
      rw [hedit.visible current (hs.ne_fresh hd (World.current_mem_owned hc))]

end LockedWorld

end VideoPlayerCore
