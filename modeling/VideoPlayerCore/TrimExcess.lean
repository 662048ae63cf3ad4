import VideoPlayerCore.LockedInvariant

/-!
# Invocations beside operators and TrimExcess

An invocation of a `_Delegate_S` takes neither the mutex nor a reference.  Operators leave
the lists that were replaced to `_deleteList`, so it can go on through its own; arrays only
get longer.  `TrimExcess` deletes `_deleteList`, whoever goes through it.

    no running invocation has a list of `_deleteList` at any `TrimExcess` →
      every invocation calls the entries it loaded, and its list stays   (invocations_keep_version)
-/

namespace VideoPlayerCore

open Machine

variable {F : Type}

/-- What an invocation is promised. -/
structure Invocation.Safe (h : Heap F) (inv : Invocation F) : Prop where
  called : inv.called = inv.entries.take inv.i
  all : inv.running = false → inv.called = inv.entries
  alive : inv.running = true → ∃ l, h.lists.get inv.methodList = some l
  /-- the next handler can be called -/
  next : inv.running = true → inv.called.length < inv.entries.length →
    ∃ inv', LockedWorld.callNext h inv = some inv'
  /-- the last one can return -/
  last : inv.running = true → inv.called.length = inv.entries.length →
    ∃ inv', LockedWorld.finish inv = some inv'

/-- The delegate that a `TrimExcess` is about. -/
def LockedAct.trims : LockedAct F → Option Nat
  | .trimExcess d => some d
  | _ => none

/-- At a `TrimExcess` no running invocation has a list that it deletes. -/
def TrimApart (s : LockedWorld F) (a : LockedAct F) : Prop :=
  ∀ d ∈ a.trims, ∀ dl ∈ s.delegates.get d, ∀ inv ∈ s.invocations,
    inv.running = true → inv.methodList ∉ dl.deleteList

instance (s : LockedWorld F) (a : LockedAct F) : Decidable (TrimApart s a) :=
  inferInstanceAs (Decidable (∀ d ∈ a.trims, ∀ dl ∈ s.delegates.get d, ∀ inv ∈ s.invocations,
    inv.running = true → inv.methodList ∉ dl.deleteList))

namespace LockedWorld

variable {w : Wrapper F} {mutex : Policy} {s s' : LockedWorld F} {a : LockedAct F}
  {inv inv' : Invocation F}

/-- An invocation and its version. -/
structure Follows (s : LockedWorld F) (inv : Invocation F) : Prop where
  called : inv.called = inv.entries.take inv.i
  fresh : inv.n = none → inv.i = 0
  bound : ∀ n, inv.n = some n → inv.entries.length = n + 1 ∧ inv.i ≤ n + 1
  done : inv.running = false → ∃ n, inv.n = some n ∧ inv.i = n + 1
  held : inv.running = true → ∃ dl, s.delegates.get inv.delegate = some dl ∧
    inv.methodList ∈ dl.owned
  visible : inv.running = true → s.heap.visible inv.methodList = inv.entries

theorem Follows.get (hs : s.Inv) (hf : Follows s inv) (hrun : inv.running = true) :
    ∃ l, s.heap.lists.get inv.methodList = some l ∧ 0 < l.size := by
  obtain ⟨dl, hd, hx⟩ := hf.held hrun
  obtain ⟨l, hl⟩ := World.Inv.get_owned hs hd hx
  exact ⟨l, hl, hs.nonempty _ l hl⟩

theorem Follows.le_length (hf : Follows s inv) : inv.i ≤ inv.entries.length := by
  cases hn : inv.n with
  | none => exact Nat.le_trans (Nat.le_of_eq (hf.fresh hn)) (Nat.zero_le _)
  | some n =>
    have hb := hf.bound n hn
    omega

theorem Follows.length_called (hf : Follows s inv) : inv.called.length = inv.i := by
  rw [hf.called, List.length_take_of_le hf.le_length]

/-- There are entries as long as the list is there. -/
theorem Follows.length_entries (hs : s.Inv) (hf : Follows s inv) (hrun : inv.running = true) :
    0 < inv.entries.length := by
  obtain ⟨l, hl, hpos⟩ := hf.get hs hrun
  have hlen : (s.heap.visible inv.methodList).length = l.size := hs.heap.length_visible hl
  rw [← hf.visible hrun, hlen]
  exact hpos

/-- A running invocation calls the next entry of its version. -/
theorem Follows.call (hs : s.Inv) (hf : Follows s inv) (hrun : inv.running = true)
    (hlt : inv.i < inv.entries.length) :
    ∃ m, inv.entries[inv.i]? = some m ∧
      callNext s.heap inv = some { inv with
        n := some (inv.entries.length - 1), i := inv.i + 1, called := inv.called ++ [m] } := by
  obtain ⟨l, hl, hpos⟩ := hf.get hs hrun
  obtain ⟨array, ha, hsize⟩ : ∃ a, s.heap.arrays.get l.array = some a ∧ l.size ≤ a.size :=
    hs.heap.within _ l hl
  have hlen : inv.entries.length = l.size := by
    rw [← hf.visible hrun]
    exact hs.heap.length_visible hl
  have hbound : (inv.n.orElse fun _ => do
      let l ← s.heap.lists.get inv.methodList
      if l.size = 0 then none else some (l.size - 1)) = some (inv.entries.length - 1) := by
    cases hn : inv.n with
    | none =>
      rw [hl, hlen]
      exact if_neg (by omega)
    | some n =>
      rw [(hf.bound n hn).1]
      rfl
  have hm : s.heap.methodAt inv.methodList inv.i = inv.entries[inv.i]? := by
    have hshow := hf.visible hrun
    rw [Heap.visible_eq hl ha] at hshow
    rw [← hshow, List.getElem?_take_of_lt (by omega)]
    simp [Heap.methodAt, hl, ha]
  refine ⟨_, List.getElem?_eq_getElem hlt, ?_⟩
  unfold callNext
  rw [hbound]
  simp only [Option.bind_eq_bind, Option.bind_some]
  rw [if_pos (by omega), hm, List.getElem?_eq_getElem hlt]
  rfl

theorem Follows.safe (hs : s.Inv) (hf : Follows s inv) : inv.Safe s.heap where
  called := hf.called
  all hdone := by
    obtain ⟨n, hn, hi⟩ := hf.done hdone
    have hb := hf.bound n hn
    rw [hf.called]
    exact List.take_of_length_le (by omega)
  alive hrun := by
    obtain ⟨l, hl, -⟩ := hf.get hs hrun
    exact ⟨l, hl⟩
  next hrun hlt := by
    rw [hf.length_called] at hlt
    obtain ⟨m, -, hcall⟩ := hf.call hs hrun hlt
    exact ⟨_, hcall⟩
  last hrun hall := by
    rw [hf.length_called] at hall
    have hpos := hf.length_entries hs hrun
    obtain ⟨n, hn⟩ : ∃ n, inv.n = some n := Option.ne_none_iff_exists'.mp fun hnone => by
      have hzero := hf.fresh hnone
      omega
    have hb := hf.bound n hn
    have hreturned : inv.returned = false := by simpa [Invocation.running] using hrun
    refine ⟨{ inv with returned := true }, ?_⟩
    rw [finish, hn]
    exact if_pos ⟨by omega, hreturned⟩

/-- Only the list of the invocation matters. -/
theorem Follows.of_held (hf : Follows s inv)
    (hheld : inv.running = true → (∃ dl, s'.delegates.get inv.delegate = some dl ∧
      inv.methodList ∈ dl.owned) ∧
      s'.heap.visible inv.methodList = s.heap.visible inv.methodList) : Follows s' inv :=
  ⟨hf.called, hf.fresh, hf.bound, hf.done, fun hrun => (hheld hrun).1, fun hrun =>
    (hheld hrun).2.trans (hf.visible hrun)⟩

theorem Extends.follows (hs : s.Inv) (he : Extends s s') (hf : Follows s inv) :
    Follows s' inv := by
  refine hf.of_held fun hrun => ?_
  obtain ⟨dl, hd, hx⟩ := hf.held hrun
  obtain ⟨l, hl⟩ := World.Inv.get_owned hs hd hx
  exact ⟨he.owned _ dl _ hd hx, he.grows.visible _ l hl⟩

/-- The list of a running invocation is in no other delegate. -/
theorem Follows.not_owned (hs : s.Inv) (hf : Follows s inv) (hrun : inv.running = true) {d : Nat}
    {dl : Delegate} (hd : s.delegates.get d = some dl) (hne : inv.delegate ≠ d) :
    inv.methodList ∉ dl.owned := by
  intro hx
  obtain ⟨di, hdi, hxi⟩ := hf.held hrun
  have hfree : (s.delegates.free d).get inv.delegate = some di := by
    rw [Slots.get_free, if_neg hne, hdi]
  have hsum := Slots.total_free (f := fun d => d.owned.count inv.methodList) hd
  have hle := Slots.le_total (f := fun d => d.owned.count inv.methodList) hfree
  have hpos := List.count_pos_iff.mpr hx
  have hpos' := List.count_pos_iff.mpr hxi
  have howner : s.delegates.total (fun d => d.owned.count inv.methodList) =
      s.heap.alive inv.methodList := hs.owner _
  have halive := s.heap.alive_le inv.methodList
  omega

/-- What deletes leaves a running invocation alone. -/
theorem Moved.follows (hs : s.Inv) (hm : Moved s a s') (hok : TrimApart s a)
    (hinv : inv ∈ s.invocations) (hf : Follows s inv) : Follows s' inv := by
  cases hm with
  | grew he => exact he.follows hs hf
  | destroyed d dl h' ha hd hidle hdrop h =>
    subst h
    refine hf.of_held fun hrun => ?_
    have hne := hidle inv hinv hrun
    obtain ⟨di, hdi, hx⟩ := hf.held hrun
    refine ⟨⟨di, ?_, hx⟩, hdrop.visible _ (hf.not_owned hs hrun hd hne)⟩
    show (s.delegates.free d).get inv.delegate = _
    rw [Slots.get_free, if_neg hne, hdi]
  | trimmed d dl h' ha hd hdrop h =>
    subst h ha
    refine hf.of_held fun hrun => ?_
    have hapart := hok d rfl dl hd inv hinv hrun
    refine ⟨?_, hdrop.visible _ hapart⟩
    obtain ⟨di, hdi, hx⟩ := hf.held hrun
    have hget := Slots.get_set hd { dl with deleteList := [] } inv.delegate
    by_cases hsame : inv.delegate = d
    · refine ⟨_, hget.trans (if_pos hsame), ?_⟩
      rw [hsame, hd] at hdi
      obtain rfl := Option.some.inj hdi
      rw [Delegate.owned, List.mem_append] at hx ⊢
      exact .inl (hx.resolve_right hapart)
    · exact ⟨di, hget.trans ((if_neg hsame).trans hdi), hx⟩
  | loaded d dl methodList ha hd hc h =>
    subst h
    exact hf.of_held fun hrun => ⟨hf.held hrun, rfl⟩
  | called j inv₀ inv' ha hj hcall h =>
    subst h
    exact hf.of_held fun hrun => ⟨hf.held hrun, rfl⟩
  | finished j inv₀ inv' ha hj hfinish h =>
    subst h
    exact hf.of_held fun hrun => ⟨hf.held hrun, rfl⟩

/-- Only a running invocation with entries left calls one. -/
theorem Follows.of_callNext (hs : s.Inv) (hf : Follows s inv)
    (hcall : callNext s.heap inv = some inv') :
    inv.running = true ∧ inv.i < inv.entries.length := by
  have hle : ∀ n, inv.n = some n → inv.i ≤ n := by
    intro n hn
    rw [callNext, hn] at hcall
    obtain ⟨n', heq, hcall⟩ := Option.bind_eq_some_iff.mp hcall
    obtain rfl : n = n' := Option.some.inj heq
    split at hcall
    · next hle => exact hle
    · cases hcall
  have hrun : inv.running = true := by
    by_contra hdone
    obtain ⟨n, hn, hi⟩ := hf.done (Bool.eq_false_iff.mpr hdone)
    have hle := hle n hn
    omega
  refine ⟨hrun, ?_⟩
  cases hn : inv.n with
  | none => exact Nat.lt_of_le_of_lt (Nat.le_of_eq (hf.fresh hn)) (hf.length_entries hs hrun)
  | some n =>
    have hb := hf.bound n hn
    have hle := hle n hn
    omega

theorem Follows.called_next (hs : s.Inv) (hf : Follows s inv)
    (hcall : callNext s.heap inv = some inv') : Follows s inv' := by
  obtain ⟨hrun, hlt⟩ := hf.of_callNext hs hcall
  obtain ⟨m, hm, hnext⟩ := hf.call hs hrun hlt
  rw [hcall] at hnext
  obtain rfl := Option.some.inj hnext
  refine ⟨?_, fun hn => (by cases hn), fun n hn => ?_, fun hdone => ?_, fun _ => hf.held hrun,
    fun _ => hf.visible hrun⟩
  · rw [List.take_add_one, hm, hf.called]
    rfl
  · obtain rfl := Option.some.inj hn
    dsimp only
    omega
  · exact absurd hrun (Bool.eq_false_iff.mp hdone)

/-- An invocation whose last handler returns has called them all. -/
theorem Follows.finished (hf : Follows s inv) (hfinish : finish inv = some inv') :
    Follows s inv' := by
  obtain ⟨n, hn, h⟩ := Option.bind_eq_some_iff.mp hfinish
  split at h
  · next hall =>
    obtain rfl := Option.some.inj h
    have hb := hf.bound n hn
    refine ⟨hf.called, hf.fresh, hf.bound, fun _ => ⟨n, hn, by dsimp only; omega⟩, fun hrun => ?_,
      fun hrun => ?_⟩ <;> cases hrun
  · cases h

/-- Every invocation follows its version, also one that begins or goes on. -/
theorem Moved.all_follow (hs : s.Inv) (hm : Moved s a s') (hok : TrimApart s a)
    (hall : ∀ inv ∈ s.invocations, Follows s inv) : ∀ inv ∈ s'.invocations, Follows s' inv := by
  have hold := fun inv hinv => hm.follows hs hok hinv (hall inv hinv)
  intro inv hinv
  cases hm with
  | grew he =>
    rw [he.invocations] at hinv
    exact hold inv hinv
  | destroyed d dl h' ha hd hidle hdrop h =>
    subst h
    exact hold inv hinv
  | trimmed d dl h' ha hd hdrop h =>
    subst h
    exact hold inv hinv
  | loaded d dl methodList ha hd hc h =>
    subst h
    rcases List.mem_append.mp hinv with hinv | hinv
    · exact hold inv hinv
    · obtain rfl := List.mem_singleton.mp hinv
      exact ⟨rfl, fun _ => rfl, fun n hn => (by cases hn), fun hdone => (by cases hdone),
        fun _ => ⟨dl, hd, World.current_mem_owned hc⟩, fun _ => rfl⟩
  | called j inv₀ inv' ha hj hcall h =>
    subst h
    rcases List.mem_or_eq_of_mem_set hinv with hinv | rfl
    · exact hold inv hinv
    · have hinv₀ := List.mem_of_getElem? hj
      have hf := (hall inv₀ hinv₀).called_next hs hcall
      exact hf.of_held fun hrun => ⟨hf.held hrun, rfl⟩
  | finished j inv₀ inv' ha hj hfinish h =>
    subst h
    rcases List.mem_or_eq_of_mem_set hinv with hinv | rfl
    · exact hold inv hinv
    · have hf := (hall inv₀ (List.mem_of_getElem? hj)).finished hfinish
      exact hf.of_held fun hrun => ⟨hf.held hrun, rfl⟩

theorem follows_of_reach (h : ReachIf (step w mutex) TrimApart ({} : LockedWorld F) s) :
    s.Inv ∧ ∀ inv ∈ s.invocations, Follows s inv := by
  refine h.invariant (I := fun s => s.Inv ∧ ∀ inv ∈ s.invocations, Follows s inv)
    ⟨inv_start, fun inv hinv => by cases hinv⟩ fun t a u ⟨ht, hall⟩ hok hstep => ?_
  have hm := step_moved ht hstep
  exact ⟨hm.inv ht, hm.all_follow ht hok hall⟩

/-- A `TrimExcess` that is not apart takes a list away from a running invocation. -/
theorem trim_unsafe (hs : s.Inv) {d : Nat}
    (h : s.step w mutex (.trimExcess d) = some s') (hnot : ¬TrimApart s (.trimExcess d)) :
    ∃ inv ∈ s'.invocations, inv.running = true ∧ ¬inv.Safe s'.heap := by
  unfold TrimApart at hnot
  push Not at hnot
  obtain ⟨e, he, dl, hd, inv, hinv, hrun, hx⟩ := hnot
  obtain rfl : d = e := Option.some.inj he
  rw [step, show s.delegates.get d = some dl from hd, Option.bind_eq_bind, Option.bind_some] at h
  obtain ⟨h₁, hdelete, h⟩ := Option.bind_eq_some_iff.mp h
  obtain rfl := Option.some.inj h
  obtain ⟨h', hdelete', hdrop⟩ := hs.heap.dropAll dl.deleteList fun x => by
    have hle : dl.owned.count x ≤ s.world.heap.alive x := hs.owns.owned_le hd x
    rw [Delegate.owned, List.count_append] at hle
    omega
  obtain rfl : h₁ = h' := Option.some.inj (hdelete.symm.trans hdelete')
  refine ⟨inv, hinv, hrun, fun hsafe => ?_⟩
  obtain ⟨l, hl⟩ := hsafe.alive hrun
  exact hdrop.not_mem hl hx

end LockedWorld

/-- When no `TrimExcess` deletes a list that a running invocation has loaded, every
invocation calls the entries of its version and its list stays until it has ended; any
other `TrimExcess` takes the list away. -/
theorem invocations_keep_version (w : Wrapper F) (mutex : Policy) {s : LockedWorld F}
    (h : ReachIf (LockedWorld.step w mutex) TrimApart {} s) :
    (∀ inv ∈ s.invocations, inv.Safe s.heap) ∧
      ∀ d s', s.step w mutex (.trimExcess d) = some s' →
        ((∀ inv ∈ s'.invocations, inv.Safe s'.heap) ↔ TrimApart s (.trimExcess d)) := by
  have hsafe : ∀ {t}, ReachIf (LockedWorld.step w mutex) TrimApart {} t →
      ∀ inv ∈ t.invocations, inv.Safe t.heap := fun ht inv hi =>
    ((LockedWorld.follows_of_reach ht).2 inv hi).safe (LockedWorld.follows_of_reach ht).1
  refine ⟨hsafe h, fun d s' hstep => ⟨fun hall => ?_, fun hok => hsafe (h.tail hok hstep)⟩⟩
  by_contra hnot
  obtain ⟨inv, hinv, -, hunsafe⟩ :=
    LockedWorld.trim_unsafe (LockedWorld.follows_of_reach h).1 hstep hnot
  exact hunsafe (hall inv hinv)

/-- An invocation goes on after an assignment, and `TrimExcess` comes when it has ended. -/
theorem invocations_keep_version_trimmed :
    ∃ s : LockedWorld Unit, s.invocations.map (fun inv => inv.called.length) = [2] ∧
      ∀ inv ∈ s.invocations, inv.Safe s.heap := by
  obtain ⟨s, hs, hp⟩ := reach_of_any (guarded (LockedWorld.step unitWrapper .nullMutex) TrimApart)
    {} [.constructFrom 0 (.pointer 1 ()), .operate 0 .add 0 (.pointer 2 ()), .load 0, .call 0,
      .operate 0 .assign 0 (.pointer 3 ()), .call 0, .finish 0, .trimExcess 0]
    (fun s => decide (s.invocations.map (fun inv => inv.called.length) = [2])) (by decide)
  exact ⟨s, of_decide_eq_true hp, (invocations_keep_version _ _ (reachIf_of_guarded hs)).1⟩

/-- A handler assigns the delegate and trims it; the second entry is gone. -/
theorem trimExcess_deletes_running :
    ∃ s : LockedWorld Unit, Reach (LockedWorld.step unitWrapper .nullMutex) {} s ∧
      ∃ inv ∈ s.invocations, inv.running = true ∧ s.heap.lists.get inv.methodList = none := by
  obtain ⟨s, hs, hp⟩ := reach_of_any (LockedWorld.step unitWrapper .nullMutex)
    {} [.constructFrom 0 (.pointer 1 ()), .operate 0 .add 0 (.pointer 2 ()), .load 0, .call 0,
      .operate 0 .assign 0 (.pointer 3 ()), .trimExcess 0]
    (fun s => decide (∃ inv ∈ s.invocations, inv.running = true ∧
      s.heap.lists.get inv.methodList = none)) (by decide)
  exact ⟨s, hs, of_decide_eq_true hp⟩

end VideoPlayerCore
