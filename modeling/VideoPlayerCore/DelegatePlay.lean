import VideoPlayerCore.TrimExcess

/-!
# The delegates of `Play`

`onDisplay` and `onCursorTimeChanged` start with a lambda that does nothing, and `Play` calls
them without a look at `_current`.  A client that assigns an own callable and removes it again
leaves `nullptr` there.

    the delegate can be called ↔ in some stretch of its operations, from the last assignment
      or later on, an entry was given more often than taken               (play_invokes_iff)
-/

namespace VideoPlayerCore

open KeyedLists Machine

variable {F : Type}

/-! ## The operations on one delegate -/

/-- What the delegate shows behind the operations. -/
def after (history : List (Operator × Callable F)) : List (Method F) :=
  history.foldl (fun entries x => x.1.result entries [x.2.entry]) []

/-- How often entries under the key were given, by `=` or `+=`. -/
def given (key : Nat × Nat) (history : List (Operator × Callable F)) : Nat :=
  history.countP fun x => x.1 ≠ .remove ∧ x.2.entry.key = key

/-- How often entries under the key were taken, by `-=`. -/
def taken (key : Nat × Nat) (history : List (Operator × Callable F)) : Nat :=
  history.countP fun x => x.1 = .remove ∧ x.2.entry.key = key

/-- The last operations, none of them before the last assignment. -/
def Recent (history recent : List (Operator × Callable F)) : Prop :=
  recent <:+ history ∧ ∀ x ∈ recent.tail, x.1 ≠ .assign

/-- Some entry was given more often than taken. -/
def Stocked (history : List (Operator × Callable F)) : Prop :=
  ∃ key recent, Recent history recent ∧ taken key recent < given key recent

section History

variable {history recent : List (Operator × Callable F)} {x : Operator × Callable F}
  {key : Nat × Nat} {n : Nat}

theorem after_concat (history : List (Operator × Callable F)) (x : Operator × Callable F) :
    after (history ++ [x]) = x.1.result (after history) [x.2.entry] := by
  unfold after
  rw [List.foldl_append]
  rfl

theorem given_concat : given key (recent ++ [x]) =
    given key recent + if x.1 ≠ .remove ∧ x.2.entry.key = key then 1 else 0 := by
  unfold given
  rw [List.countP_append, List.countP_singleton]
  simp only [decide_eq_true_eq]

theorem taken_concat : taken key (recent ++ [x]) =
    taken key recent + if x.1 = .remove ∧ x.2.entry.key = key then 1 else 0 := by
  unfold taken
  rw [List.countP_append, List.countP_singleton]
  simp only [decide_eq_true_eq]

theorem recent_nil : Recent history [] := ⟨List.nil_suffix, fun _ hx => by cases hx⟩

/-- An operation that assigns nothing only prolongs what is recent. -/
theorem recent_concat (hx : x.1 ≠ .assign) :
    Recent (history ++ [x]) (recent ++ [x]) ↔ Recent history recent := by
  unfold Recent
  rw [List.suffix_append_self_iff]
  refine and_congr_right fun _ => ?_
  cases recent with
  | nil => simp
  | cons y recent =>
    rw [List.cons_append, List.tail_cons, List.tail_cons]
    exact ⟨fun h z hz => h z (List.mem_append_left _ hz), fun h z hz => by
      rcases List.mem_append.mp hz with hz | hz
      · exact h z hz
      · exact List.mem_singleton.mp hz ▸ hx⟩

/-- An assignment begins anew. -/
theorem recent_assign (hx : x.1 = .assign) :
    Recent (history ++ [x]) (recent ++ [x]) ↔ recent = [] := by
  constructor
  · rintro ⟨-, htail⟩
    cases recent with
    | nil => rfl
    | cons y recent => exact absurd hx (htail x (by simp))
  · rintro rfl
    exact ⟨List.suffix_append history [x], fun y hy => by cases hy⟩

/-- Every stretch that counts ends with the last operation. -/
theorem exists_recent_concat :
    (∃ recent, Recent (history ++ [x]) recent ∧ taken key recent + n < given key recent) ↔
      ∃ recent, Recent (history ++ [x]) (recent ++ [x]) ∧
        taken key (recent ++ [x]) + n < given key (recent ++ [x]) := by
  constructor
  · rintro ⟨recent, hrecent, hlt⟩
    rcases List.suffix_concat_iff.mp hrecent.1 with rfl | ⟨rest, rfl, -⟩
    · exact absurd hlt (Nat.not_lt_zero _)
    · exact ⟨rest, hrecent, hlt⟩
  · rintro ⟨recent, hrecent, hlt⟩
    exact ⟨recent ++ [x], hrecent, hlt⟩

/-- What one operation does to the entries under a key. -/
theorem tally_result (op : Operator) (entries : List (Method F)) (m : Method F) (key : Nat × Nat) :
    tally ((op.result entries [m]).map Method.key) key =
      match op with
      | .assign => if m.key = key then 1 else 0
      | .add => tally (entries.map Method.key) key + if m.key = key then 1 else 0
      | .remove => tally (entries.map Method.key) key - if m.key = key then 1 else 0 := by
  cases op with
  | assign => exact tally_singleton m.key key
  | add =>
    show tally ((entries ++ [m]).map Method.key) key = _
    rw [List.map_append, tally_append, List.map_singleton, tally_singleton]
  | remove => exact tally_removeLast m.key key entries

/-- How many entries are left under a key: as many as were given more often than taken, in the
stretch where that is most. -/
theorem lt_tally_after (history : List (Operator × Callable F)) (key : Nat × Nat) (n : Nat) :
    n < tally ((after history).map Method.key) key ↔
      ∃ recent, Recent history recent ∧ taken key recent + n < given key recent := by
  induction history using List.reverseRecOn generalizing n with
  | nil =>
    refine iff_of_false (Nat.not_lt_zero n) ?_
    rintro ⟨recent, hrecent, hlt⟩
    obtain rfl := List.suffix_nil.mp hrecent.1
    exact Nat.not_lt_zero _ hlt
  | append_singleton history x ih =>
    rw [after_concat, exists_recent_concat, tally_result]
    simp only [given_concat, taken_concat]
    obtain ⟨op, c⟩ := x
    cases op with
    | assign =>
      simp [recent_assign, taken, given]
    | add =>
      simp only [recent_concat (x := (Operator.add, c)) (by simp), reduceCtorEq, false_and, if_false,
        ne_eq, not_false_eq_true, true_and, Nat.add_zero]
      by_cases hkey : c.entry.key = key
      · simp only [if_pos hkey]
        cases n with
        | zero => exact iff_of_true (Nat.succ_pos _) ⟨[], recent_nil, Nat.one_pos⟩
        | succ n =>
          rw [Nat.add_lt_add_iff_right, ih]
          refine exists_congr fun recent => and_congr_right fun _ => ?_
          omega
      · simp only [if_neg hkey]
        exact ih n
    | remove =>
      simp only [recent_concat (x := (Operator.remove, c)) (by simp), ne_eq, not_true_eq_false,
        false_and, if_false, true_and, Nat.add_zero]
      by_cases hkey : c.entry.key = key
      · simp only [if_pos hkey]
        rw [Nat.lt_sub_iff_add_lt, ih]
        refine exists_congr fun recent => and_congr_right fun _ => ?_
        omega
      · simp only [if_neg hkey]
        exact ih n

theorem stocked_iff : Stocked history ↔ after history ≠ [] := by
  unfold Stocked
  rw [Ne, ← List.map_eq_nil_iff (f := Method.key), ← Ne, ← exists_tally_pos]
  refine exists_congr fun key => ?_
  rw [lt_tally_after]
  rfl

end History

/-! ## `Play` and its client -/

inductive PlayEvent
  | onDisplay
  | onCursorTimeChanged
  deriving DecidableEq

def PlayEvent.delegate : PlayEvent → Nat
  | .onDisplay => 0
  | .onCursorTimeChanged => 1

inductive PlayAct (F : Type)
  /-- the client, also in a handler -/
  | operate (event : PlayEvent) (op : Operator) (c : Callable F)
  /-- `Play` calls the delegate, which loads `_current` -/
  | invoke (event : PlayEvent)
  /-- invocation `j` goes on to its next handler -/
  | call (j : Nat)
  /-- the last handler of invocation `j` returns -/
  | finish (j : Nat)

/-- The delegates, and what was done to each of them from its initializer on. -/
structure PlayState (F : Type) where
  world : LockedWorld F
  history : PlayEvent → List (Operator × Callable F)

/-- `operator()` finds a list, and in it the entry `n = GetSize() - 1`. -/
def Invocable (s : LockedWorld F) (d : Nat) : Prop :=
  ∃ dl list l m, s.delegates.get d = some dl ∧ dl.current = some list ∧
    s.heap.lists.get list = some l ∧ 0 < l.size ∧ s.heap.methodAt list (l.size - 1) = some m

namespace PlayState

variable {w : Wrapper F} {s t : PlayState F}

/-- The default member initializers of `Play`. -/
def construct (w : Wrapper F) (onDisplay onCursorTimeChanged : Callable F) :
    Option (PlayState F) := do
  let world ← exec (LockedWorld.step w .nullMutex) {}
    [.constructFrom 0 onDisplay, .constructFrom 0 onCursorTimeChanged]
  some { world := world
         history := fun
           | .onDisplay => [(.assign, onDisplay)]
           | .onCursorTimeChanged => [(.assign, onCursorTimeChanged)] }

/-- Both delegates hold a lambda. -/
def IsStart (w : Wrapper F) (s : PlayState F) : Prop :=
  ∃ hash f hash' f', construct w (.functor hash f) (.functor hash' f') = some s

def step (w : Wrapper F) (s : PlayState F) : PlayAct F → Option (PlayState F)
  | .operate event op c =>
    (s.world.step w .nullMutex (.operate 0 op event.delegate c)).map fun world =>
      { world := world
        history := Function.update s.history event (s.history event ++ [(op, c)]) }
  | .invoke event =>
    (s.world.step w .nullMutex (.load event.delegate)).map fun world => { s with world := world }
  | .call j => (s.world.step w .nullMutex (.call j)).map fun world => { s with world := world }
  | .finish j => (s.world.step w .nullMutex (.finish j)).map fun world => { s with world := world }

/-- The delegates show what was done to them. -/
structure Inv (w : Wrapper F) (s : PlayState F) : Prop where
  reach : ReachIf (LockedWorld.step w .nullMutex) TrimApart {} s.world
  shows : ∀ event : PlayEvent, s.world.plain.get event.delegate = some (after (s.history event))

/-- A new delegate shows its callable. -/
theorem make_callable {u v : LockedWorld F} (hu : u.Inv) (c : Callable F)
    (h : u.step w .nullMutex (.constructFrom 0 c) = some v) :
    v.plain = u.plain.alloc [c.entry] := by
  rw [LockedWorld.step, construct_callable, LockedWorld.toOption_valid] at h
  obtain ⟨v', hmake, hplain, -⟩ := LockedWorld.make_spec hu
    (.inr (hu.heap.setValueBy Heap.setMethodListS u.heap.sound_new c.entry))
  obtain rfl := Option.some.inj (h.symm.trans hmake)
  exact hplain

theorem inv_start (h : IsStart w s) : Inv w s := by
  obtain ⟨hash, f, hash', f', hs⟩ := h
  unfold PlayState.construct at hs
  obtain ⟨world, hrun, hs⟩ := Option.bind_eq_some_iff.mp hs
  obtain rfl := Option.some.inj hs
  obtain ⟨u, hu, hrest⟩ := Option.bind_eq_some_iff.mp hrun
  obtain ⟨v, hv, hlast⟩ := Option.bind_eq_some_iff.mp hrest
  obtain rfl := Option.some.inj hlast
  have hreach : ReachIf (LockedWorld.step w .nullMutex) TrimApart {} u :=
    .single (fun _ hd => by cases hd) hu
  have hplain := make_callable (LockedWorld.inv_start) _ hu
  have hplain' := make_callable (LockedWorld.follows_of_reach hreach).1 _ hv
  rw [hplain] at hplain'
  refine ⟨hreach.tail (fun _ hd => by cases hd) hv, fun event => ?_⟩
  rw [hplain']
  cases event with
  | onDisplay => rfl
  | onCursorTimeChanged => rfl

theorem Inv.step (hi : Inv w s) {a : PlayAct F} (h : s.step w a = some t) : Inv w t := by
  have hinv := (LockedWorld.follows_of_reach hi.reach).1
  cases a with
  | operate event op c =>
    obtain ⟨world, hstep, rfl⟩ := Option.map_eq_some_iff.mp h
    refine ⟨hi.reach.tail (fun _ hd => by cases hd) hstep, fun event' => ?_⟩
    obtain ⟨dl, hd, hput⟩ := Option.bind_eq_some_iff.mp hstep
    rw [operate_callable, LockedWorld.toOption_valid] at hput
    obtain ⟨world', hput', hplain, -⟩ := LockedWorld.operate_callable_spec hinv hd op c.entry
    obtain rfl := Option.some.inj (hput.symm.trans hput')
    have hshow := hi.shows event
    have hget : s.world.plain.get event.delegate = some (s.world.heap.contents dl) := by
      rw [LockedWorld.plain, Slots.get_map, hd]
      rfl
    have hcontents : s.world.heap.contents dl = after (s.history event) :=
      Option.some.inj (hget.symm.trans hshow)
    show world.plain.get event'.delegate = _
    rw [hplain, Slots.get_set hshow, hcontents]
    dsimp only
    by_cases hsame : event' = event
    · rw [hsame, if_pos rfl, Function.update_self, after_concat]
    · have hne : event'.delegate ≠ event.delegate := by
        cases event <;> cases event' <;> simp_all [PlayEvent.delegate]
      rw [if_neg hne, Function.update_of_ne hsame, hi.shows event']
  | invoke event =>
    obtain ⟨world, hstep, rfl⟩ := Option.map_eq_some_iff.mp h
    refine ⟨hi.reach.tail (fun _ hd => by cases hd) hstep, fun event' => ?_⟩
    obtain ⟨dl, hd, hload⟩ := Option.bind_eq_some_iff.mp hstep
    obtain ⟨list, hc, hload⟩ := Option.bind_eq_some_iff.mp hload
    obtain rfl := Option.some.inj hload
    exact hi.shows event'
  | call j =>
    obtain ⟨world, hstep, rfl⟩ := Option.map_eq_some_iff.mp h
    refine ⟨hi.reach.tail (fun _ hd => by cases hd) hstep, fun event' => ?_⟩
    obtain ⟨inv, hj, hcall⟩ := Option.bind_eq_some_iff.mp hstep
    obtain ⟨inv', hnext, hcall⟩ := Option.bind_eq_some_iff.mp hcall
    obtain rfl := Option.some.inj hcall
    exact hi.shows event'
  | finish j =>
    obtain ⟨world, hstep, rfl⟩ := Option.map_eq_some_iff.mp h
    refine ⟨hi.reach.tail (fun _ hd => by cases hd) hstep, fun event' => ?_⟩
    obtain ⟨inv, hj, hfinish⟩ := Option.bind_eq_some_iff.mp hstep
    obtain ⟨inv', hreturned, hfinish⟩ := Option.bind_eq_some_iff.mp hfinish
    obtain rfl := Option.some.inj hfinish
    exact hi.shows event'

/-- A delegate can be called if it shows an entry. -/
theorem invocable_iff {u : LockedWorld F} (hu : u.Inv) {d : Nat} {entries : List (Method F)}
    (h : u.plain.get d = some entries) : Invocable u d ↔ entries ≠ [] := by
  rw [LockedWorld.plain, Slots.get_map] at h
  obtain ⟨dl, hd, rfl⟩ := Option.map_eq_some_iff.mp h
  constructor
  · rintro ⟨dl', list, l, m, hd', hc, hl, hpos, -⟩
    obtain rfl := Option.some.inj (hd.symm.trans hd')
    rw [Heap.contents_some hc]
    exact hu.heap.visible_ne_nil hl hpos
  · intro hne
    cases hc : dl.current with
    | none => exact absurd (Heap.contents_none hc) hne
    | some list =>
      obtain ⟨l, hl, hpos⟩ := World.Inv.sound hu hd list hc
      obtain ⟨a, ha, hsize⟩ := hu.heap.within list l hl
      have hlt : l.size - 1 < a.data.length := by
        unfold SharedArray.size at hsize
        omega
      refine ⟨dl, list, l, a.data[l.size - 1], hd, hc, hl, hpos, ?_⟩
      have ha' : u.heap.arrays.get l.array = some a := ha
      have hl' : u.heap.lists.get list = some l := hl
      simp [Heap.methodAt, hl', ha', hlt]

end PlayState

/-- **`Play`'s calls of its delegates.**  Whatever a client assigns, adds and removes between
the invocations and inside them: `_current` has the list and the entry that an invocation asks
for exactly if, in some stretch of the operations that begins no earlier than the last
assignment, some entry was given more often than taken.  An invocation that has begun finds
all its entries. -/
theorem play_invokes_iff (w : Wrapper F) {start s : PlayState F} (hstart : start.IsStart w)
    (h : Reach (PlayState.step w) start s) (event : PlayEvent) :
    (Invocable s.world event.delegate ↔ Stocked (s.history event)) ∧
      ∀ inv ∈ s.world.invocations, inv.Safe s.world.heap := by
  have hi : s.Inv w := h.invariant (PlayState.inv_start hstart) fun _ _ _ ht hs => ht.step hs
  obtain ⟨hinv, hfollows⟩ := LockedWorld.follows_of_reach hi.reach
  refine ⟨?_, fun inv hmem => (hfollows inv hmem).safe hinv⟩
  rw [stocked_iff]
  exact PlayState.invocable_iff hinv (hi.shows event)

/-- Two handlers beside the placeholder, one of them removed: the list has two entries left. -/
theorem play_invokes_iff_placeholder :
    ∃ s : PlayState Unit, s.world.invocations.map (fun inv => inv.called.length) = [1] ∧
      (Invocable s.world PlayEvent.onDisplay.delegate ↔ Stocked (s.history .onDisplay)) := by
  have hstart : (PlayState.construct unitWrapper (.functor 7 ()) (.functor 8 ())).any (fun start =>
      (exec (PlayState.step unitWrapper) start [.operate .onDisplay .add (.pointer 1 ()),
        .operate .onDisplay .add (.pointer 2 ()), .operate .onDisplay .remove (.pointer 1 ()),
        .invoke .onDisplay, .call 0]).any fun s => decide (
          s.world.invocations.map (fun inv => inv.called.length) = [1])) = true := by
    decide
  obtain ⟨start, hconstruct, hrun⟩ := (Option.any_eq_true _ _).mp hstart
  obtain ⟨s, hs, hp⟩ := reach_of_any _ start _ _ hrun
  exact ⟨s, of_decide_eq_true hp,
    (play_invokes_iff unitWrapper ⟨_, _, _, _, hconstruct⟩ hs .onDisplay).1⟩

/-- `onDisplay = f` and then `onDisplay -= f`: the next frame calls through `nullptr`. -/
theorem play_invokes_null :
    ∃ start s : PlayState Unit, start.IsStart unitWrapper ∧
      Reach (PlayState.step unitWrapper) start s ∧
      (s.world.delegates.get PlayEvent.onDisplay.delegate).map Delegate.current = some none ∧
      ¬Invocable s.world PlayEvent.onDisplay.delegate := by
  have hstart : (PlayState.construct unitWrapper (.functor 7 ()) (.functor 8 ())).any (fun start =>
      (exec (PlayState.step unitWrapper) start [.operate .onDisplay .assign (.pointer 1 ()),
        .operate .onDisplay .remove (.pointer 1 ())]).any fun s => decide (
          (s.world.delegates.get PlayEvent.onDisplay.delegate).map Delegate.current =
            some none)) = true := by
    decide
  obtain ⟨start, hconstruct, hrun⟩ := (Option.any_eq_true _ _).mp hstart
  obtain ⟨s, hs, hp⟩ := reach_of_any _ start _ _ hrun
  have hnone := of_decide_eq_true hp
  refine ⟨start, s, ⟨_, _, _, _, hconstruct⟩, hs, hnone, ?_⟩
  rintro ⟨dl, list, l, m, hd, hc, -⟩
  rw [hd, Option.map_some, hc] at hnone
  cases hnone

end VideoPlayerCore
