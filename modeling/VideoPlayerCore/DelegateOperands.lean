import VideoPlayerCore.LockedInvariant

/-!
# Delegate operands under the mutex policies

Only `_Delegate_S<std::mutex>` has overloads of its own for delegate operands.  With any
other mutex the operand is wrapped, the wrapper copies it, and the copy constructor wraps
it again: the operation does not return.  `-=` on an empty delegate returns before it
wraps.

    an operation acts on the two lists ↔ the mutex is `std::mutex`
      (or it is `-=` on an empty delegate)                    (delegate_operands_iff)
-/

namespace VideoPlayerCore

open Machine

variable {F : Type}

namespace LockedWorld

variable {w : Wrapper F} {mutex : Policy} {s s' : LockedWorld F}

/-- `a op= b` returns, and `a` shows the result. -/
def OperatorActs (w : Wrapper F) (mutex : Policy) (s : LockedWorld F) (op : Operator)
    (a b : Nat) : Prop :=
  ∃ fuel s' ea eb, s.step w mutex (.operateDelegate fuel op a b (.locked mutex)) = some s' ∧
    s.plain.get a = some ea ∧ s.plain.get b = some eb ∧
    s'.plain = s.plain.set a (op.result ea eb)

/-- The copy construction returns, and the new delegate shows what `b` shows. -/
def CopyActs (w : Wrapper F) (mutex : Policy) (s : LockedWorld F) (b : Nat) : Prop :=
  ∃ fuel s' eb, s.step w mutex (.copy fuel b) = some s' ∧ s.plain.get b = some eb ∧
    s'.plain = s.plain.alloc eb

theorem plain_get (s : LockedWorld F) (d : Nat) :
    s.plain.get d = (s.delegates.get d).map s.heap.contents := Slots.get_map _ _ _

theorem operateDelegate_step {a b : Nat} {da db : Delegate} (ha : s.delegates.get a = some da)
    (hb : s.delegates.get b = some db) (fuel : Nat) (op : Operator) :
    s.step w mutex (.operateDelegate fuel op a b (.locked mutex)) =
      s.put a (operate w mutex fuel op s.heap da (.object (.locked mutex))
        (.delegate db (a = b))).toOption := by
  rw [step, hb, ha]
  simp only [Option.bind_eq_bind, Option.bind_some]
  rw [if_pos (by simp)]

theorem copy_step {b : Nat} {db : Delegate} (hb : s.delegates.get b = some db) (fuel : Nat) :
    s.step w mutex (.copy fuel b) = s.make (copyConstruct w mutex fuel s.heap db).toOption := by
  rw [step, hb]
  rfl

theorem operatorActs_iff (hs : s.Inv) {a b : Nat} {da db : Delegate}
    (ha : s.delegates.get a = some da) (hb : s.delegates.get b = some db) (op : Operator) :
    OperatorActs w mutex s op a b ↔ mutex = .stdMutex ∨ op = .remove ∧ da.current = none := by
  have hea : s.plain.get a = some (s.heap.contents da) := by rw [plain_get, ha]; rfl
  have heb : s.plain.get b = some (s.heap.contents db) := by rw [plain_get, hb]; rfl
  constructor
  · rintro ⟨fuel, s', -, -, hstep, -⟩
    by_contra hnot
    rw [not_or] at hnot
    rw [operateDelegate_step ha hb, operate_wrap w mutex fuel op s.heap da hnot.1,
      if_neg hnot.2] at hstep
    cases hstep
  · intro h
    by_cases hmutex : mutex = .stdMutex
    · obtain ⟨s', hput, hplain, -⟩ := operate_spec hs ha hb op
      refine ⟨0, s', _, _, ?_, hea, heb, hplain⟩
      rw [operateDelegate_step ha hb, hmutex, operate_list w _ 0 op s.heap da (.inr rfl),
        toOption_valid, hput]
    · have hempty := h.resolve_left hmutex
      refine ⟨0, s, _, _, ?_, hea, heb, ?_⟩
      · rw [operateDelegate_step ha hb, operate_wrap w mutex 0 op s.heap da hmutex, if_pos hempty]
        exact put_same ha
      · rw [hempty.1, Operator.result, Heap.contents_none hempty.2, KeyedLists.subtract_nil,
          Slots.set_get (by rw [hea, Heap.contents_none hempty.2])]

theorem copyActs_iff (hs : s.Inv) {b : Nat} {db : Delegate} (hb : s.delegates.get b = some db) :
    CopyActs w mutex s b ↔ mutex = .stdMutex := by
  have heb : s.plain.get b = some (s.heap.contents db) := by rw [plain_get, hb]; rfl
  constructor
  · rintro ⟨fuel, s', -, hstep, -⟩
    by_contra hmutex
    rw [copy_step hb, copyConstruct_wrap w mutex fuel s.heap hmutex] at hstep
    cases hstep
  · intro hmutex
    obtain ⟨s', hmake, hplain, -⟩ := copy_spec hs hb
    refine ⟨0, s', _, ?_, heb, hplain⟩
    rw [copy_step hb, hmutex, copyConstruct_std, toOption_valid, hmake]

end LockedWorld

/-- Copy construction, `=`, `+=` and `-=` of delegates act on their lists under
`std::mutex`, and under no other policy but for `-=` on an empty delegate. -/
theorem delegate_operands_iff (w : Wrapper F) (mutex : Policy) {s : LockedWorld F}
    (hs : Reach (LockedWorld.step w mutex) {} s) {a b : Nat} {da db : Delegate}
    (ha : s.delegates.get a = some da) (hb : s.delegates.get b = some db) :
    (∀ op, LockedWorld.OperatorActs w mutex s op a b ↔
      mutex = .stdMutex ∨ op = .remove ∧ da.current = none) ∧
      (LockedWorld.CopyActs w mutex s b ↔ mutex = .stdMutex) := by
  have hinv := LockedWorld.inv_of_reach hs
  exact ⟨LockedWorld.operatorActs_iff hinv ha hb, LockedWorld.copyActs_iff hinv hb⟩

/-- Two delegates with one entry each. -/
def twoDelegates : List (LockedAct Unit) :=
  [.constructFrom 0 (.pointer 1 ()), .constructFrom 0 (.pointer 2 ())]

theorem twoDelegates_reach (mutex : Policy) :
    ∃ s da db, Reach (LockedWorld.step unitWrapper mutex) {} s ∧ s.delegates.get 0 = some da ∧
      s.delegates.get 1 = some db ∧ da.current ≠ none := by
  have hrun : (exec (LockedWorld.step unitWrapper mutex) {} twoDelegates).map
      LockedWorld.delegates = some ⟨[some ⟨some 0, []⟩, some ⟨some 1, []⟩]⟩ := by
    simp only [twoDelegates, exec, LockedWorld.step, construct_callable]
    rfl
  obtain ⟨s, hs, hd⟩ := Option.map_eq_some_iff.mp hrun
  refine ⟨s, _, _, reach_of_exec hs, by rw [hd]; rfl, by rw [hd]; rfl, by simp⟩

theorem delegate_operands_iff_stdMutex :
    ∃ s : LockedWorld Unit, (∀ op, LockedWorld.OperatorActs unitWrapper .stdMutex s op 0 1) ∧
      LockedWorld.CopyActs unitWrapper .stdMutex s 1 := by
  obtain ⟨s, da, db, hs, ha, hb, -⟩ := twoDelegates_reach .stdMutex
  obtain ⟨hop, hcopy⟩ := delegate_operands_iff unitWrapper .stdMutex hs ha hb
  exact ⟨s, fun op => (hop op).mpr (.inl rfl), hcopy.mpr rfl⟩

/-- With the mutex that `Play` uses, nothing that takes a delegate operand returns. -/
theorem nullMutex_operands_never_return :
    ∃ (s : LockedWorld Unit) (da db : Delegate),
      Reach (LockedWorld.step unitWrapper .nullMutex) {} s ∧ s.delegates.get 0 = some da ∧
      s.delegates.get 1 = some db ∧
      (∀ fuel, copyConstruct unitWrapper .nullMutex fuel s.heap db = .error .outOfFuel) ∧
      (∀ fuel op, operate unitWrapper .nullMutex fuel op s.heap da (.object (.locked .nullMutex))
        (.delegate db false) = .error .outOfFuel) ∧
      ¬LockedWorld.CopyActs unitWrapper .nullMutex s 1 ∧
      ∀ op, ¬LockedWorld.OperatorActs unitWrapper .nullMutex s op 0 1 := by
  obtain ⟨s, da, db, hs, ha, hb, hne⟩ := twoDelegates_reach .nullMutex
  have hinv := LockedWorld.inv_of_reach hs
  refine ⟨s, da, db, hs, ha, hb, fun fuel => ?_, fun fuel op => ?_, fun h => ?_, fun op h => ?_⟩
  · exact copyConstruct_wrap unitWrapper .nullMutex fuel s.heap (by decide) db
  · rw [operate_wrap unitWrapper .nullMutex fuel op s.heap da (by decide),
      if_neg fun h => hne h.2]
  · have hstd := (LockedWorld.copyActs_iff hinv hb).mp h
    cases hstd
  · rcases (LockedWorld.operatorActs_iff hinv ha hb op).mp h with hstd | ⟨-, hnone⟩
    · cases hstd
    · exact hne hnone

end VideoPlayerCore
