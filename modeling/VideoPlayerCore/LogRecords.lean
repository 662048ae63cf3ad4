import VideoPlayerCore.LogBuffer

/-!
# Records kept, records taken back

`s.log.reached` are the bytes in log.txt (and in what it was renamed to), `s.logged` what was
pushed and what `_log` was to keep.

    Fits s.log → Law d0 s → a.Short → LogRun.step s a = some t →
      Fits t.log ∧ (Law d0 t ↔ s.log.TailKept a)                          (LogRun.step_law)

A flush that no `fwrite` call stops keeps the tail, so the law holds in every run of these
(log_keeps_records); a record that is not to be logged is printed, and leaves what is pending
as it was, wherever the buffer lies by then.
-/

namespace VideoPlayerCore

open Machine LogState

variable {s t : LogRun} {a : LogAct} {d0 : Bytes}

/-- The message fits into the 512 bytes that `_log` formats it into. -/
def LogAct.Short : LogAct → Prop
  | .log c _ => c.text.length < 512
  | _ => True

instance : (a : LogAct) → Decidable a.Short
  | .push _ => .isTrue trivial
  | .log c _ => inferInstanceAs (Decidable (c.text.length < 512))
  | .config _ _ => .isTrue trivial
  | .flush _ => .isTrue trivial

/-- No `fwrite` call takes nothing. -/
def LogAct.Writes : LogAct → Prop
  | .log _ e | .flush e => ∀ k, 0 < e.accepts k
  | _ => True

/-- After a flush that writes `k` bytes, the ones left at the front of the buffer are the
ones that were not written. -/
def TailKept (pending : Bytes) (k : Nat) : Prop :=
  pending.take (pending.length - k) = pending.drop k

instance (pending : Bytes) (k : Nat) : Decidable (TailKept pending k) :=
  inferInstanceAs (Decidable (_ = _))

/-- Every flush of the action keeps the tail. -/
def LogState.TailKept (s : LogState) : LogAct → Prop
  | .log c e => c.level ≤ s.logLevel → c.level ≤ 3 →
      VideoPlayerCore.TailKept (s.pending ++ c.record) (s.takes e (s.pending ++ c.record).length)
  | .flush e => VideoPlayerCore.TailKept s.pending (s.takes e s.pending.length)
  | _ => True

instance (s : LogState) : (a : LogAct) → Decidable (s.TailKept a)
  | .push _ => .isTrue trivial
  | .log c e => inferInstanceAs (Decidable (c.level ≤ s.logLevel → c.level ≤ 3 →
      VideoPlayerCore.TailKept (s.pending ++ c.record) (s.takes e (s.pending ++ c.record).length)))
  | .config _ _ => .isTrue trivial
  | .flush e =>
    inferInstanceAs (Decidable (VideoPlayerCore.TailKept s.pending (s.takes e s.pending.length)))

/-- What reached the files and what is pending is what was logged. -/
def Law (d0 : Bytes) (s : LogRun) : Prop :=
  s.log.reached ++ s.log.pending = d0 ++ s.logged.flatten

theorem OnlyBuffer.reached_eq {s t : LogState} (h : OnlyBuffer s t) : t.reached = s.reached := by
  rw [h]
  rfl

theorem OnlyBuffer.takes_eq {s t : LogState} (h : OnlyBuffer s t) (e : FlushEnv) (n : Nat) :
    t.takes e n = s.takes e n := by
  rw [h]
  rfl

/-- A flush keeps all bytes if and only if it keeps the tail. -/
theorem Flushes.keeps_iff {s t : LogState} {k : Nat} (hs : Fits s) (h : Flushes s t k) :
    t.reached ++ t.pending = s.reached ++ s.pending ↔ TailKept s.pending k := by
  unfold TailKept
  rw [h.reached, h.pending, hs.length_pending, List.append_assoc, List.append_cancel_left_eq]
  conv => lhs; rhs; rw [← List.take_append_drop k s.pending]
  rw [List.append_cancel_left_eq]

theorem tailKept_all (pending : Bytes) : TailKept pending pending.length := by
  unfold TailKept
  rw [Nat.sub_self, List.take_zero, List.drop_length]

theorem tailKept_zero (pending : Bytes) : TailKept pending 0 := by
  unfold TailKept
  rw [Nat.sub_zero, List.take_length, List.drop_zero]

/-- With no call that takes nothing, a flush writes all or, the file closed, nothing. -/
theorem tailKept_of_writes {s : LogState} {e : FlushEnv} (h : ∀ k, 0 < e.accepts k)
    (pending : Bytes) : TailKept pending (s.takes e pending.length) := by
  unfold takes
  split
  · rw [e.taken_all h]
    exact tailKept_all pending
  · exact tailKept_zero pending

theorem LogAct.Writes.tailKept {s : LogState} {a : LogAct} (h : a.Writes) : s.TailKept a := by
  cases a with
  | push => trivial
  | log c e => exact fun _ _ => tailKept_of_writes h _
  | config => trivial
  | flush e => exact tailKept_of_writes h _

/-! ## One step -/

theorem law_append {log : LogState} {bytes : Bytes} (h : Law d0 s)
    (hreached : log.reached = s.log.reached) (hpending : log.pending = s.log.pending ++ bytes) :
    log.reached ++ log.pending = d0 ++ (s.logged ++ [bytes]).flatten := by
  unfold Law at h
  rw [hreached, hpending, ← List.append_assoc, h, List.flatten_append, List.append_assoc]
  simp

theorem LogRun.step_law (hfits : Fits s.log) (hlaw : Law d0 s) (hshort : a.Short)
    (hs : LogRun.step s a = some t) : Fits t.log ∧ (Law d0 t ↔ s.log.TailKept a) := by
  unfold LogRun.step at hs
  split at hs
  · cases hs
  · cases a with
    | push bytes =>
      cases hs
      have hadd : s.log.Appends (s.log.pushToBuffer bytes bytes.length) bytes :=
        pushToBuffer_appends hfits rfl
      refine ⟨hadd.fits, iff_of_true ?_ trivial⟩
      exact law_append hlaw (OnlyBuffer.reached_eq hadd.only) hadd.pending
    | log c e =>
      cases hs
      have happ := append_appends hfits c
      have hpending := happ.pending hshort
      have hreached := OnlyBuffer.reached_eq happ.only
      unfold LogState.TailKept
      dsimp only
      by_cases hkeep : c.level ≤ s.log.logLevel
      · have hall := law_append hlaw hreached hpending
        by_cases hhigh : c.level ≤ 3
        · -- the record is in the buffer, and everything is flushed
          have hflush := flushBuffer_flushes happ.fits e
          rw [log_now hfits hkeep hhigh, if_pos hkeep]
          refine ⟨hflush.fits, ?_⟩
          unfold Law
          dsimp only
          rw [← hall]
          refine (Flushes.keeps_iff happ.fits hflush).trans ?_
          rw [OnlyBuffer.takes_eq happ.only, ← hpending, happ.fits.length_pending]
          exact ⟨fun h _ _ => h, fun h => h hkeep hhigh⟩
        · rw [log_later hfits hkeep (Int.not_le.mp hhigh), if_pos hkeep]
          exact ⟨happ.fits, iff_of_true hall fun _ h => absurd h hhigh⟩
      · have hdrop := Int.not_le.mp hkeep
        obtain ⟨hfits', -, honly, hback⟩ := happ.takeBack_spec hfits (record_pos c)
        obtain ⟨hsame, -⟩ := hback hshort
        rw [log_dropped hfits hdrop, if_neg hkeep]
        refine ⟨hfits', iff_of_true ?_ fun h => absurd h hkeep⟩
        unfold Law
        dsimp only
        rw [OnlyBuffer.reached_eq honly, hsame]
        exact hlaw
    | config logLevel maxSize =>
      cases hs
      exact ⟨hfits, iff_of_true hlaw trivial⟩
    | flush e =>
      cases hs
      have hflush := flushBuffer_flushes hfits e
      refine ⟨hflush.fits, ?_⟩
      unfold Law at hlaw ⊢
      dsimp only
      rw [← hlaw, Flushes.keeps_iff hfits hflush]
      unfold LogState.TailKept
      rw [hfits.length_pending]

/-! ## Runs without a failing write -/

theorem law_start (d0 : Bytes) :
    Fits ({ disk := d0 } : LogState) ∧ Law d0 { log := { disk := d0 } } :=
  ⟨⟨Nat.le_refl 0, .inr ⟨rfl, rfl⟩⟩, rfl⟩

theorem law_of_kept
    (h : ReachIf LogRun.step (fun s a => a.Short ∧ s.log.TailKept a) { log := { disk := d0 } } s) :
    Fits s.log ∧ Law d0 s := by
  refine h.invariant (I := fun s => Fits s.log ∧ Law d0 s) (law_start d0)
    fun t a u ⟨hfits, hlaw⟩ ⟨hshort, hkept⟩ hs => ?_
  obtain ⟨hfits', hiff⟩ := LogRun.step_law hfits hlaw hshort hs
  exact ⟨hfits', hiff.mpr hkept⟩

/-- log.txt and the buffer hold the records that were to be kept, one after the other; a
record that was not is printed only. -/
theorem log_keeps_records (d0 : Bytes) {s : LogRun}
    (h : ReachIf LogRun.step (fun _ a => a.Short ∧ a.Writes) { log := { disk := d0 } } s) :
    (s.log.rotations = [] → s.log.disk ++ s.log.pending = d0 ++ s.logged.flatten) ∧
      ∀ (c : LogCall) (e : FlushEnv), c.text.length < 512 → s.log.logLevel < c.level →
        (s.log.log c e).pending = s.log.pending ∧
          (s.log.log c e).bufferSize = s.log.bufferSize ∧
          (s.log.log c e).console = s.log.console ++ [cString c.record] ∧
          OnlyBuffer { s.log with console := (s.log.log c e).console } (s.log.log c e) := by
  have hkept : ReachIf LogRun.step (fun s a => a.Short ∧ s.log.TailKept a)
      { log := { disk := d0 } } s := by
    induction h with
    | refl => exact .refl
    | tail _ hok hs ih => exact ih.tail ⟨hok.1, hok.2.tailKept⟩ hs
  obtain ⟨hfits, hlaw⟩ := law_of_kept hkept
  refine ⟨fun hrotations => ?_, fun c e hshort hdrop => ?_⟩
  · unfold Law reached at hlaw
    rw [hrotations] at hlaw
    exact hlaw
  · obtain ⟨-, hsize, honly, hback⟩ := (append_appends hfits c).takeBack_spec hfits (record_pos c)
    obtain ⟨hpending, hconsole⟩ := hback hshort
    rw [log_dropped hfits hdrop]
    exact ⟨hpending, hsize, hconsole, honly⟩

/-- A call in which only message and level matter. -/
def sampleCall (text : Bytes) (level : Int) : LogCall where
  time := ascii "2024-05-01T08:00:00.000+0800"
  label := ascii "[W]"
  file := ascii "play.cpp"
  line := 7
  threadId := 1
  funcName := ascii "open"
  text := text
  again := text
  level := level

/-- A record kept, one printed only, and one that flushes both kept ones byte by byte. -/
theorem log_keeps_records_flushed :
    ∃ s : LogRun, s.logged.length = 2 ∧ s.log.console.length = 2 ∧ s.log.bufferSize = 0 ∧
      s.log.disk ++ s.log.pending = s.logged.flatten := by
  let e : FlushEnv := { accepts := fun _ => 1 }
  obtain ⟨s, hreach, hend⟩ := reachIf_of_any LogRun.step (fun _ a => a.Short ∧ a.Writes)
    { log := { disk := [] } }
    [.log (sampleCall (ascii "slow") 4) e, .log (sampleCall (ascii "pts 0") 6) e,
      .log (sampleCall (ascii "lost") 3) e]
    (fun s => s.logged.length = 2 ∧ s.log.console.length = 2 ∧ s.log.bufferSize = 0 ∧
      s.log.rotations = [])
    (by
      intro a ha _
      have hwrites : ∀ k, 0 < e.accepts k := fun _ => Nat.one_pos
      simp only [List.mem_cons, List.not_mem_nil, or_false] at ha
      rcases ha with rfl | rfl | rfl
      all_goals exact ⟨by decide +kernel, hwrites⟩)
    (by decide +kernel)
  obtain ⟨hlogged, hprinted, hsize, hrotations⟩ := of_decide_eq_true hend
  exact ⟨s, hlogged, hprinted, hsize, (log_keeps_records [] hreach).1 hrotations⟩

end VideoPlayerCore
