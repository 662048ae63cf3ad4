import Mathlib.Data.List.TakeWhile
import VideoPlayerCore.LogRecords

/-!
# What the log prints

All logs are also printed: a record that is kept when it is flushed, together with what is in
front of it in the buffer, and a record that is not kept at once.

    the texts printed are the kept records, each once and in order, with the other records,
    each once and in order, between them                                  (console_shows_all)

Where a `fwrite` call takes nothing the flush stops, and the next one prints what is left in
front of the buffer once more                                          (stopped_flush_repeats)
-/

namespace VideoPlayerCore

open Machine LogState

/-- A `LogRun` with the records that were not kept. -/
structure ConsoleRun where
  run : LogRun := {}
  rejected : List Bytes := []

def ConsoleRun.step (s : ConsoleRun) (a : LogAct) : Option ConsoleRun :=
  (s.run.step a).map fun run =>
    { run := run
      rejected := match a with
        | .log c _ => if c.level ≤ s.run.log.logLevel then s.rejected else s.rejected ++ [c.record]
        | _ => s.rejected }

/-- C strings have no 0 in them. -/
def LogAct.Strings : LogAct → Prop
  | .push bytes => 0 ∉ bytes
  | .log c _ => 0 ∉ c.record
  | _ => True

instance : (a : LogAct) → Decidable a.Strings
  | .push bytes => inferInstanceAs (Decidable (0 ∉ bytes))
  | .log c _ => inferInstanceAs (Decidable (0 ∉ c.record))
  | .config _ _ => .isTrue trivial
  | .flush _ => .isTrue trivial

theorem cString_whole {bytes : Bytes} (h : 0 ∉ bytes) : cString bytes = bytes := by
  refine List.takeWhile_eq_self_iff.mpr fun b hb => ?_
  refine decide_eq_true ?_
  rintro rfl
  exact h hb

namespace LogState

variable {s : LogState} {e : FlushEnv}

/-- The file is open, or will be for this flush. -/
def canWrite (s : LogState) (e : FlushEnv) : Bool := s.isOpen || (!s.named && e.opens)

theorem opened_isOpen (s : LogState) (e : FlushEnv) : (s.opened e).isOpen = s.canWrite e := by
  unfold opened canWrite
  split
  · next hnamed => simp [hnamed]
  · next hnamed => simp [hnamed]

theorem takes_of_writes (h : ∀ k, 0 < e.accepts k) (n : Nat) :
    s.takes e n = if s.canWrite e then n else 0 := by
  have hiff : (s.isOpen = true ∨ ¬ s.named = true ∧ e.opens = true) ↔ s.canWrite e = true := by
    simp [canWrite]
  unfold takes
  rw [e.taken_all h]
  by_cases hcan : s.canWrite e = true
  · rw [if_pos hcan, if_pos (hiff.mpr hcan)]
  · rw [if_neg hcan, if_neg (mt hiff.mp hcan)]

/-- The terminator is stored behind what is pending. -/
theorem printed_eq (s : LogState) :
    cString (s.put s.bufferSize [0]).buffer = cString s.pending := by
  have hterminated : (s.put s.bufferSize [0]).buffer =
      s.pending ++ 0 :: s.buffer.drop (s.bufferSize + 1) := by
    unfold put ByteStore.store pending
    rw [List.append_assoc]
    rfl
  rw [hterminated, cString_terminated]

/-- A flush with the file open prints what is pending. -/
theorem flushBuffer_console (h : Fits s) (e : FlushEnv) : (s.flushBuffer e).1.console =
    if s.canWrite e = true ∧ 0 < s.bufferSize then s.console ++ [cString s.pending]
    else s.console := by
  obtain ⟨heq, hnamed⟩ := flushBuffer_opened s e
  have hcan := opened_isOpen s e
  obtain ⟨hfits, hsize, hconsole, hpending⟩ : Fits (s.opened e) ∧
      (s.opened e).bufferSize = s.bufferSize ∧ (s.opened e).console = s.console ∧
      (s.opened e).pending = s.pending := by
    unfold opened
    split <;> exact ⟨h, rfl, rfl, rfl⟩
  rw [heq, ← hcan, ← hsize, ← hconsole, ← hpending]
  generalize s.opened e = u at *
  unfold flushBuffer
  rw [if_pos hnamed]
  dsimp only
  by_cases hpos : 0 < u.bufferSize
  · have hbuffer : u.buffer ≠ [] ∧ 0 < u.bufferSize := ⟨(hfits.room hpos).2, hpos⟩
    rw [if_pos hbuffer]
    by_cases hopen : u.isOpen = true
    · have hboth : u.isOpen = true ∧ 0 < u.bufferSize := ⟨hopen, hpos⟩
      rw [if_pos hopen, if_pos hboth, ← printed_eq]
      dsimp only
      split <;> rfl
    · have hnot : ¬ (u.isOpen = true ∧ 0 < u.bufferSize) := fun h => hopen h.1
      rw [if_neg hopen, if_neg hnot]
  · have hnot : ¬ (u.isOpen = true ∧ 0 < u.bufferSize) := fun h => hpos h.2
    have hnot' : ¬ (u.buffer ≠ [] ∧ 0 < u.bufferSize) := fun h => hpos h.2
    rw [if_neg hnot', if_neg hnot]

end LogState

/-! ## What a run prints -/

/-- The texts printed so far: on the left what was flushed, on the right a record that was not
kept. -/
structure Shows (d0 : Bytes) (log : LogState) (rejected : List Bytes)
    (shown : List (Bytes ⊕ Bytes)) : Prop where
  console : shown.map (Sum.elim id id) = log.console
  kept : log.reached = d0 ++ (shown.filterMap Sum.getLeft?).flatten
  rejected : shown.filterMap Sum.getRight? = rejected

section

variable {d0 : Bytes} {s t : LogState} {rejected : List Bytes} {shown : List (Bytes ⊕ Bytes)}
  {e : FlushEnv}

theorem Shows.congr (h : Shows d0 s rejected shown) (hconsole : t.console = s.console)
    (hreached : t.reached = s.reached) : Shows d0 t rejected shown :=
  ⟨h.console.trans hconsole.symm, hreached.trans h.kept, h.rejected⟩

theorem Shows.flush (h : Shows d0 s rejected shown) (hfits : Fits s)
    (hwrites : ∀ k, 0 < e.accepts k) (hstring : 0 ∉ s.pending) :
    ∃ shown, Shows d0 (s.flushBuffer e).1 rejected shown := by
  have hconsole := flushBuffer_console hfits e
  have hreached := (flushBuffer_flushes hfits e).reached
  rw [takes_of_writes hwrites, ← hfits.length_pending] at hreached
  by_cases hcan : s.canWrite e = true
  · rw [if_pos hcan, List.take_length] at hreached
    by_cases hpos : 0 < s.bufferSize
    · rw [if_pos ⟨hcan, hpos⟩, cString_whole hstring] at hconsole
      refine ⟨shown ++ [.inl s.pending], ?_, ?_, ?_⟩
      · rw [hconsole, List.map_append, h.console]
        rfl
      · rw [hreached, h.kept, List.filterMap_append, List.flatten_append, List.append_assoc]
        simp
      · rw [List.filterMap_append, h.rejected]
        simp
    · rw [if_neg fun h => hpos h.2] at hconsole
      have hnil : s.pending = [] := by
        rw [← List.length_eq_zero_iff, hfits.length_pending]
        omega
      rw [hnil, List.append_nil] at hreached
      exact ⟨shown, h.congr hconsole hreached⟩
  · rw [if_neg hcan, List.take_zero, List.append_nil] at hreached
    rw [if_neg fun h => hcan h.1] at hconsole
    exact ⟨shown, h.congr hconsole hreached⟩

theorem Shows.reject (h : Shows d0 s rejected shown) {text : Bytes}
    (hconsole : t.console = s.console ++ [text]) (hreached : t.reached = s.reached) :
    Shows d0 t (rejected ++ [text]) (shown ++ [.inr text]) := by
  refine ⟨?_, ?_, ?_⟩
  · rw [hconsole, List.map_append, h.console]
    rfl
  · rw [hreached, h.kept, List.filterMap_append]
    simp
  · rw [List.filterMap_append, h.rejected]
    simp

/-- What is pending was logged. -/
theorem Shows.strings {run : LogRun} (h : Shows d0 run.log rejected shown) (hlaw : Law d0 run)
    (hlogged : 0 ∉ run.logged.flatten) : 0 ∉ run.log.pending := by
  unfold Law at hlaw
  rw [h.kept, List.append_assoc, List.append_cancel_left_eq] at hlaw
  intro hmem
  refine hlogged ?_
  rw [← hlaw]
  exact List.mem_append_right _ hmem

end

/-- What a run without failing writes keeps. -/
structure ConsoleRun.Printed (d0 : Bytes) (s : ConsoleRun) : Prop where
  fits : Fits s.run.log
  law : Law d0 s.run
  strings : 0 ∉ s.run.logged.flatten
  shows : ∃ shown, Shows d0 s.run.log s.rejected shown

theorem ConsoleRun.Printed.step {d0 : Bytes} {s t : ConsoleRun} {a : LogAct} (h : s.Printed d0)
    (hshort : a.Short) (hwrites : a.Writes) (hstrings : a.Strings) (hs : s.step a = some t) :
    t.Printed d0 := by
  obtain ⟨run, hrun, rfl⟩ := Option.map_eq_some_iff.mp hs
  obtain ⟨hfits, hlaw, hlogged, shown, hshown⟩ := h
  obtain ⟨hfits', hiff⟩ := LogRun.step_law hfits hlaw hshort hrun
  have hpending := hshown.strings hlaw hlogged
  have hmore {bytes : Bytes} (hbytes : 0 ∉ bytes) : 0 ∉ (s.run.logged ++ [bytes]).flatten := by
    rw [List.flatten_append, List.flatten_singleton, List.mem_append]
    exact not_or.mpr ⟨hlogged, hbytes⟩
  unfold LogRun.step at hrun
  split at hrun
  · cases hrun
  · cases a with
    | push bytes =>
      obtain rfl := Option.some.inj hrun
      have honly := (pushToBuffer_appends hfits (rfl : bytes.length = bytes.length)).only
      refine ⟨hfits', hiff.mpr hwrites.tailKept, hmore hstrings, shown, ?_⟩
      exact hshown.congr (by rw [honly]) (OnlyBuffer.reached_eq honly)
    | log c e =>
      obtain rfl := Option.some.inj hrun
      have happ := append_appends hfits c
      have hafter := happ.pending hshort
      have hshown' : Shows d0 (s.run.log.append c).1 s.rejected shown :=
        hshown.congr (by rw [happ.only]) (OnlyBuffer.reached_eq happ.only)
      refine ⟨hfits', hiff.mpr hwrites.tailKept, ?_, ?_⟩
      · dsimp only
        split
        · exact hmore hstrings
        · exact hlogged
      · dsimp only
        by_cases hkeep : c.level ≤ s.run.log.logLevel
        · rw [if_pos hkeep]
          by_cases hhigh : c.level ≤ 3
          · rw [log_now hfits hkeep hhigh]
            have hstring : 0 ∉ (s.run.log.append c).1.pending := by
              rw [hafter, List.mem_append]
              exact not_or.mpr ⟨hpending, hstrings⟩
            obtain ⟨shown', hflushed⟩ := hshown'.flush (e := e) happ.fits hwrites hstring
            exact ⟨shown', hflushed.congr rfl rfl⟩
          · rw [log_later hfits hkeep (Int.not_le.mp hhigh)]
            exact ⟨shown, hshown'.congr rfl rfl⟩
        · obtain ⟨-, -, honly, hback⟩ := happ.takeBack_spec hfits (record_pos c)
          rw [if_neg hkeep, log_dropped hfits (Int.not_le.mp hkeep)]
          refine ⟨_, hshown.reject ?_ (OnlyBuffer.reached_eq honly :)⟩
          rw [(hback hshort).2, cString_whole hstrings]
    | config logLevel maxSize =>
      obtain rfl := Option.some.inj hrun
      exact ⟨hfits', hiff.mpr hwrites.tailKept, hlogged, shown, hshown.congr rfl rfl⟩
    | flush e =>
      obtain rfl := Option.some.inj hrun
      exact ⟨hfits', hiff.mpr hwrites.tailKept, hlogged, hshown.flush hfits hwrites hpending⟩

/-- The texts printed are the records that were kept, up to what is pending, and those that were
not, each once and in order; what was printed of the kept ones is what has reached the file. -/
theorem console_shows_all (d0 : Bytes) {s : ConsoleRun}
    (h : ReachIf ConsoleRun.step (fun _ a => a.Short ∧ a.Writes ∧ a.Strings)
      { run := { log := { disk := d0 } } } s) :
    ∃ shown : List (Bytes ⊕ Bytes), shown.map (Sum.elim id id) = s.run.log.console ∧
      (shown.filterMap Sum.getLeft?).flatten ++ s.run.log.pending = s.run.logged.flatten ∧
      s.run.log.reached = d0 ++ (shown.filterMap Sum.getLeft?).flatten ∧
      shown.filterMap Sum.getRight? = s.rejected := by
  have hprinted : s.Printed d0 := by
    refine h.invariant (I := fun s => s.Printed d0) ?_ fun u a v hI hok hs =>
      hI.step hok.1 hok.2.1 hok.2.2 hs
    obtain ⟨hfits, hlaw⟩ := law_start d0
    refine ⟨hfits, hlaw, by simp, [], rfl, ?_, rfl⟩
    simp [reached]
  obtain ⟨-, hlaw, -, shown, hshown⟩ := hprinted
  refine ⟨shown, hshown.console, ?_, hshown.kept, hshown.rejected⟩
  unfold Law at hlaw
  rw [hshown.kept, List.append_assoc, List.append_cancel_left_eq] at hlaw
  exact hlaw

/-- A record kept, one printed at once, and one that flushes both kept ones. -/
theorem console_shows_all_between :
    ∃ s : ConsoleRun, s.rejected = [(sampleCall (ascii "pts 0") 6).record] ∧
      s.run.log.console =
        [(sampleCall (ascii "pts 0") 6).record,
          (sampleCall (ascii "slow") 4).record ++ (sampleCall (ascii "lost") 3).record] ∧
      ∃ shown : List (Bytes ⊕ Bytes), shown.map (Sum.elim id id) = s.run.log.console ∧
        shown.filterMap Sum.getRight? = s.rejected := by
  let e : FlushEnv := { accepts := fun _ => 1 }
  obtain ⟨s, hreach, hend⟩ := reachIf_of_any ConsoleRun.step
    (fun _ a => a.Short ∧ a.Writes ∧ a.Strings) { run := { log := { disk := [] } } }
    [.log (sampleCall (ascii "slow") 4) e, .log (sampleCall (ascii "pts 0") 6) e,
      .log (sampleCall (ascii "lost") 3) e]
    (fun s => s.rejected = [(sampleCall (ascii "pts 0") 6).record] ∧
      s.run.log.console =
        [(sampleCall (ascii "pts 0") 6).record,
          (sampleCall (ascii "slow") 4).record ++ (sampleCall (ascii "lost") 3).record])
    (by
      intro a ha _
      have hwrites : ∀ k, 0 < e.accepts k := fun _ => Nat.one_pos
      simp only [List.mem_cons, List.not_mem_nil, or_false] at ha
      rcases ha with rfl | rfl | rfl
      all_goals exact ⟨by decide +kernel, hwrites, by decide +kernel⟩)
    (by decide +kernel)
  obtain ⟨hrejected, hconsole⟩ := of_decide_eq_true hend
  obtain ⟨shown, hshown, -, -, hright⟩ := console_shows_all [] hreach
  exact ⟨s, hrejected, hconsole, shown, hshown, hright⟩

/-- `fwrite` takes one byte of two and then nothing: the first one is printed twice. -/
theorem stopped_flush_repeats :
    ∃ s : ConsoleRun, Reach ConsoleRun.step {} s ∧ s.run.logged = [ascii "ab"] ∧
      s.run.log.console = [ascii "ab", ascii "a"] := by
  obtain ⟨s, hreach, hend⟩ := reach_of_any ConsoleRun.step {}
    [.push (ascii "ab"), .flush { accepts := fun k => if k = 0 then 1 else 0 },
      .flush { accepts := fun _ => 2 }]
    (fun s => s.run.logged = [ascii "ab"] ∧ s.run.log.console = [ascii "ab", ascii "a"])
    (by decide +kernel)
  exact ⟨s, hreach, of_decide_eq_true hend⟩

end VideoPlayerCore
