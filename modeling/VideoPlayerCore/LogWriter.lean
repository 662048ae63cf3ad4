import VideoPlayerCore.LogRecords

/-!
# The writer thread of the log

A record of level 4 or more is only appended: `writeThread` is to write it.  `_log` starts
the thread when `_thread` is 0; the thread flushes 120 times a round, stops after a round
whose last flush found nothing, and then clears `_thread`.

Every section under `_mutex` is one step.  `held` are the records that were kept for the
writer and not written since.

    the writer is not past its last flush when a record is kept for it →
      held ≠ [] → some writer has a flush ahead of it           (writer_flushes_held)

A record kept for a writer that is past it stays in the buffer: nobody is left to write it.
-/

namespace VideoPlayerCore

open Machine LogState

/-! ## The machine -/

inductive WriterPc
  /-- before the flush of iteration `i` -/
  | flush (i : Nat)
  /-- the loop is left, `_thread` is not cleared yet -/
  | clear
  | done
  deriving DecidableEq

structure LogWorld where
  log : LogState := {}
  /-- the threads that were created, in order -/
  writers : List WriterPc := []
  held : List LogCall := []

inductive WriterAct
  /-- any thread calls `_log` -/
  | log (c : LogCall) (e : FlushEnv)
  | config (logLevel : Int) (maxSize : Int)
  /-- the next section of a writer -/
  | writer (w : Nat) (e : FlushEnv)

/-- `i < 30 * 4`, and `ret > 0` after the last iteration -/
def WriterPc.next (i ret : Nat) : WriterPc :=
  if i + 1 < 30 * 4 then .flush (i + 1) else if 0 < ret then .flush 0 else .clear

def LogWorld.step (s : LogWorld) (a : WriterAct) : Option LogWorld :=
  if s.log.exited then none
  else
    match a with
    | .log c e =>
      let log := s.log.log c e
      if c.level ≤ s.log.logLevel then
        if c.level ≤ 3 then
          some { s with log := log, held := if log.bufferSize = 0 then [] else s.held }
        else
          some
            { log := log, held := s.held ++ [c]
              writers := if s.log.thread then s.writers else s.writers ++ [WriterPc.flush 0] }
      else some { s with log := log }
    | .config logLevel maxSize =>
      some { s with log := { s.log with logLevel := logLevel, maxSize := maxSize } }
    | .writer w e =>
      match s.writers[w]? with
      | some (.flush i) =>
        let (log, ret) := s.log.flushBuffer e
        some
          { log := log, held := if log.bufferSize = 0 then [] else s.held
            writers := s.writers.set w (.next i ret) }
      | some .clear =>
        some { s with log := { s.log with thread := false }, writers := s.writers.set w .done }
      | _ => none

/-- The file can be opened, and no `fwrite` call takes nothing. -/
def FlushEnv.Works (e : FlushEnv) : Prop := e.opens = true ∧ ∀ k, 0 < e.accepts k

def WriterAct.Works : WriterAct → Prop
  | .log _ e | .writer _ e => e.Works
  | .config _ _ => True

/-- A record that is kept for the writer is not logged while one is past its last flush and
has not cleared `_thread`. -/
def LogWorld.InTime (s : LogWorld) : WriterAct → Prop
  | .log c _ => c.level ≤ s.log.logLevel → 3 < c.level → .clear ∉ s.writers
  | _ => True

/-- Some writer has a flush ahead of it. -/
def LogWorld.Covered (s : LogWorld) : Prop :=
  s.held ≠ [] → ∃ w i : Nat, s.writers[w]? = some (.flush i)

/-! ## The buffer under these calls -/

namespace LogState

variable {s : LogState} {c : LogCall} {e : FlushEnv}

/-- The buffer is sound, and the file is open whenever it has its name. -/
def Ready (s : LogState) : Prop := Fits s ∧ (s.named = true → s.isOpen = true)

theorem Ready.flush (h : Ready s) (he : e.Works) :
    Ready (s.flushBuffer e).1 ∧ (s.flushBuffer e).1.bufferSize = 0 ∧
      (s.flushBuffer e).1.thread = s.thread := by
  obtain ⟨hfits, hopen⟩ := h
  have hflush := flushBuffer_flushes hfits e
  have htakes : s.takes e s.bufferSize = s.bufferSize := by
    unfold takes
    rw [if_pos, e.taken_all he.2]
    cases hnamed : s.named with
    | true => exact .inl (hopen hnamed)
    | false => exact .inr ⟨Bool.false_ne_true, he.1⟩
  refine ⟨⟨hflush.fits, flushBuffer_open hopen he.1⟩, ?_, hflush.same.2.1⟩
  rw [hflush.size, htakes, Nat.sub_self]

theorem Ready.append (h : Ready s) (c : LogCall) :
    Ready (s.append c).1 ∧ (s.append c).1.bufferSize = s.bufferSize + c.record.length ∧
      (s.append c).1.thread = s.thread ∧ (s.append c).1.exited = s.exited := by
  have happ := append_appends h.1 c
  have honly := happ.only
  unfold OnlyBuffer at honly
  refine ⟨⟨happ.fits, ?_⟩, happ.size, ?_, ?_⟩
  · rw [honly]
    exact h.2
  · rw [honly]
  · rw [honly]

theorem Ready.later (h : Ready s) (hkeep : c.level ≤ s.logLevel) (hlow : 3 < c.level) :
    Ready (s.log c e) ∧ (s.log c e).bufferSize = s.bufferSize + c.record.length ∧
      (s.log c e).thread = true ∧ (s.log c e).exited = s.exited := by
  obtain ⟨hready, hsize, -, hexited⟩ := h.append c
  rw [log_later h.1 hkeep hlow]
  exact ⟨hready, hsize, rfl, hexited⟩

theorem Ready.now (h : Ready s) (he : e.Works) (hkeep : c.level ≤ s.logLevel)
    (hhigh : c.level ≤ 3) :
    Ready (s.log c e) ∧ (s.log c e).bufferSize = 0 ∧ (s.log c e).thread = s.thread := by
  obtain ⟨hready, -, hthread, -⟩ := h.append c
  obtain ⟨hready', hsize, hthread'⟩ := hready.flush he
  rw [log_now h.1 hkeep hhigh]
  exact ⟨hready', hsize, hthread'.trans hthread⟩

theorem Ready.dropped (h : Ready s) (hdrop : s.logLevel < c.level) :
    Ready (s.log c e) ∧ (s.log c e).bufferSize = s.bufferSize ∧
      (s.log c e).thread = s.thread ∧ (s.log c e).exited = s.exited := by
  obtain ⟨hfits, hsize, honly, -⟩ :=
    (append_appends h.1 c).takeBack_spec h.1 (record_pos c)
  rw [log_dropped h.1 hdrop]
  unfold OnlyBuffer at honly
  refine ⟨⟨hfits, ?_⟩, hsize, ?_, ?_⟩
  · rw [honly]
    exact h.2
  · rw [honly]
  · rw [honly]

end LogState

/-! ## The invariant -/

variable {s t : LogWorld} {a : WriterAct}

/-- How many bytes the held records take. -/
def LogWorld.heldSize (s : LogWorld) : Nat := (s.held.map (·.record.length)).sum

/-- At most one writer is not done, the last one; while `_thread` is 0 there is none. -/
inductive LogWorld.Writers (s : LogWorld) : Prop
  | idle (n : Nat) : s.log.thread = false → s.held = [] →
      s.writers = List.replicate n .done → Writers s
  | flushing (n i : Nat) : s.log.thread = true →
      s.writers = List.replicate n .done ++ [.flush i] → Writers s
  | clearing (n : Nat) : s.log.thread = true → s.held = [] →
      s.writers = List.replicate n .done ++ [.clear] → Writers s

structure LogWorld.Sound (s : LogWorld) : Prop where
  ready : s.log.Ready
  size : s.log.bufferSize = s.heldSize
  exited : s.log.exited = true → s.held = []
  writers : s.Writers

theorem getElem?_last (n : Nat) (pc : WriterPc) :
    (List.replicate n WriterPc.done ++ [pc])[n]? = some pc := by
  rw [List.getElem?_append_right (by simp), List.length_replicate, Nat.sub_self]
  rfl

/-- Only the last writer still runs. -/
theorem eq_last {n w : Nat} {pc found : WriterPc}
    (h : (List.replicate n WriterPc.done ++ [pc])[w]? = some found) (hrun : found ≠ .done) :
    w = n ∧ found = pc := by
  rcases Nat.lt_trichotomy w n with hlt | rfl | hgt
  · rw [List.getElem?_append_left (by rwa [List.length_replicate]),
      List.getElem?_replicate_of_lt hlt] at h
    exact absurd (Option.some.inj h).symm hrun
  · rw [getElem?_last] at h
    exact ⟨rfl, (Option.some.inj h).symm⟩
  · rw [List.getElem?_eq_none (by
      rw [List.length_append, List.length_replicate, List.length_singleton]
      omega)] at h
    cases h

theorem set_last (n : Nat) (pc next : WriterPc) :
    (List.replicate n WriterPc.done ++ [pc]).set n next =
      List.replicate n .done ++ [next] := by
  rw [List.set_append_right _ _ (by simp), List.length_replicate, Nat.sub_self]
  rfl

theorem LogWorld.Sound.covered (h : s.Sound) : s.Covered := by
  unfold LogWorld.Covered
  intro hheld
  cases h.writers with
  | idle n _ hnil _ => exact absurd hnil hheld
  | clearing n _ hnil _ => exact absurd hnil hheld
  | flushing n i _ hwriters => exact ⟨n, i, hwriters ▸ getElem?_last n _⟩

theorem LogWorld.Sound.start (d0 : Bytes) : LogWorld.Sound { log := { disk := d0 } } where
  ready := ⟨⟨Nat.le_refl 0, .inr ⟨rfl, rfl⟩⟩, fun h => absurd h Bool.false_ne_true⟩
  size := rfl
  exited := fun _ => rfl
  writers := .idle 0 rfl rfl rfl

/-- A step that leaves the writers alone and holds nothing new. -/
theorem LogWorld.Writers.keep (h : s.Writers) (hheld : s.held = [] → t.held = [])
    (hwriters : t.writers = s.writers) (hthread : t.log.thread = s.log.thread) : t.Writers := by
  cases h with
  | idle n h1 h2 h3 => exact .idle n (hthread.trans h1) (hheld h2) (hwriters.trans h3)
  | flushing n i h1 h2 => exact .flushing n i (hthread.trans h1) (hwriters.trans h2)
  | clearing n h1 h2 h3 => exact .clearing n (hthread.trans h1) (hheld h2) (hwriters.trans h3)

theorem WriterPc.next_cases (i ret : Nat) :
    (∃ j, WriterPc.next i ret = .flush j) ∨ WriterPc.next i ret = .clear := by
  unfold WriterPc.next
  split
  · exact .inl ⟨i + 1, rfl⟩
  · split
    · exact .inl ⟨0, rfl⟩
    · exact .inr rfl

theorem LogWorld.Writers.running (h : s.Writers) {w : Nat} {pc : WriterPc}
    (hpc : s.writers[w]? = some pc) (hrun : pc ≠ .done) :
    s.log.thread = true ∧ (pc = .clear → s.held = []) ∧
      s.writers = List.replicate w .done ++ [pc] := by
  cases h with
  | idle n _ _ hwriters =>
    rw [hwriters] at hpc
    exact absurd (List.eq_of_mem_replicate (List.mem_of_getElem? hpc)) hrun
  | flushing n i hthread hwriters =>
    rw [hwriters] at hpc ⊢
    obtain ⟨rfl, rfl⟩ := eq_last hpc hrun
    exact ⟨hthread, nofun, rfl⟩
  | clearing n hthread hheld hwriters =>
    rw [hwriters] at hpc ⊢
    obtain ⟨rfl, rfl⟩ := eq_last hpc hrun
    exact ⟨hthread, fun _ => hheld, rfl⟩

/-! ## One step -/

theorem LogWorld.Sound.writer {w : Nat} {e : FlushEnv} (h : s.Sound) (he : e.Works)
    (hs : s.step (.writer w e) = some t) : t.Sound := by
  unfold LogWorld.step at hs
  split at hs
  · cases hs
  dsimp only at hs
  split at hs
  · next i hpc =>
    cases hs
    obtain ⟨hready, hsize, hthread⟩ := h.ready.flush he
    obtain ⟨hrun, -, hwriters⟩ := h.writers.running hpc nofun
    refine ⟨hready, ?_, fun _ => if_pos hsize, ?_⟩
    · unfold LogWorld.heldSize
      dsimp only
      rw [if_pos hsize]
      exact hsize
    · rcases WriterPc.next_cases i (s.log.flushBuffer e).2 with ⟨j, hnext⟩ | hnext
      · refine .flushing w j (hthread.trans hrun) ?_
        dsimp only
        rw [hwriters, set_last, hnext]
      · refine .clearing w (hthread.trans hrun) (if_pos hsize) ?_
        dsimp only
        rw [hwriters, set_last, hnext]
  · next hpc =>
    cases hs
    obtain ⟨-, hheld, hwriters⟩ := h.writers.running hpc nofun
    refine ⟨h.ready, h.size, h.exited, .idle (w + 1) rfl (hheld rfl) ?_⟩
    dsimp only
    rw [hwriters, set_last, List.replicate_succ']
  · cases hs

theorem LogWorld.Sound.log {c : LogCall} {e : FlushEnv} (h : s.Sound) (he : e.Works)
    (hin : s.InTime (.log c e)) (hs : s.step (.log c e) = some t) : t.Sound := by
  unfold LogWorld.step at hs
  split at hs
  · cases hs
  next hrunning =>
  dsimp only at hs
  split at hs
  · next hkeep =>
    split at hs
    · next hhigh =>
      cases hs
      obtain ⟨hready, hsize, hthread⟩ := h.ready.now he hkeep hhigh
      refine ⟨hready, ?_, fun _ => if_pos hsize, h.writers.keep (fun _ => if_pos hsize) rfl hthread⟩
      unfold LogWorld.heldSize
      dsimp only
      rw [if_pos hsize]
      exact hsize
    · next hhigh =>
      cases hs
      have hlow := Int.not_le.mp hhigh
      obtain ⟨hready, hsize, hthread, hexited⟩ := h.ready.later (e := e) hkeep hlow
      refine ⟨hready, ?_, fun hend => absurd (hexited.symm.trans hend) hrunning, ?_⟩
      · unfold LogWorld.heldSize
        dsimp only
        rw [hsize, h.size, List.map_append, List.sum_append, List.map_singleton,
          List.sum_singleton, LogWorld.heldSize]
      · cases h.writers with
        | idle n hidle _ hwriters =>
          -- a thread is created
          refine .flushing n 0 hthread ?_
          dsimp only
          rw [if_neg (by rw [hidle]; exact Bool.false_ne_true), hwriters]
        | flushing n i hrun hwriters =>
          refine .flushing n i hthread ?_
          dsimp only
          rw [if_pos hrun, hwriters]
        | clearing n _ _ hwriters =>
          refine absurd ?_ (hin hkeep hlow)
          rw [hwriters]
          exact List.mem_append_right _ (List.mem_singleton_self _)
  · next hkeep =>
    cases hs
    obtain ⟨hready, hsize, hthread, hexited⟩ :=
      h.ready.dropped (e := e) (Int.not_le.mp hkeep)
    exact ⟨hready, hsize.trans h.size, fun hend => h.exited (hexited.symm.trans hend),
      h.writers.keep id rfl hthread⟩

theorem LogWorld.Sound.step (h : s.Sound) (hworks : a.Works) (hin : s.InTime a)
    (hs : s.step a = some t) : t.Sound := by
  cases a with
  | log c e => exact h.log hworks hin hs
  | writer w e => exact h.writer hworks hs
  | config logLevel maxSize =>
    unfold LogWorld.step at hs
    split at hs
    · cases hs
    · cases hs
      exact ⟨h.ready, h.size, h.exited, h.writers.keep id rfl rfl⟩

/-- A record that comes too late for the writer is left in the buffer. -/
theorem LogWorld.Sound.late {c : LogCall} {e : FlushEnv} (h : s.Sound)
    (hlate : ¬ s.InTime (.log c e)) (hs : s.step (.log c e) = some t) : ¬ t.Covered := by
  unfold LogWorld.InTime at hlate
  dsimp only at hlate
  obtain ⟨hkeep, hlow, hclear⟩ : c.level ≤ s.log.logLevel ∧ 3 < c.level ∧ .clear ∈ s.writers := by
    grind
  obtain ⟨w, hw⟩ := List.mem_iff_getElem?.mp hclear
  obtain ⟨hrun, -, hwriters⟩ := h.writers.running hw nofun
  unfold LogWorld.step at hs
  split at hs
  · cases hs
  dsimp only at hs
  rw [if_pos hkeep, if_neg (Int.not_le.mpr hlow)] at hs
  cases hs
  intro hcovered
  obtain ⟨v, i, hv⟩ := hcovered (by simp)
  dsimp only at hv
  rw [hwriters] at hv
  obtain ⟨-, hpc⟩ := eq_last hv nofun
  cases hpc

/-- A writer with a flush ahead writes all that is held when it comes to it. -/
theorem LogWorld.Sound.flushes {w i : Nat} {e : FlushEnv} (h : s.Sound) (he : e.Works)
    (hheld : s.held ≠ []) (hw : s.writers[w]? = some (.flush i)) :
    ∃ t, s.step (.writer w e) = some t ∧ t.held = [] ∧ t.log.bufferSize = 0 := by
  obtain ⟨-, hsize, -⟩ := h.ready.flush he
  have hrunning : ¬ s.log.exited = true := fun hend => hheld (h.exited hend)
  unfold LogWorld.step
  rw [if_neg hrunning]
  dsimp only
  rw [hw]
  exact ⟨_, rfl, if_pos hsize, hsize⟩

/-! ## Runs -/

/-- As long as every record kept for the writer is logged in time, a held record has a writer
that will write it; a record that is not leaves none. -/
theorem writer_flushes_held (d0 : Bytes) :
    (∀ s, ReachIf LogWorld.step (fun s a => a.Works ∧ s.InTime a) { log := { disk := d0 } } s →
      s.Covered ∧ s.log.bufferSize = s.heldSize ∧
        ∀ (w i : Nat) (e : FlushEnv), e.Works → s.held ≠ [] → s.writers[w]? = some (.flush i) →
          ∃ t, s.step (.writer w e) = some t ∧ t.held = [] ∧ t.log.bufferSize = 0) ∧
      ∀ s a t, ReachIf LogWorld.step (fun s a => a.Works ∧ s.InTime a)
          { log := { disk := d0 } } s → a.Works → s.step a = some t →
        (t.Covered ↔ s.InTime a) := by
  have hsound {s : LogWorld} (h : ReachIf LogWorld.step (fun s a => a.Works ∧ s.InTime a)
      { log := { disk := d0 } } s) : s.Sound :=
    h.invariant (.start d0) fun t a u ht hok hs => ht.step hok.1 hok.2 hs
  refine ⟨fun s h => ⟨(hsound h).covered, (hsound h).size, ?_⟩, ?_⟩
  · exact fun w i e he hheld hw => (hsound h).flushes he hheld hw
  · intro s a t h hworks hs
    refine ⟨fun hcovered => ?_, fun hin => ((hsound h).step hworks hin hs).covered⟩
    by_contra hlate
    cases a with
    | log c e => exact (hsound h).late hlate hs hcovered
    | writer => exact hlate trivial
    | config => exact hlate trivial

/-- A warning, and the writer that was started for it. -/
theorem writer_flushes_held_warning :
    ∃ s : LogWorld, s.held = [sampleCall (ascii "slow") 4] ∧ 0 < s.log.bufferSize ∧
      ∃ w i : Nat, s.writers[w]? = some (.flush i) := by
  let e : FlushEnv := { accepts := fun _ => 512 }
  have hworks : e.Works := ⟨rfl, fun _ => Nat.succ_pos 511⟩
  obtain ⟨s, hs, hheld⟩ : ∃ s, LogWorld.step { log := { disk := [] } }
      (.log (sampleCall (ascii "slow") 4) e) = some s ∧
        s.held = [sampleCall (ascii "slow") 4] := ⟨_, rfl, rfl⟩
  have hin : LogWorld.InTime { log := { disk := [] } }
      (.log (sampleCall (ascii "slow") 4) e) := fun _ _ => List.not_mem_nil
  have hreach : ReachIf LogWorld.step (fun s a => a.Works ∧ s.InTime a)
      { log := { disk := [] } } s :=
    .single (a := .log (sampleCall (ascii "slow") 4) e) ⟨hworks, hin⟩ hs
  obtain ⟨hcovered, hsize, -⟩ := (writer_flushes_held []).1 s hreach
  refine ⟨s, hheld, ?_, hcovered (by rw [hheld]; exact List.cons_ne_nil _ _)⟩
  rw [hsize]
  unfold LogWorld.heldSize
  rw [hheld]
  exact record_pos (sampleCall (ascii "slow") 4)

/-- The first warning is written in the first round; the second one comes after the last
flush of that round and before `_thread` is cleared, so it starts no thread. -/
theorem writer_misses_late :
    ∃ s : LogWorld, ReachIf LogWorld.step (fun _ a => a.Works) {} s ∧
      s.held = [sampleCall (ascii "late") 4] ∧ 0 < s.log.bufferSize ∧
      s.log.thread = false ∧ ¬ s.Covered := by
  let e : FlushEnv := { accepts := fun _ => 512 }
  have hworks : e.Works := ⟨rfl, fun _ => Nat.succ_pos 511⟩
  obtain ⟨s, hreach, hend⟩ := reachIf_of_any LogWorld.step (fun _ a => a.Works) {}
    (.log (sampleCall (ascii "slow") 4) e ::
      (List.replicate 120 (WriterAct.writer 0 e) ++
        [.log (sampleCall (ascii "late") 4) e, .writer 0 e]))
    (fun s => decide (s.held = [sampleCall (ascii "late") 4] ∧ 0 < s.log.bufferSize ∧
      s.log.thread = false ∧ s.writers = [.done]))
    (by
      intro a ha _
      rcases List.mem_cons.mp ha with rfl | ha
      · exact hworks
      · rcases List.mem_append.mp ha with ha | ha
        · obtain rfl := List.eq_of_mem_replicate ha
          exact hworks
        · rcases List.mem_pair.mp ha with rfl | rfl <;> exact hworks)
    (by decide +kernel)
  obtain ⟨hheld, hsize, hthread, hwriters⟩ := of_decide_eq_true hend
  refine ⟨s, hreach, hheld, hsize, hthread, fun hcovered => ?_⟩
  obtain ⟨w, i, hw⟩ := hcovered (by rw [hheld]; exact List.cons_ne_nil _ _)
  rw [hwriters] at hw
  cases List.mem_singleton.mp (List.mem_of_getElem? hw)

end VideoPlayerCore
