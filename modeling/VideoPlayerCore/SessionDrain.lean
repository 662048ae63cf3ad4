import VideoPlayerCore.SessionSteps

/-!
# Every iteration drains before the next one starts

NULL follows the packets of an iteration through both queues of a stream, so when
the display thread calls `onEof` the pipe has nothing left to give, and the reader
waits for both calls before it seeks.

    Inv l, eofCalls ≠ 0 → the log is complete and the queues are empty  (Lane.Inv.complete)
    every filed log is complete, what the current one has taken is the
    beginning of what its packets decode to, no flag is older than it   (iterations_drain)

A stream passes through the stages of its iteration with the reader; its own
coroutines leave every stage standing                                   (Lane.Moves.at)
-/

namespace VideoPlayerCore

open Machine

variable {P F B : Type}

/-! ## One stream -/

/-- The display thread holds NULL and has not called `onEof`. -/
def Display.isEnding : Display F → Bool
  | .ending => true
  | _ => false

/-- The finished log of a stream: one `onEof`, after all frames of the packets. -/
structure StreamLog.Complete (C : Codec P F) (log : StreamLog P F) : Prop where
  marked : log.marked = true
  taken : log.taken = (C.framesOf log.packets).map some ++ [none]
  eofCalls : log.eofCalls = 1

namespace Lane

variable {C : Codec P F} {l m : Lane C}

/-- The frames are conserved, and every NULL taken is one call of `onEof`, made or to
come. -/
structure Inv (l : Lane C) : Prop where
  carries : l.pipe.Carries l.log.fed l.log.taken
  calls : l.log.eofCalls + l.display.isEnding.toNat = l.log.taken.countP Option.isNone

theorem inv_start : Inv ({} : Lane C) := ⟨Pipe.carries_start, rfl⟩

/-- Before NULL is written nobody sees it. -/
theorem Inv.unmarked (hi : l.Inv) (hm : l.log.marked = false) :
    l.log.eofCalls = 0 ∧ l.display.isEnding = false := by
  have hcarries := hi.carries
  unfold StreamLog.fed at hcarries
  rw [hm, if_neg Bool.false_ne_true, List.append_nil] at hcarries
  have hzero : l.log.taken.countP Option.isNone = 0 := by
    rw [List.countP_eq_zero]
    intro item hitem hnone
    rw [Option.isNone_iff_eq_none.mp hnone] at hitem
    exact hcarries.none_notMem hitem
  have hcalls := hi.calls
  rw [hzero] at hcalls
  refine ⟨by omega, ?_⟩
  cases hend : l.display.isEnding with
  | false => rfl
  | true =>
    rw [hend, Bool.toNat_true] at hcalls
    omega

/-- Once NULL is taken the stream is drained. -/
theorem Inv.drained (hi : l.Inv) (hmem : none ∈ l.log.taken) :
    l.log.marked = true ∧ l.pipe.packetQueue = [] ∧ l.pipe.frameQueue = [] ∧
      l.pipe.pending = [] ∧ l.log.taken = (C.framesOf l.log.packets).map some ++ [none] := by
  have hcarries := hi.carries
  unfold StreamLog.fed at hcarries
  cases hm : l.log.marked with
  | false =>
    rw [hm, if_neg Bool.false_ne_true, List.append_nil] at hcarries
    exact absurd hmem hcarries.none_notMem
  | true =>
    rw [hm, if_pos rfl] at hcarries
    exact ⟨rfl, hcarries.drained hmem⟩

theorem countP_marked {xs : List F} : (xs.map some ++ [none]).countP Option.isNone = 1 := by
  rw [List.countP_append, List.countP_map]
  have hzero : xs.countP (Option.isNone ∘ some) = 0 := by
    rw [List.countP_eq_zero]
    intro x _
    exact Bool.false_ne_true
  rw [hzero]
  rfl

/-- `onEof` was called: the log is finished and the queues are empty. -/
theorem Inv.complete (hi : l.Inv) (hc : l.log.eofCalls ≠ 0) :
    l.log.Complete C ∧ l.display.isEnding = false ∧ l.pipe.packetQueue = [] ∧
      l.pipe.frameQueue = [] := by
  have hcalls := hi.calls
  have hpos : 0 < l.log.taken.countP Option.isNone := by omega
  obtain ⟨item, hitem, hnone⟩ := List.countP_pos_iff.mp hpos
  rw [Option.isNone_iff_eq_none.mp hnone] at hitem
  obtain ⟨hm, hpq, hfq, -, htaken⟩ := hi.drained hitem
  rw [htaken, countP_marked] at hcalls
  have hone : l.log.eofCalls = 1 := by omega
  refine ⟨⟨hm, htaken, hone⟩, ?_, hpq, hfq⟩
  cases hend : l.display.isEnding with
  | false => rfl
  | true =>
    rw [hend, Bool.toNat_true] at hcalls
    omega

theorem Inv.eofCalls_le (hi : l.Inv) : l.log.eofCalls ≤ 1 := by
  by_cases hc : l.log.eofCalls = 0
  · omega
  · exact Nat.le_of_eq (hi.complete hc).1.eofCalls

/-- The seek of the restart branch files the finished log. -/
theorem Inv.newLog (hi : l.Inv) (hc : l.log.eofCalls ≠ 0) : l.newLog.Inv := by
  obtain ⟨hlog, hend, -, -⟩ := hi.complete hc
  have hcarries := hi.carries
  unfold StreamLog.fed at hcarries
  rw [hlog.marked, if_pos rfl] at hcarries
  refine ⟨hcarries.restart ?_, ?_⟩
  · rw [hlog.taken]
    exact List.mem_append_right _ (List.mem_singleton.mpr rfl)
  · show 0 + l.display.isEnding.toNat = 0
    rw [hend]
    rfl

/-- A `write` that the log allows: no packet behind NULL. -/
theorem Inv.write {pkt : Option P} (hi : l.Inv) (hm : l.log.marked = false)
    (h : l.write pkt = some m) : m.Inv := by
  obtain ⟨pipe, hpipe, rfl⟩ := Option.map_eq_some_iff.mp h
  have hcarries := hi.carries.write hpipe
  refine ⟨?_, ?_⟩
  · show pipe.Carries (l.log.write pkt).fed (l.log.write pkt).taken
    unfold StreamLog.fed at hcarries ⊢
    cases pkt <;> simpa [StreamLog.write, hm] using hcarries
  · cases pkt <;> exact hi.calls

/-! ## What a coroutine of the stream can do -/

/-- A step of the stream's decoder or display thread: it writes no packet, and if it
calls `onEof` it was about to. -/
structure Moves (l m : Lane C) : Prop where
  inv : m.Inv
  packets : m.log.packets = l.log.packets
  marked : m.log.marked = l.log.marked
  eof : (m.eof = l.eof ∧ m.log.eofCalls = l.log.eofCalls) ∨
    (l.display.isEnding = true ∧ m.eof = true ∧ m.log.eofCalls = l.log.eofCalls + 1)

theorem Inv.decode {room : Nat} (hi : l.Inv) (h : l.decode room = some m) : l.Moves m := by
  obtain ⟨pipe, hpipe, rfl⟩ := Option.map_eq_some_iff.mp h
  exact ⟨⟨hi.carries.decoderStep hpipe, hi.calls⟩, rfl, rfl, .inl ⟨rfl, rfl⟩⟩

theorem Inv.take (hi : l.Inv) (h : l.take = some m) : l.Moves m := by
  unfold Lane.take at h
  split at h
  · next item pipe hd ht =>
    obtain rfl := Option.some.inj h
    refine ⟨⟨?_, ?_⟩, rfl, rfl, .inl ⟨rfl, rfl⟩⟩
    · exact hi.carries.takeFrame ht
    · have hcalls := hi.calls
      rw [hd] at hcalls
      show l.log.eofCalls + _ = (l.log.taken ++ [item]).countP Option.isNone
      rw [List.countP_append, ← hcalls]
      cases item <;> rfl
  · cases h

theorem Inv.release (hi : l.Inv) (h : l.release = some m) : l.Moves m := by
  unfold Lane.release at h
  split at h
  · next hd =>
    obtain rfl := Option.some.inj h
    have hcalls := hi.calls
    rw [hd] at hcalls
    exact ⟨⟨hi.carries, hcalls⟩, rfl, rfl, .inl ⟨rfl, rfl⟩⟩
  · cases h

theorem Inv.raiseEof {next : Display F} (hi : l.Inv) (hnext : next.isEnding = false)
    (h : l.raiseEof next = some m) : l.Moves m := by
  unfold Lane.raiseEof at h
  split at h
  · next hd =>
    obtain rfl := Option.some.inj h
    have hcalls := hi.calls
    rw [hd] at hcalls
    refine ⟨⟨hi.carries, ?_⟩, rfl, rfl, .inr ⟨by rw [hd]; rfl, rfl, rfl⟩⟩
    show l.log.eofCalls + 1 + next.isEnding.toNat = _
    rw [hnext]
    exact hcalls
  · cases h

/-! ## The stages of an iteration -/

/-- How far an iteration is on a stream. -/
inductive Stage
  | feeding
  | marked
  /-- the reader has seen the flag -/
  | done
  /-- after the seek, with the old flag -/
  | stale
  | cleared

/-- What a stage says of its stream. -/
def At (l : Lane C) : Stage → Prop
  | .feeding => l.log.marked = false ∧ l.eof = false
  | .marked => l.log.marked = true ∧ (l.eof = true → l.log.eofCalls ≠ 0)
  | .done => l.log.eofCalls ≠ 0
  | .stale => l.log.marked = false ∧ l.log.packets = []
  | .cleared => l.log.marked = false ∧ l.log.packets = [] ∧ l.eof = false

/-- The stream's own coroutines leave every stage standing. -/
theorem Moves.at {stage : Stage} (hm : l.Moves m) (hi : l.Inv) (h : l.At stage) :
    m.At stage := by
  have hquiet : l.log.marked = false → m.eof = l.eof := by
    intro hmarked
    rcases hm.eof with ⟨heof, -⟩ | ⟨hend, -, -⟩
    · exact heof
    · rw [(hi.unmarked hmarked).2] at hend
      cases hend
  cases stage with
  | feeding => exact ⟨hm.marked ▸ h.1, (hquiet h.1) ▸ h.2⟩
  | marked =>
    refine ⟨hm.marked ▸ h.1, fun heof => ?_⟩
    rcases hm.eof with ⟨h1, h2⟩ | ⟨-, -, h2⟩
    · rw [h2]
      exact h.2 (h1 ▸ heof)
    · omega
  | done =>
    have hne : l.log.eofCalls ≠ 0 := h
    show m.log.eofCalls ≠ 0
    rcases hm.eof with ⟨-, h2⟩ | ⟨-, -, h2⟩ <;> omega
  | stale => exact ⟨hm.marked ▸ h.1, hm.packets ▸ h.2⟩
  | cleared => exact ⟨hm.marked ▸ h.1, hm.packets ▸ h.2.1, (hquiet h.1) ▸ h.2.2⟩

theorem Inv.marked_of_done (hi : l.Inv) (h : l.At .done) : l.At .marked :=
  ⟨(hi.complete h).1.marked, fun _ => h⟩

theorem At.write {pkt : Option P} (h : l.At .feeding) (hw : l.write pkt = some m) :
    m.At (if pkt.isNone then .marked else .feeding) := by
  obtain ⟨pipe, -, rfl⟩ := Option.map_eq_some_iff.mp hw
  cases pkt with
  | none => exact ⟨rfl, fun heof => absurd (h.2.symm.trans heof) Bool.false_ne_true⟩
  | some pkt => exact h

end Lane

/-! ## The session -/

namespace Session

variable {V : Codec P VideoFrame} {A : Codec P B} {cfg : SessionConfig} {s t : Session V A}

open Lane

def videoStage (s : Session V A) : Stage :=
  match s.reader with
  | .reading | .writingVideo _ | .writingAudio _ | .markingVideo => .feeding
  | .markingAudio | .checkVideo => .marked
  | .checkAudio | .restart .seek => .done
  | .restart .clearAudioEof | .restart .setType => .cleared
  | .restart _ => .stale
  | _ => if s.eof then .marked else .feeding

def audioStage (s : Session V A) : Stage :=
  match s.reader with
  | .reading | .writingVideo _ | .writingAudio _ | .markingVideo | .markingAudio => .feeding
  | .checkVideo | .checkAudio => .marked
  | .restart .seek => .done
  | .restart .setType => .cleared
  | .restart _ => .stale
  | _ => if s.eof then .marked else .feeding

/-- The reader's `eof` where the code does not look at it. -/
def EofHolds (s : Session V A) : Prop :=
  match s.reader with
  | .reading | .writingVideo _ | .writingAudio _ => s.eof = false
  | .markingVideo | .markingAudio | .checkVideo | .checkAudio => s.eof = true
  | .restart .seek | .restart .clearEof => True
  | .restart _ => s.eof = false
  | _ => True

structure Inv (s : Session V A) : Prop where
  video : s.video.Inv
  audio : s.audio.Inv
  videoAt : s.video.At s.videoStage
  audioAt : s.audio.At s.audioStage
  eof : s.EofHolds
  past : ∀ logs ∈ s.past, logs.1.Complete V ∧ logs.2.Complete A

theorem inv_start : Inv ({} : Session V A) where
  video := Lane.inv_start
  audio := Lane.inv_start
  videoAt := ⟨rfl, rfl⟩
  audioAt := ⟨rfl, rfl⟩
  eof := trivial
  past := by
    intro logs hlogs
    cases hlogs

/-- Clocks, pause and stop do not enter the invariant. -/
theorem Inv.withClocks (hi : s.Inv) (sync : ClockSync) (isAlive isPaused : Bool) :
    Inv { s with sync := sync, isAlive := isAlive, isPaused := isPaused } :=
  ⟨hi.video, hi.audio, hi.videoAt, hi.audioAt, hi.eof, hi.past⟩

theorem Inv.onVideo {f : Lane V → Option (Lane V)} (hi : s.Inv)
    (hf : ∀ l, f s.video = some l → s.video.Moves l) (h : s.onVideo cfg f = some t) :
    t.Inv := by
  unfold Session.onVideo at h
  split at h
  · obtain ⟨l, hl, rfl⟩ := Option.map_eq_some_iff.mp h
    have hm := hf l hl
    exact ⟨hm.inv, hi.audio, hm.at hi.video hi.videoAt, hi.audioAt, hi.eof, hi.past⟩
  · cases h

theorem Inv.onAudio {f : Lane A → Option (Lane A)} (hi : s.Inv)
    (hf : ∀ l, f s.audio = some l → s.audio.Moves l) (h : s.onAudio cfg f = some t) :
    t.Inv := by
  unfold Session.onAudio at h
  split at h
  · obtain ⟨l, hl, rfl⟩ := Option.map_eq_some_iff.mp h
    have hm := hf l hl
    exact ⟨hi.video, hm.inv, hi.videoAt, hm.at hi.audio hi.audioAt, hi.eof, hi.past⟩
  · cases h

/-- The reader is back at the loop head, before the end of the file. -/
theorem Inv.ofFeeding (hr : s.reader = .top ∨ s.reader = .left) (he : s.eof = false)
    (hv : s.video.Inv) (ha : s.audio.Inv) (hvAt : s.video.At .feeding)
    (haAt : s.audio.At .feeding)
    (hp : ∀ logs ∈ s.past, logs.1.Complete V ∧ logs.2.Complete A) : s.Inv := by
  rcases hr with hr | hr <;>
    exact ⟨hv, ha, by simpa [videoStage, hr, he] using hvAt,
      by simpa [audioStage, hr, he] using haAt, by simp [EofHolds, hr], hp⟩

/-- The reader is back at the loop head, behind the end of the file. -/
theorem Inv.ofMarked (hr : s.reader = .top) (he : s.eof = true)
    (hv : s.video.Inv) (ha : s.audio.Inv) (hvAt : s.video.At .marked)
    (haAt : s.audio.At .marked)
    (hp : ∀ logs ∈ s.past, logs.1.Complete V ∧ logs.2.Complete A) : s.Inv :=
  ⟨hv, ha, by simpa [videoStage, hr, he] using hvAt,
    by simpa [audioStage, hr, he] using haAt, by simp [EofHolds, hr], hp⟩

/-- The restart branch, assignment by assignment. -/
theorem Inv.restartStep {r : Restart} (hi : s.Inv) (hr : s.reader = .restart r) :
    (s.restartStep r).Inv := by
  have hv := hi.videoAt
  have ha := hi.audioAt
  have he := hi.eof
  cases r <;> simp only [videoStage, audioStage, EofHolds, hr] at hv ha he
  case seek =>
    have hvc := hi.video.complete hv
    have hac := hi.audio.complete ha
    refine ⟨hi.video.newLog hv, hi.audio.newLog ha, ⟨rfl, rfl⟩, ⟨rfl, rfl⟩, trivial, ?_⟩
    intro logs hlogs
    rcases List.mem_append.mp hlogs with hold | hnew
    · exact hi.past logs hold
    · obtain rfl := List.mem_singleton.mp hnew
      exact ⟨hvc.1, hac.1⟩
  case clearVideoEof =>
    exact ⟨⟨hi.video.carries, hi.video.calls⟩, hi.audio, ⟨hv.1, hv.2, rfl⟩, ha, he, hi.past⟩
  case clearAudioEof =>
    exact ⟨hi.video, ⟨hi.audio.carries, hi.audio.calls⟩, hv, ⟨ha.1, ha.2, rfl⟩, he, hi.past⟩
  case setType =>
    exact .ofFeeding (.inl rfl) he hi.video hi.audio ⟨hv.1, hv.2.2⟩ ⟨ha.1, ha.2.2⟩ hi.past
  case clearEof => exact ⟨hi.video, hi.audio, hv, ha, rfl, hi.past⟩
  all_goals exact ⟨hi.video, hi.audio, hv, ha, he, hi.past⟩

theorem Inv.readerStep (hi : s.Inv) (hcfg : cfg.videoOpen = true ∧ cfg.audioOpen = true)
    (h : s.readerStep cfg = some t) : t.Inv := by
  have hv := hi.videoAt
  have ha := hi.audioAt
  have he := hi.eof
  unfold Session.readerStep at h
  cases hr : s.reader with
  | setType | setVideoDisabled | setAudioDisabled =>
    simp only [hr] at h
    cases h
    simp only [videoStage, audioStage, hr] at hv ha
    exact ⟨hi.video, hi.audio, hv, ha, trivial, hi.past⟩
  | top =>
    simp only [hr] at h
    simp only [videoStage, audioStage, hr] at hv ha
    split at h
    · split at h
      · cases h
        exact hi
      · split at h
        · next heof =>
          cases h
          rw [if_pos heof] at hv ha
          exact ⟨hi.video, hi.audio, hv, ha, heof, hi.past⟩
        · next heof =>
          cases h
          rw [if_neg heof] at hv ha
          exact ⟨hi.video, hi.audio, hv, ha, Bool.eq_false_iff.mpr heof, hi.past⟩
    · cases h
      exact ⟨hi.video, hi.audio, hv, ha, trivial, hi.past⟩
  | reading => simp [hr] at h
  | writingVideo pkt =>
    simp only [hr] at h
    simp only [videoStage, audioStage, EofHolds, hr] at hv ha he
    obtain ⟨l, hl, rfl⟩ := Option.map_eq_some_iff.mp h
    exact .ofFeeding (.inl rfl) he (hi.video.write hv.1 hl) hi.audio (hv.write hl) ha hi.past
  | writingAudio pkt =>
    simp only [hr] at h
    simp only [videoStage, audioStage, EofHolds, hr] at hv ha he
    obtain ⟨l, hl, rfl⟩ := Option.map_eq_some_iff.mp h
    exact .ofFeeding (.inl rfl) he hi.video (hi.audio.write ha.1 hl) hv (ha.write hl) hi.past
  | markingVideo =>
    simp only [hr] at h
    simp only [videoStage, audioStage, EofHolds, hr] at hv ha he
    obtain ⟨l, hl, rfl⟩ := Option.map_eq_some_iff.mp h
    exact ⟨hi.video.write hv.1 hl, hi.audio, hv.write hl, ha, he, hi.past⟩
  | markingAudio =>
    simp only [hr] at h
    simp only [videoStage, audioStage, EofHolds, hr] at hv ha he
    obtain ⟨l, hl, rfl⟩ := Option.map_eq_some_iff.mp h
    exact .ofMarked rfl he hi.video (hi.audio.write ha.1 hl) hv (ha.write hl) hi.past
  | checkVideo =>
    simp only [hr, hcfg.1, Bool.not_true, Bool.false_or] at h
    simp only [videoStage, audioStage, EofHolds, hr] at hv ha he
    split at h
    · next hflag =>
      cases h
      exact ⟨hi.video, hi.audio, hv.2 hflag, ha, he, hi.past⟩
    · cases h
      exact .ofMarked rfl he hi.video hi.audio hv ha hi.past
  | checkAudio =>
    simp only [hr, hcfg.2, Bool.not_true, Bool.false_or] at h
    simp only [videoStage, audioStage, EofHolds, hr] at hv ha he
    split at h
    · next hflag =>
      cases h
      exact ⟨hi.video, hi.audio, hv, ha.2 (Bool.and_eq_true_iff.mp hflag).1, trivial, hi.past⟩
    · cases h
      exact .ofMarked rfl he hi.video hi.audio (hi.video.marked_of_done hv) ha hi.past
  | restart r =>
    simp only [hr] at h
    cases h
    exact hi.restartStep hr
  | left => simp [hr] at h

theorem Inv.readFrame {r : ReadResult P} (hi : s.Inv) (h : s.readFrame cfg r = some t) :
    t.Inv := by
  have hr : s.reader = .reading := by
    cases hr : s.reader <;> first | rfl | simp [Session.readFrame, hr] at h
  have hv := hi.videoAt
  have ha := hi.audioAt
  have he := hi.eof
  simp only [videoStage, audioStage, EofHolds, hr] at hv ha he
  cases r <;> simp only [Session.readFrame, hr] at h <;> cases h
  case videoPacket pkt =>
    split
    · exact ⟨hi.video, hi.audio, hv, ha, he, hi.past⟩
    · exact .ofFeeding (.inl rfl) he hi.video hi.audio hv ha hi.past
  case audioPacket pkt =>
    split
    · exact ⟨hi.video, hi.audio, hv, ha, he, hi.past⟩
    · exact .ofFeeding (.inl rfl) he hi.video hi.audio hv ha hi.past
  case otherPacket => exact .ofFeeding (.inl rfl) he hi.video hi.audio hv ha hi.past
  case endOfFile => exact ⟨hi.video, hi.audio, hv, ha, rfl, hi.past⟩
  case error => exact .ofFeeding (.inr rfl) he hi.video hi.audio hv ha hi.past

theorem Inv.step {a : SessionAct P} (hi : s.Inv)
    (hcfg : cfg.videoOpen = true ∧ cfg.audioOpen = true) (h : s.step cfg a = some t) :
    t.Inv := by
  cases a with
  | reader => exact hi.readerStep hcfg h
  | readFrame r => exact hi.readFrame h
  | decodeVideo => exact hi.onVideo (fun l hl => hi.video.decode hl) h
  | decodeAudio => exact hi.onAudio (fun l hl => hi.audio.decode hl) h
  | takeVideo => exact hi.onVideo (fun l hl => hi.video.take hl) h
  | takeAudio => exact hi.onAudio (fun l hl => hi.audio.take hl) h
  | calVideoDelay now =>
    simp only [Session.step] at h
    split at h
    · cases h
      exact hi.withClocks _ s.isAlive s.isPaused
    · cases h
  | calAudioDelay now pts =>
    simp only [Session.step] at h
    split at h
    · cases h
      exact hi.withClocks _ s.isAlive s.isPaused
    · cases h
  | dropFrame => exact hi.onVideo (fun l hl => hi.video.release hl) h
  | showFrame now =>
    simp only [Session.step] at h
    split at h
    · next f _ =>
      have hclocks := hi.withClocks (s.sync.updateVideoPts now (some (f.time cfg.timeBase)))
        s.isAlive s.isPaused
      exact hclocks.onVideo (fun l hl => hi.video.release hl) h
    · cases h
  | blocksDone => exact hi.onAudio (fun l hl => hi.audio.release hl) h
  | videoEof => exact hi.onVideo (fun l hl => hi.video.raiseEof rfl hl) h
  | audioEof => exact hi.onAudio (fun l hl => hi.audio.raiseEof rfl hl) h
  | audioAbsolute =>
    simp only [Session.step] at h
    split at h
    · next hd =>
      cases h
      have hcalls := hi.audio.calls
      rw [hd] at hcalls
      exact ⟨hi.video, ⟨hi.audio.carries, hcalls⟩, hi.videoAt, hi.audioAt, hi.eof, hi.past⟩
    · cases h
  | audioCallback now pts =>
    cases h
    exact hi.withClocks _ s.isAlive s.isPaused
  | setIsPaused value =>
    cases h
    exact hi.withClocks s.sync s.isAlive value
  | stop =>
    cases h
    exact hi.withClocks s.sync false s.isPaused

end Session

/-! ## What every run does -/

/-- Neither a stop request nor a read error. -/
def SessionAct.Undisturbed : SessionAct P → Prop
  | .stop | .readFrame .error => False
  | _ => True

instance : (a : SessionAct P) → Decidable a.Undisturbed
  | .stop | .readFrame .error => .isFalse id
  | .readFrame (.videoPacket _) | .readFrame (.audioPacket _) | .readFrame .otherPacket
  | .readFrame .endOfFile
  | .reader | .decodeVideo | .decodeAudio | .takeVideo | .takeAudio | .calVideoDelay _
  | .calAudioDelay _ _ | .dropFrame | .showFrame _ | .blocksDone | .videoEof | .audioEof
  | .audioAbsolute | .audioCallback _ _ | .setIsPaused _ => .isTrue trivial

/-- An iteration that is still going on. -/
structure StreamLog.Ongoing (C : Codec P F) (log : StreamLog P F) : Prop where
  begins : log.taken <+: C.outputs C.fresh log.fed
  once : log.eofCalls ≤ 1
  complete : log.eofCalls = 1 → log.Complete C

structure Session.IterationsDrain {V : Codec P VideoFrame} {A : Codec P B}
    (s : Session V A) : Prop where
  /-- One `onEof` call for each stream of a completed iteration, after all its frames. -/
  past : ∀ logs ∈ s.past, logs.1.Complete V ∧ logs.2.Complete A
  video : s.video.log.Ongoing V
  audio : s.audio.log.Ongoing A
  /-- At the restart all four queues are empty. -/
  restart : s.reader = .restart .seek →
    s.video.pipe.packetQueue = [] ∧ s.video.pipe.frameQueue = [] ∧
      s.audio.pipe.packetQueue = [] ∧ s.audio.pipe.frameQueue = []
  /-- A flag the reader can see is of this iteration. -/
  flags : (∀ r, s.reader ≠ .restart r) →
    (s.video.eof = true → s.video.log.eofCalls = 1) ∧
      (s.audio.eof = true → s.audio.log.eofCalls = 1)

namespace Lane

variable {C : Codec P F} {l : Lane C}

theorem Inv.ongoing (hi : l.Inv) : l.log.Ongoing C where
  begins := hi.carries.taken_begins
  once := hi.eofCalls_le
  complete := fun h => (hi.complete (by omega)).1

theorem At.flag {stage : Stage} (hi : l.Inv) (h : l.At stage)
    (hstage : stage ≠ .stale ∧ stage ≠ .cleared) (heof : l.eof = true) :
    l.log.eofCalls = 1 := by
  have hle := hi.eofCalls_le
  cases stage with
  | feeding => exact absurd (h.2.symm.trans heof) Bool.false_ne_true
  | marked =>
    have hne := h.2 heof
    omega
  | done =>
    have hne : l.log.eofCalls ≠ 0 := h
    omega
  | stale => exact absurd rfl hstage.1
  | cleared => exact absurd rfl hstage.2

end Lane

namespace Session

variable {V : Codec P VideoFrame} {A : Codec P B} {s : Session V A}

theorem stages_of_not_restart (h : ∀ r, s.reader ≠ .restart r) :
    (s.videoStage ≠ .stale ∧ s.videoStage ≠ .cleared) ∧
      (s.audioStage ≠ .stale ∧ s.audioStage ≠ .cleared) := by
  unfold videoStage audioStage
  cases hr : s.reader with
  | restart r => exact absurd hr (h r)
  | setType | setVideoDisabled | setAudioDisabled | top | left =>
    cases s.eof <;> simp
  | _ => simp

theorem Inv.drain (hi : s.Inv) : s.IterationsDrain where
  past := hi.past
  video := hi.video.ongoing
  audio := hi.audio.ongoing
  restart := by
    intro hr
    have hv := hi.videoAt
    have ha := hi.audioAt
    simp only [videoStage, audioStage, hr] at hv ha
    obtain ⟨-, -, hvp, hvf⟩ := hi.video.complete hv
    obtain ⟨-, -, hap, haf⟩ := hi.audio.complete ha
    exact ⟨hvp, hvf, hap, haf⟩
  flags := by
    intro hr
    obtain ⟨hv, ha⟩ := stages_of_not_restart hr
    exact ⟨hi.videoAt.flag hi.video hv, hi.audioAt.flag hi.audio ha⟩

end Session

/-- Both streams open, no stop request and no read error: whatever the order of the
steps, every iteration drains before the next one starts. -/
theorem iterations_drain {V : Codec P VideoFrame} {A : Codec P B} (cfg : SessionConfig)
    (hcfg : cfg.videoOpen = true ∧ cfg.audioOpen = true) (s : Session V A)
    (h : ReachIf (Session.step cfg) (fun _ a => a.Undisturbed) {} s) : s.IterationsDrain :=
  (h.invariant Session.inv_start fun _ _ _ hi _ hs => hi.step hcfg hs).drain

/-- One video packet, end of file, restart. -/
def oneIteration : List (SessionAct Unit) :=
  [.reader, .reader, .reader, .reader, .readFrame (.videoPacket ()), .reader, .reader,
    .readFrame .endOfFile, .reader, .reader,
    .decodeVideo, .decodeVideo, .decodeVideo, .takeVideo, .dropFrame,
    .decodeVideo, .decodeVideo, .decodeVideo, .decodeVideo, .takeVideo, .videoEof,
    .decodeAudio, .decodeAudio, .decodeAudio, .takeAudio, .audioEof,
    .reader, .reader, .reader, .reader]

theorem iterations_drain_one :
    ∃ s : Session (frameCodec ⟨some 0, 1⟩) (frameCodec ()),
      s.past.map (fun logs => logs.1.taken) = [[some ⟨some 0, 1⟩, none]] ∧
        s.IterationsDrain := by
  obtain ⟨s, hs, hp⟩ := reach_of_any
    (guarded (Session.step (V := frameCodec ⟨some 0, 1⟩) (A := frameCodec ())
      ⟨true, true, true, 1⟩) (fun _ a => a.Undisturbed)) {} oneIteration
    (fun s => s.past.map (fun logs => logs.1.taken) = [[some ⟨some 0, 1⟩, none]]) (by decide)
  exact ⟨s, by simpa using hp,
    iterations_drain ⟨true, true, true, 1⟩ ⟨rfl, rfl⟩ s (reachIf_of_guarded hs)⟩

end VideoPlayerCore
