import VideoPlayerCore.ClockWaits
import VideoPlayerCore.SessionSteps

/-!
# The flags of the clocks over the restarts

The reader sets `isDisabled` of both clocks and the master once, before its loop.
`ClockSync::reset()` builds fresh, enabled clocks, and the restart branch then takes
AUDIO for the master; neither looks at the streams that are there.

    every state of the loop has the right flags ↔
      both streams are open or the session never restarts      (clock_flags_iff)

A session always can restart: a file without packets ends both streams it has
(Session.reach_restart).
-/

namespace VideoPlayerCore

open Machine

variable {P F B : Type}

/-! ## A stream can always end -/

inductive LaneAct
  | decode
  | take
  | release
  | raiseEof

namespace Lane

variable {C : Codec P F} (room : Nat) (next : Display F)

/-- The stream's decoder and display thread alone. -/
def step (l : Lane C) : LaneAct → Option (Lane C)
  | .decode => l.decode room
  | .take => l.take
  | .release => l.release
  | .raiseEof => l.raiseEof next

/-- From the last receive loop on: one frame after the other, then NULL. -/
theorem ends_of_emitting (hroom : 0 < room) (frames : List F) (l : Lane C)
    (hd : l.pipe.decoder = .emitting true frames) (hq : l.pipe.frameQueue = [])
    (hp : l.display = .polling) : ∃ m, Reach (step room next) l m ∧ m.eof = true := by
  induction frames generalizing l with
  | nil =>
    refine reach_of_any (step room next) l [.decode, .take, .raiseEof] (fun m => m.eof) ?_
    simp [exec, step, Lane.decode, Lane.take, Lane.raiseEof, Pipe.decoderStep, Pipe.onFrame,
      Pipe.takeFrame, hd, hq, hp, hroom]
  | cons f frames ih =>
    have hpresent : exec (step room next) l [.decode, .take, .release] = some { l with
        pipe := { l.pipe with frameQueue := [], decoder := .emitting true frames }
        display := .polling
        log := { l.log with taken := l.log.taken ++ [some f] } } := by
      simp [exec, step, Lane.decode, Lane.take, Lane.release, Pipe.decoderStep, Pipe.onFrame,
        Pipe.takeFrame, hd, hq, hp, hroom]
    refine Exists.imp (fun m hm => ⟨(reach_of_exec hpresent).trans hm.1, hm.2⟩)
      (ih _ ?_ ?_ ?_) <;> rfl

/-- A stream that is fed nothing but NULL comes to its end. -/
theorem ends_of_marked (hroom : 0 < room) (l : Lane C) (hd : l.pipe.decoder = .top)
    (hpq : l.pipe.packetQueue = [none]) (hq : l.pipe.frameQueue = [])
    (hp : l.display = .polling) : ∃ m, Reach (step room next) l m ∧ m.eof = true := by
  have hread : exec (step room next) l [.decode, .decode] = some { l with
      pipe := { l.pipe with
        packetQueue := []
        decoder := .emitting true (C.decode l.pipe.codec none).1
        codec := (C.decode l.pipe.codec none).2 } } := by
    simp [exec, step, Lane.decode, Pipe.decoderStep, hd, hpq]
  refine Exists.imp (fun m hm => ⟨(reach_of_exec hread).trans hm.1, hm.2⟩)
    (ends_of_emitting room next hroom (C.decode l.pipe.codec none).1 _ ?_ ?_ ?_)
  · rfl
  · exact hq
  · exact hp

end Lane

namespace Session

variable {V : Codec P VideoFrame} {A : Codec P B} {cfg : SessionConfig} {s t : Session V A}

/-- A run of the video stream alone is a run of the session. -/
theorem reach_video {m : Lane V} (hopen : cfg.videoOpen = true)
    (h : Reach (Lane.step videoRoom .polling) s.video m) :
    Reach (step cfg) s { s with video := m } := by
  induction h with
  | refl => exact .refl
  | @tail l m a _ _ hs ih =>
    have hlift : ∀ f : Lane V → Option (Lane V), f l = some m →
        onVideo cfg { s with video := l } f = some { s with video := m } := by
      intro f hf
      simp [onVideo, hopen, hf]
    cases a with
    | decode => exact ih.tail (a := .decodeVideo) trivial (hlift _ hs)
    | take => exact ih.tail (a := .takeVideo) trivial (hlift _ hs)
    | release => exact ih.tail (a := .dropFrame) trivial (hlift _ hs)
    | raiseEof => exact ih.tail (a := .videoEof) trivial (hlift _ hs)

theorem reach_audio {m : Lane A} (hopen : cfg.audioOpen = true)
    (h : Reach (Lane.step audioRoom .acked) s.audio m) :
    Reach (step cfg) s { s with audio := m } := by
  induction h with
  | refl => exact .refl
  | @tail l m a _ _ hs ih =>
    have hlift : ∀ f : Lane A → Option (Lane A), f l = some m →
        onAudio cfg { s with audio := l } f = some { s with audio := m } := by
      intro f hf
      simp [onAudio, hopen, hf]
    cases a with
    | decode => exact ih.tail (a := .decodeAudio) trivial (hlift _ hs)
    | take => exact ih.tail (a := .takeAudio) trivial (hlift _ hs)
    | release => exact ih.tail (a := .blocksDone) trivial (hlift _ hs)
    | raiseEof => exact ih.tail (a := .audioEof) trivial (hlift _ hs)

/-! ## A restart is always possible -/

/-- The file is empty: NULL is in both packet queues. -/
theorem reach_marked (cfg : SessionConfig) : ∃ s : Session V A, Reach (step cfg) {} s ∧ s.reader = .top ∧
    s.isAlive = true ∧ s.isPaused = false ∧ s.eof = true ∧
    s.video = { pipe := { packetQueue := [none] }, log := { marked := true } } ∧
    s.audio = { pipe := { packetQueue := [none] }, log := { marked := true } } := by
  have hrun : exec (step cfg) ({} : Session V A)
      [.reader, .reader, .reader, .reader, .readFrame .endOfFile, .reader, .reader] = some {
        reader := .top
        eof := true
        sync := {
          type := if cfg.audioOpen then .audio else .video
          video := { isDisabled := !cfg.videoOpen }
          audio := { isDisabled := !cfg.audioOpen } }
        video := { pipe := { packetQueue := [none] }, log := { marked := true } }
        audio := { pipe := { packetQueue := [none] }, log := { marked := true } } } := by
    cases h : cfg.audioOpen <;> simp only [exec, step, readerStep, h] <;> rfl
  exact ⟨_, reach_of_exec hrun, rfl, rfl, rfl, rfl, rfl, rfl⟩

/-- The session comes to the end of both streams that it has. -/
theorem reach_ended (cfg : SessionConfig) : ∃ s : Session V A, Reach (step cfg) {} s ∧ s.reader = .top ∧
    s.isAlive = true ∧ s.isPaused = false ∧ s.eof = true ∧
    (cfg.videoOpen = true → s.video.eof = true) ∧
    (cfg.audioOpen = true → s.audio.eof = true) := by
  obtain ⟨s, hs, hr, hal, hpa, heof, hv, ha⟩ := reach_marked (V := V) (A := A) cfg
  obtain ⟨l, hl, hlv⟩ : ∃ l, Reach (step cfg) s { s with video := l } ∧
      (cfg.videoOpen = true → l.eof = true) := by
    by_cases hopen : cfg.videoOpen = true
    · obtain ⟨l, hl, hend⟩ := Lane.ends_of_marked videoRoom .polling
        Nat.one_pos s.video (by rw [hv]) (by rw [hv]) (by rw [hv]) (by rw [hv])
      exact ⟨l, reach_video hopen hl, fun _ => hend⟩
    · exact ⟨s.video, .refl, fun h => absurd h hopen⟩
  obtain ⟨m, hm, hma⟩ : ∃ m, Reach (step cfg) { s with video := l }
      { s with video := l, audio := m } ∧ (cfg.audioOpen = true → m.eof = true) := by
    by_cases hopen : cfg.audioOpen = true
    · obtain ⟨m, hm, hend⟩ := Lane.ends_of_marked audioRoom .acked
        (Nat.succ_pos _) s.audio (by rw [ha]) (by rw [ha]) (by rw [ha]) (by rw [ha])
      exact ⟨m, reach_audio hopen hm, fun _ => hend⟩
    · exact ⟨s.audio, .refl, fun h => absurd h hopen⟩
  exact ⟨_, (hs.trans hl).trans hm, hr, hal, hpa, heof, hlv, hma⟩

/-- A session that loops comes to the restart branch. -/
theorem reach_restart (cfg : SessionConfig) (hloop : cfg.isLoop = true) :
    ∃ s : Session V A, Reach (step cfg) {} s ∧ s.reader = .restart .seek := by
  obtain ⟨s, hs, hr, hal, hpa, heof, hv, ha⟩ := reach_ended (V := V) (A := A) cfg
  have hvideo : cfg.videoOpen = false ∨ s.video.eof = true := by
    cases h : cfg.videoOpen with
    | false => exact .inl rfl
    | true => exact .inr (hv h)
  have haudio : cfg.audioOpen = false ∨ s.audio.eof = true := by
    cases h : cfg.audioOpen with
    | false => exact .inl rfl
    | true => exact .inr (ha h)
  have hrun : exec (step cfg) s [.reader, .reader, .reader] =
      some { s with reader := .restart .seek } := by
    simp [exec, step, readerStep, hr, hal, hpa, heof, hvideo, haudio, hloop]
  exact ⟨_, hs.trans (reach_of_exec hrun), rfl⟩

/-! ## The flags -/

/-- The loop of the reader has begun. -/
def InLoop (s : Session V A) : Prop :=
  s.reader ≠ .setType ∧ s.reader ≠ .setVideoDisabled ∧ s.reader ≠ .setAudioDisabled

/-- The clocks know which streams the session has. -/
structure ClockFlags (cfg : SessionConfig) (s : Session V A) : Prop where
  video : s.sync.video.isDisabled = !cfg.videoOpen
  audio : s.sync.audio.isDisabled = !cfg.audioOpen
  master : s.sync.type = .audio → cfg.audioOpen = true
  /-- `calVideoDelay` waits only for a stream that is there. -/
  videoWaits : ∀ now pts duration, s.sync.VideoWaits now pts duration → cfg.audioOpen = true
  /-- So does `calAudioDelay`. -/
  audioWaits : ∀ now pts duration, s.sync.AudioWaits now pts duration → cfg.videoOpen = true

theorem ClockFlags.ofFlags (hv : s.sync.video.isDisabled = !cfg.videoOpen)
    (ha : s.sync.audio.isDisabled = !cfg.audioOpen)
    (hm : s.sync.type = .audio → cfg.audioOpen = true) : s.ClockFlags cfg := by
  refine ⟨hv, ha, hm, fun now pts duration h => ?_, fun now pts duration h => ?_⟩
  · rw [ClockSync.videoWaits_iff, ha, Bool.not_eq_false'] at h
    exact h.1
  · rw [ClockSync.audioWaits_iff, hv, Bool.not_eq_false'] at h
    exact h.1

/-- The flags as far as the reader has set them; the restart branch is entered only by
sessions with both streams. -/
structure FlagInv (cfg : SessionConfig) (s : Session V A) : Prop where
  video : s.reader ≠ .setType → s.reader ≠ .setVideoDisabled →
    s.sync.video.isDisabled = !cfg.videoOpen
  audio : s.InLoop → s.sync.audio.isDisabled = !cfg.audioOpen
  master : s.reader ≠ .setType → s.sync.type = .audio → cfg.audioOpen = true
  restart : ∀ r, s.reader = .restart r → cfg.videoOpen = true ∧ cfg.audioOpen = true

theorem flagInv_start (cfg : SessionConfig) : FlagInv cfg ({} : Session V A) where
  video := fun h => absurd rfl h
  audio := fun h => absurd rfl h.1
  master := fun h => absurd rfl h
  restart := by
    intro r hr
    cases hr

/-- A step beside the reader. -/
theorem FlagInv.keep (h : s.FlagInv cfg) (hr : t.reader = s.reader)
    (hv : t.sync.video.isDisabled = s.sync.video.isDisabled)
    (ha : t.sync.audio.isDisabled = s.sync.audio.isDisabled)
    (ht : t.sync.type = s.sync.type ∨ t.sync.type = .absolute) : t.FlagInv cfg where
  video := by
    intro h1 h2
    rw [hv]
    exact h.video (hr ▸ h1) (hr ▸ h2)
  audio := by
    intro hl
    rw [ha]
    unfold InLoop at hl
    rw [hr] at hl
    exact h.audio hl
  master := by
    intro h1 htype
    rcases ht with ht | ht
    · exact h.master (hr ▸ h1) (ht ▸ htype)
    · rw [ht] at htype
      cases htype
  restart := by
    intro r htr
    exact h.restart r (hr ▸ htr)

/-- A step of the reader inside the loop that leaves the clocks alone. -/
theorem FlagInv.move (h : s.FlagInv cfg) (hl : s.InLoop) (hsync : t.sync = s.sync)
    (hr : ∀ r, t.reader = .restart r → cfg.videoOpen = true ∧ cfg.audioOpen = true) :
    t.FlagInv cfg where
  video := by
    intro _ _
    rw [hsync]
    exact h.video hl.1 hl.2.1
  audio := by
    intro _
    rw [hsync]
    exact h.audio hl
  master := by
    intro _ htype
    rw [hsync] at htype
    exact h.master hl.1 htype
  restart := hr

/-- The restart branch takes both clocks for enabled and the master for AUDIO. -/
theorem FlagInv.restartStep {r : Restart} (h : s.FlagInv cfg) (hr : s.reader = .restart r) :
    (s.restartStep r).FlagInv cfg := by
  have hl : s.InLoop := by simp [InLoop, hr]
  have hboth := h.restart r hr
  have hv := h.video hl.1 hl.2.1
  have ha := h.audio hl
  cases r with
  | resetAudio =>
    refine ⟨fun _ _ => hv, fun _ => ?_, fun _ _ => hboth.2, fun _ _ => hboth⟩
    rw [hboth.2]
    rfl
  | resetVideo =>
    refine ⟨fun _ _ => ?_, fun _ => ha, fun _ _ => hboth.2, fun _ _ => hboth⟩
    rw [hboth.1]
    rfl
  | resetAbsolute | setType => exact ⟨fun _ _ => hv, fun _ => ha, fun _ _ => hboth.2, fun _ _ => hboth⟩
  | seek | clearEof | clearVideoEof | clearAudioEof => exact h.move hl rfl fun _ _ => hboth

theorem FlagInv.readerStep (h : s.FlagInv cfg)
    (hc : (cfg.videoOpen = true ∧ cfg.audioOpen = true) ∨ cfg.isLoop = false)
    (hs : s.readerStep cfg = some t) : t.FlagInv cfg := by
  unfold Session.readerStep at hs
  cases hr : s.reader with
  | setType =>
    simp only [hr] at hs
    cases hs
    refine ⟨fun _ h => absurd rfl h, fun h => absurd rfl h.2.1, fun _ htype => ?_, ?_⟩
    · by_contra hopen
      rw [if_neg hopen] at htype
      cases htype
    · intro r h
      cases h
  | setVideoDisabled =>
    simp only [hr] at hs
    cases hs
    exact ⟨fun _ _ => rfl, fun h => absurd rfl h.2.2, fun _ => h.master (by simp [hr]),
      fun r h => by cases h⟩
  | setAudioDisabled =>
    simp only [hr] at hs
    cases hs
    exact ⟨fun _ _ => h.video (by simp [hr]) (by simp [hr]), fun _ => rfl,
      fun _ => h.master (by simp [hr]), fun r h => by cases h⟩
  | top =>
    have hl : s.InLoop := by simp [InLoop, hr]
    simp only [hr] at hs
    (repeat' split at hs) <;> cases hs
    · exact h
    all_goals exact h.move hl rfl fun r h => by cases h
  | checkVideo =>
    have hl : s.InLoop := by simp [InLoop, hr]
    simp only [hr] at hs
    split at hs <;> cases hs <;> exact h.move hl rfl fun r h => by cases h
  | checkAudio =>
    have hl : s.InLoop := by simp [InLoop, hr]
    simp only [hr] at hs
    split at hs
    · next hcond =>
      cases hs
      refine h.move hl rfl fun r _ => ?_
      rcases hc with hboth | hloop
      · exact hboth
      · rw [hloop, Bool.and_false] at hcond
        cases hcond
    · cases hs
      exact h.move hl rfl fun r h => by cases h
  | writingVideo pkt | markingVideo | writingAudio pkt | markingAudio =>
    have hl : s.InLoop := by simp [InLoop, hr]
    simp only [hr] at hs
    obtain ⟨l, -, rfl⟩ := Option.map_eq_some_iff.mp hs
    exact h.move hl rfl fun r h => by cases h
  | restart r =>
    simp only [hr] at hs
    cases hs
    exact h.restartStep hr
  | reading | left => simp [hr] at hs

theorem FlagInv.onVideo {f : Lane V → Option (Lane V)} (h : s.FlagInv cfg)
    (hs : s.onVideo cfg f = some t) : t.FlagInv cfg := by
  unfold Session.onVideo at hs
  split at hs
  · obtain ⟨l, -, rfl⟩ := Option.map_eq_some_iff.mp hs
    exact h.keep rfl rfl rfl (.inl rfl)
  · cases hs

theorem FlagInv.onAudio {f : Lane A → Option (Lane A)} (h : s.FlagInv cfg)
    (hs : s.onAudio cfg f = some t) : t.FlagInv cfg := by
  unfold Session.onAudio at hs
  split at hs
  · obtain ⟨l, -, rfl⟩ := Option.map_eq_some_iff.mp hs
    exact h.keep rfl rfl rfl (.inl rfl)
  · cases hs

theorem FlagInv.step {a : SessionAct P} (h : s.FlagInv cfg)
    (hc : (cfg.videoOpen = true ∧ cfg.audioOpen = true) ∨ cfg.isLoop = false)
    (hs : s.step cfg a = some t) : t.FlagInv cfg := by
  cases a with
  | reader => exact h.readerStep hc hs
  | readFrame r =>
    have hr : s.reader = .reading := by
      cases hr : s.reader <;> first | rfl | simp [Session.step, Session.readFrame, hr] at hs
    have hl : s.InLoop := by simp [InLoop, hr]
    cases r <;> simp only [Session.step, Session.readFrame, hr] at hs <;> cases hs <;>
      refine h.move hl rfl fun r h => ?_ <;> (try split at h) <;> cases h
  | decodeVideo | takeVideo | dropFrame | videoEof => exact h.onVideo hs
  | decodeAudio | takeAudio | blocksDone | audioEof => exact h.onAudio hs
  | calVideoDelay now =>
    simp only [Session.step] at hs
    split at hs <;> cases hs
    exact h.keep rfl (by simp) (by simp) (.inl (by simp))
  | calAudioDelay now pts =>
    simp only [Session.step] at hs
    split at hs <;> cases hs
    exact h.keep rfl (by simp) (by simp) (.inl (by simp))
  | showFrame now =>
    simp only [Session.step] at hs
    split at hs
    · next f _ =>
      have hclocks : FlagInv cfg { s with
          sync := s.sync.updateVideoPts now (some (f.time cfg.timeBase)) } :=
        h.keep rfl rfl rfl (.inl rfl)
      exact hclocks.onVideo hs
    · cases hs
  | audioAbsolute =>
    simp only [Session.step] at hs
    split at hs <;> cases hs
    exact h.keep rfl rfl rfl (.inr rfl)
  | audioCallback now pts | setIsPaused value | stop =>
    cases hs
    exact h.keep rfl rfl rfl (.inl rfl)

/-- A restart without one of the streams enables its clock. -/
theorem not_clockFlags_of_restart (hloop : cfg.isLoop = true)
    (hmiss : ¬(cfg.videoOpen = true ∧ cfg.audioOpen = true)) :
    ∃ s : Session V A, Reach (step cfg) {} s ∧ s.InLoop ∧ ¬s.ClockFlags cfg := by
  obtain ⟨s, hs, hr⟩ := reach_restart (V := V) (A := A) cfg hloop
  have hrun : ∃ t : Session V A, exec (step cfg) s [.reader, .reader, .reader, .reader] = some t ∧
      t.reader = .restart .resetAbsolute ∧ t.sync.video.isDisabled = false ∧
      t.sync.audio.isDisabled = false := by
    refine ⟨(((s.restartStep .seek).restartStep .clearEof).restartStep .resetAudio).restartStep
      .resetVideo, ?_, rfl, rfl, rfl⟩
    simp [exec, step, readerStep, hr, Session.restartStep]
  obtain ⟨t, ht, htr, hv, ha⟩ := hrun
  refine ⟨t, hs.trans (reach_of_exec ht), by simp [InLoop, htr], fun h => hmiss ⟨?_, ?_⟩⟩
  · have hvideo := h.video
    rw [hv] at hvideo
    simpa using hvideo
  · have haudio := h.audio
    rw [ha] at haudio
    simpa using haudio

end Session

/-- In every reachable state of the loop the clocks know which streams the session has,
exactly if it has both or never restarts. -/
theorem clock_flags_iff (V : Codec P VideoFrame) (A : Codec P B) (cfg : SessionConfig) :
    (∀ s : Session V A, Reach (Session.step cfg) {} s → s.InLoop → s.ClockFlags cfg) ↔
      (cfg.videoOpen = true ∧ cfg.audioOpen = true) ∨ cfg.isLoop = false := by
  constructor
  · intro hall
    by_contra hc
    rw [not_or, Bool.not_eq_false] at hc
    obtain ⟨s, hs, hl, hflags⟩ := Session.not_clockFlags_of_restart (V := V) (A := A) hc.2 hc.1
    exact hflags (hall s hs hl)
  · intro hc s hs hl
    have hi : s.FlagInv cfg := hs.invariant (Session.flagInv_start cfg)
      fun _ _ _ hi h => hi.step hc h
    exact .ofFlags (hi.video hl.1 hl.2.1) (hi.audio hl) (hi.master hl.1)

/-- A video-only session after its first restart: audio counts as enabled and as the
master, and `calVideoDelay` waits for it. -/
theorem video_only_waits_for_audio :
    ∃ s : Session (emptyCodec : Codec Unit VideoFrame) (emptyCodec : Codec Unit Unit),
      Reach (Session.step ⟨true, false, true, 1⟩) {} s ∧ s.reader = .top ∧
        s.past.length = 1 ∧ s.sync.audio.isDisabled = false ∧ s.sync.type = .audio ∧
        ∀ now pts duration, s.sync.VideoWaits now pts duration := by
  obtain ⟨s, hs, hp⟩ := reach_of_any
    (Session.step (V := emptyCodec) (A := (emptyCodec : Codec Unit Unit)) ⟨true, false, true, 1⟩)
    {} ([.reader, .reader, .reader, .reader, .readFrame .endOfFile, .reader, .reader,
      .decodeVideo, .decodeVideo, .decodeVideo, .takeVideo, .videoEof] ++
        List.replicate 11 .reader)
    (fun s => s.reader = .top ∧ s.past.length = 1 ∧ s.sync.audio.isDisabled = false ∧
      s.sync.type = .audio ∧ s.sync.audio.startPts = none) (by decide)
  obtain ⟨hreader, hpast, henabled, htype, hnone⟩ := of_decide_eq_true hp
  exact ⟨s, hs, hreader, hpast, henabled, htype, fun _ _ _ =>
    ClockSync.videoWaits_iff.mpr ⟨henabled, hnone⟩⟩

end VideoPlayerCore
