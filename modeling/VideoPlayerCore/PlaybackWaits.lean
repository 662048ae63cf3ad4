import VideoPlayerCore.PlaybackDeadlock

/-!
# No playback in which everything waits

A component that waits cannot move, or moves only to ask again: the reader for room or, behind
the two NULL packets, for the acknowledgements; a decoder coroutine for a packet or for room; a
display thread for a frame, for the clock of the other stream or for the callback; the callback
for a block.

    s.AllWait cfg → Reach (Playback.step cfg) s t → t.AllWait cfg        (allWait_forever)
    file.InStep cfg → Reach (Playback.step cfg) (Playback.start file) s →
      ¬ s.Stuck cfg ∧ (a video frame ↔ an audio frame with samples →
        an acknowledgement is missing → ¬ s.AllWait cfg)                 (not_stuck)
-/

namespace VideoPlayerCore

open Machine

variable {cfg : PlaybackConfig} {file : MediaFile} {s t : Playback}

/-- By the absolute clock every frame is due some time. -/
theorem ClockSync.delayOf_due {sync : ClockSync} {a : ℚ} (htype : sync.type = .absolute)
    (hstarted : sync.awaitsAudio = false) (ha : sync.absolute.startPts = some a) (timeBase : ℚ)
    (f : VideoFrame) : ∃ now, (sync.delayOf timeBase now f).2 = some 0 := by
  obtain ⟨v, hv⟩ : ∃ v, sync.video.startPts.or (some (f.time timeBase)) = some v := by
    cases sync.video.startPts <;> exact ⟨_, rfl⟩
  refine ⟨a + (f.time timeBase - v), ?_⟩
  have hawaits : (sync.startVideo (a + (f.time timeBase - v))
      (some (f.time timeBase))).awaitsAudio = false := by
    unfold awaitsAudio at hstarted ⊢
    rwa [startVideo_audio]
  have hstart : (sync.startVideo (a + (f.time timeBase - v))
      (some (f.time timeBase))).alignVideo.video.startPts = some v := by
    apply alignVideo_startPts
    rw [startVideo_startPts]
    exact hv
  have hmaster : (sync.startVideo (a + (f.time timeBase - v))
      (some (f.time timeBase))).alignVideo.getMasterClock =
      sync.absolute.updatePts (some (a + (f.time timeBase - v))) := by
    unfold getMasterClock
    rw [alignVideo_type, startVideo_type, htype, alignVideo_absolute, startVideo_absolute]
  unfold delayOf calVideoDelay
  dsimp only
  rw [hawaits, if_neg Bool.false_ne_true, videoDiff, hstart, hmaster, Clock.getTime,
    Clock.updatePts_currentPts, Clock.updatePts_startPts, ha]
  simp [forgive]

namespace Playback

/-! ## Components that wait -/

/-- The coroutine cannot get rid of its frame, or finds no packet. -/
def DecoderWaits {F : Type} (p : Pipe (directCodec F)) (room : Nat) : Prop :=
  p.decoderStep room true = none ∨ p.packetQueue = [] ∧ p.pending = []

section
variable (cfg : PlaybackConfig) (s : Playback)

/-- No frame, or a frame that is delayed again, with video's clock started long since. -/
def VideoWaits : Prop :=
  s.videoDisplay = .reading ∧ s.video.frameQueue = [] ∨
    s.AwaitsAudio cfg ∧ s.sync.video.startPts ≠ none

/-- No frame, or a block that is delayed again, with audio's clock started long since, or no
way on before the callback has played a block. -/
def AudioWaits : Prop :=
  s.audioDisplay = .reading ∧ s.audio.frameQueue = [] ∨
    s.AwaitsVideo ∧ s.sync.audio.startPts ≠ none ∨
    s.blocks ≠ [] ∧ ∀ now, s.audioDisplayStep cfg now = none

def AllWait : Prop :=
  s.readerStep = none ∧ DecoderWaits s.video videoRoom ∧ DecoderWaits s.audio audioRoom ∧
    s.VideoWaits cfg ∧ s.AudioWaits cfg ∧ ∀ now, s.callbackStep now = none

end

theorem readerStep_eq_none_iff : s.readerStep = none ↔
    s.reader = .reading ∧ s.rest = [] ∨
    (∃ pkt, s.reader = .writing (.video pkt)) ∧ packetRoom ≤ s.video.packetQueue.length ∨
    (∃ pkt, s.reader = .writing (.audio pkt)) ∧ packetRoom ≤ s.audio.packetQueue.length := by
  unfold Playback.readerStep
  cases hreader : s.reader with
  | reading => cases hrest : s.rest <;> simp
  | writing item =>
    cases item with
    | video pkt => simp [Pipe.write]
    | audio pkt => simp [Pipe.write]

theorem callbackStep_eq_none_iff : (∀ now, s.callbackStep now = none) ↔ s.blocks = [] := by
  unfold Playback.callbackStep
  cases hblocks : s.blocks <;> simp

section
variable {F : Type} {p q : Pipe (directCodec F)} {room : Nat}

/-- A decoder that waits behind a full packet queue has a frame for a full frame queue. -/
theorem DecoderWaits.jammed (h : DecoderWaits p room) (hfits : p.Fits room)
    (hfull : packetRoom ≤ p.packetQueue.length) : Jammed p room := by
  rcases h with hstep | ⟨hpackets, -⟩
  · exact ⟨Nat.le_antisymm hfits.packetQueue hfull, hstep⟩
  · rw [hpackets, List.length_nil] at hfull
    exact absurd hfull (by decide)

/-- Behind a decoder that waits, an empty frame queue means that nothing is left. -/
theorem DecoderWaits.drained (h : DecoderWaits p room) (hfits : p.Fits room) (hroom : 0 < room)
    (hframes : p.frameQueue = []) : Drained p := by
  rcases h with hstep | ⟨hpackets, hpending⟩
  · have hfull := (hfits.jammed hstep).1
    rw [hframes, List.length_nil] at hfull
    omega
  · exact ⟨hpackets, hpending, hframes⟩

/-- A decoder that waits goes round its loop at most. -/
theorem DecoderWaits.decoderStep (h : DecoderWaits p room)
    (hs : p.decoderStep room true = some q) :
    DecoderWaits q room ∧ q.packetQueue = p.packetQueue ∧ q.frameQueue = p.frameQueue := by
  rcases h with hstep | ⟨hpackets, hpending⟩
  · rw [hstep] at hs
    cases hs
  · obtain ⟨hpackets', hpending', hsame⟩ := Pipe.idle_decoderStep hpackets hpending hs
    exact ⟨.inr ⟨hpackets', hpending'⟩, hpackets'.trans hpackets.symm, hsame⟩

end

/-! ## What a component waits for -/

variable {delivered : List Item} {videoTaken : List (Option VideoFrame)}
  {audioTaken : List (Option AudioFrame)}

theorem Inv.awaitsVideo_start (h : Inv cfg file delivered videoTaken audioTaken s)
    (hwait : s.AwaitsVideo) : s.sync.video.startPts = none := by
  obtain ⟨pts, avail, hstarting, -⟩ := id hwait
  exact (h.awaitsVideo_iff hstarting).mp hwait

/-- While everything waits, audio is the master clock, or it has never started. -/
theorem Inv.awaitsAudio_kind (h : Inv cfg file delivered videoTaken audioTaken s)
    (hwait : s.AwaitsAudio cfg) (hopen : s.audioDisplay ≠ .ending) :
    s.sync.type = .audio ∨ s.sync.awaitsAudio = true := by
  rcases h.audio with ⟨hended, -⟩ | ⟨-, -, htype, -⟩
  · right
    obtain ⟨-, htype⟩ := (h.audioEnds hended).resolve_left hopen
    by_contra hstarted
    have hne : s.sync.audio.startPts ≠ none := by
      intro hnone
      apply hstarted
      unfold ClockSync.awaitsAudio
      rw [h.audioEnabled, hnone]
      rfl
    obtain ⟨a, ha⟩ := Option.ne_none_iff_exists'.mp (h.absolute hne)
    obtain ⟨f, -, hdelay⟩ := hwait
    obtain ⟨now, hnow⟩ := ClockSync.delayOf_due htype (Bool.eq_false_iff.mpr hstarted) ha
      cfg.timeBase f
    have hpos := hdelay now
    rw [hnow] at hpos
    exact absurd hpos (by decide +kernel)
  · exact .inl htype

/-! ## A state in which everything waits is left by no step -/

theorem AudioWaits.of_no_blocks (h : s.AudioWaits cfg) (hblocks : s.blocks = []) :
    s.audioDisplay = .reading ∧ s.audio.frameQueue = [] ∨
      s.AwaitsVideo ∧ s.sync.audio.startPts ≠ none := by
  rcases h with hread | hwait | ⟨hne, -⟩
  · exact .inl hread
  · exact .inr hwait
  · exact absurd hblocks hne

theorem allWait_step {a : PlaybackAct} (h : Inv cfg file delivered videoTaken audioTaken s)
    (hall : s.AllWait cfg) (hs : s.step cfg a = some t) : t.AllWait cfg := by
  obtain ⟨hreader, hvideoDecoder, haudioDecoder, hvideo, haudio, hcallback⟩ := hall
  have hblocks := callbackStep_eq_none_iff.mp hcallback
  have hnow := readerStep_eq_none_iff.mp hreader
  have haudio := haudio.of_no_blocks hblocks
  cases a with
  | reader => cases hreader.symm.trans hs
  | videoDecoder =>
    obtain ⟨video, hstep, rfl⟩ := Option.map_eq_some_iff.mp hs
    obtain ⟨hnext, hpackets, hframes⟩ := hvideoDecoder.decoderStep hstep
    refine ⟨readerStep_eq_none_iff.mpr ?_, hnext, haudioDecoder, ?_,
      haudio.imp_right .inl, callbackStep_eq_none_iff.mpr hblocks⟩
    · dsimp only
      rwa [hpackets]
    · exact hvideo.imp_left fun hread => ⟨hread.1, hframes.trans hread.2⟩
  | videoDisplay now =>
    rcases hvideo with ⟨hdisplay, hframes⟩ | ⟨hwait, hstart⟩
    · rw [step, Playback.videoDisplayStep, hdisplay, Pipe.takeFrame, hframes] at hs
      cases hs
    · -- audio does not wait for a clock that has started
      rcases haudio with ⟨hdisplay, hframes⟩ | ⟨hvideo, -⟩
      · obtain ⟨sync, display, rfl, hnext, hkeeps⟩ := hwait.videoDisplayStep
          (h.awaitsAudio_kind hwait (by rw [hdisplay]; simp)) hs
        exact ⟨readerStep_eq_none_iff.mpr hnow, hvideoDecoder, haudioDecoder,
          .inr ⟨hnext, hkeeps hstart⟩, .inl ⟨hdisplay, hframes⟩,
          callbackStep_eq_none_iff.mpr hblocks⟩
      · exact absurd (h.awaitsVideo_start hvideo) hstart
  | audioDecoder =>
    obtain ⟨audio, hstep, rfl⟩ := Option.map_eq_some_iff.mp hs
    obtain ⟨hnext, hpackets, hframes⟩ := haudioDecoder.decoderStep hstep
    refine ⟨readerStep_eq_none_iff.mpr ?_, hvideoDecoder, hnext, hvideo, ?_,
      callbackStep_eq_none_iff.mpr hblocks⟩
    · dsimp only
      rwa [hpackets]
    · rcases haudio with ⟨hdisplay, hempty⟩ | hwait
      · exact .inl ⟨hdisplay, hframes.trans hempty⟩
      · exact .inr (.inl hwait)
  | audioDisplay now =>
    rcases haudio with ⟨hdisplay, hframes⟩ | ⟨hwait, hstart⟩
    · rw [step, Playback.audioDisplayStep, hdisplay, Pipe.takeFrame, hframes] at hs
      cases hs
    · obtain ⟨sync, rfl, hsame, hkeeps⟩ := hwait.audioDisplayStep hs
      obtain ⟨a, ha⟩ := Option.ne_none_iff_exists'.mp hstart
      refine ⟨readerStep_eq_none_iff.mpr hnow, hvideoDecoder, haudioDecoder, ?_,
        .inr (.inl ⟨hwait.of_video rfl hsame, ?_⟩), callbackStep_eq_none_iff.mpr hblocks⟩
      · rcases hvideo with hread | ⟨-, hvideo⟩
        · exact .inl hread
        · exact absurd (h.awaitsVideo_start hwait) hvideo
      · dsimp only
        rw [hkeeps, ha]
        simp
  | callback now => cases (hcallback now).symm.trans hs

/-- Where everything waits, it waits for ever. -/
theorem allWait_forever (h : Reach (step cfg) (start file) s) (hall : s.AllWait cfg)
    (hrun : Reach (step cfg) s t) : t.AllWait cfg := by
  induction hrun with
  | refl => exact hall
  | tail hrun _ hs ih =>
    obtain ⟨delivered, videoTaken, audioTaken, hinv⟩ := inv_of_reach (h.trans hrun)
    exact allWait_step hinv ih hs

/-! ## A file in step -/

/-- Behind the last NULL everything is delivered. -/
theorem Inv.delivered_all (h : Inv cfg file delivered videoTaken audioTaken s)
    (hreader : s.reader = .reading) (hrest : s.rest = []) : file.items = delivered := by
  have hitems := h.items
  rwa [hreader, hrest, List.append_nil, PlaybackReader.hand, List.append_nil] at hitems

theorem Inv.video_ended (h : Inv cfg file delivered videoTaken audioTaken s)
    (hall : file.items = delivered) (hdrained : Drained s.video) : none ∈ videoTaken := by
  rw [h.videoPipe.of_drained hdrained, ← hall, file.items_video]
  simp

theorem Inv.audio_null (h : Inv cfg file delivered videoTaken audioTaken s)
    (hall : file.items = delivered) (hdrained : Drained s.audio) : none ∈ audioTaken := by
  rw [h.audioPipe.of_drained hdrained, ← hall, file.items_audio]
  simp

/-- The frame that the video display thread waits with was delivered. -/
theorem Inv.frame_delivered (h : Inv cfg file delivered videoTaken audioTaken s)
    (hwait : s.AwaitsAudio cfg) : videoFrames delivered ≠ [] := by
  obtain ⟨f, hheld, -⟩ := hwait
  have hf : s.videoDisplay.frame? = some f := by
    rcases hheld with hcall | ⟨delay, hwaiting, -⟩
    · rw [hcall]
      rfl
    · rw [hwaiting]
      rfl
  obtain ⟨first, hfirst, -⟩ := h.video_start hf
  intro hnil
  rw [hnil] at hfirst
  cases hfirst

/-- The block that the audio display thread waits with begins with a sample that was delivered. -/
theorem Inv.sample_delivered (h : Inv cfg file delivered videoTaken audioTaken s)
    (hwait : s.AwaitsVideo) : sampleTimes cfg.freq (audioFrames delivered) ≠ [] := by
  obtain ⟨pts, avail, hstarting, -⟩ := hwait
  obtain ⟨-, -, n, played, hinv⟩ := h.audio_of_left (r := (pts, avail)) (by rw [hstarting]; rfl)
  obtain ⟨more, hmore⟩ := h.audioPipe.frames_begin
  have hbusy := hinv.busy (by rw [hstarting]; rfl)
  intro hnil
  unfold audioFrames at hnil
  rw [← hmore, sampleTimes_append] at hnil
  apply hbusy
  rw [← hinv.rest, (List.append_eq_nil_iff.mp hnil).1, List.drop_nil]

/-- Once both NULL packets have come through, both ends are acknowledged. -/
theorem Inv.acknowledged (h : Inv cfg file delivered videoTaken audioTaken s)
    (hall : file.items = delivered) (hvideoEmpty : Drained s.video)
    (hvideo : s.videoDisplay = .reading) (haudioEmpty : Drained s.audio)
    (haudio : s.audioDisplay = .reading) : s.videoEof = true ∧ s.audioEof = true := by
  refine ⟨h.video_acknowledged ?_ (h.video_ended hall hvideoEmpty), ?_⟩
  · rw [hvideo]
    simp
  · have hends := h.audioEnds (h.audio_null hall haudioEmpty)
    exact (hends.resolve_left (by rw [haudio]; simp)).1

/-- Once audio has ended, and had samples to start its clock, the absolute clock goes on. -/
theorem Inv.video_goes_on (h : Inv cfg file delivered videoTaken audioTaken s)
    (hall : file.items = delivered) (haudioEmpty : Drained s.audio)
    (haudio : s.audioDisplay = .reading)
    (hsound : sampleTimes cfg.freq (audioFrames file.items) ≠ []) : ¬ s.AwaitsAudio cfg := by
  intro hwait
  have hopen : s.audioDisplay ≠ .ending := by
    rw [haudio]
    simp
  have hnull := h.audio_null hall haudioEmpty
  have htype := ((h.audioEnds hnull).resolve_left hopen).2
  have hstarted : s.sync.audio.startPts ≠ none := by
    apply h.sounded hnull
    rw [h.audioPipe.of_drained haudioEmpty, ← hall]
    exact hsound
  rcases h.awaitsAudio_kind hwait hopen with hkind | hkind
  · rw [htype] at hkind
    cases hkind
  · obtain ⟨a, ha⟩ := Option.ne_none_iff_exists'.mp hstarted
    unfold ClockSync.awaitsAudio at hkind
    rw [ha] at hkind
    simp at hkind

/-- Once video has ended, and had a frame, its clock is started. -/
theorem Inv.audio_goes_on (h : Inv cfg file delivered videoTaken audioTaken s)
    (hall : file.items = delivered) (hvideoEmpty : Drained s.video)
    (hvideo : s.videoDisplay = .reading) (hfilm : videoFrames file.items ≠ []) :
    ¬ s.AwaitsVideo := by
  intro hwait
  apply hfilm
  rw [hall]
  exact (h.video_started_iff hvideoEmpty hvideo).mp (h.awaitsVideo_start hwait)

theorem Inv.not_allWait (h : Inv cfg file delivered videoTaken audioTaken s)
    (hin : file.InStep cfg) (hboth : videoFrames file.items = [] ↔
      sampleTimes cfg.freq (audioFrames file.items) = [])
    (hopen : s.videoEof = false ∨ s.audioEof = false) : ¬ s.AllWait cfg := by
  rintro ⟨hreader, hvideoDecoder, haudioDecoder, hvideo, haudio, hcallback⟩
  have hstuck := h.not_blocked hin
  have hblocks := callbackStep_eq_none_iff.mp hcallback
  have hroom : ¬ packetRoom ≤ 0 := by decide
  -- each display thread waits for a frame or for the other stream's clock
  rcases readerStep_eq_none_iff.mp hreader with
    ⟨hread, hrest⟩ | ⟨hwriting, hfull⟩ | ⟨hwriting, hfull⟩
  · have hall := h.delivered_all hread hrest
    rcases hvideo with ⟨hvideo, hframes⟩ | ⟨hvideo, hstart⟩ <;>
      rcases haudio.of_no_blocks hblocks with ⟨haudio, hsamples⟩ | ⟨haudio, -⟩
    · have heof := h.acknowledged hall (hvideoDecoder.drained h.videoFits (by decide) hframes)
        hvideo (haudioDecoder.drained h.audioFits (by decide) hsamples) haudio
      rw [heof.1, heof.2] at hopen
      simp at hopen
    · have hsound := h.sample_delivered haudio
      rw [← hall] at hsound
      exact h.audio_goes_on hall (hvideoDecoder.drained h.videoFits (by decide) hframes) hvideo
        (mt hboth.mp hsound) haudio
    · have hfilm := h.frame_delivered hvideo
      rw [← hall] at hfilm
      exact h.video_goes_on hall (haudioDecoder.drained h.audioFits (by decide) hsamples) haudio
        (mt hboth.mpr hfilm) hvideo
    · exact hstart (h.awaitsVideo_start haudio)
  · rcases hvideo with ⟨-, hframes⟩ | ⟨hvideo, hstart⟩
    · rw [(hvideoDecoder.drained h.videoFits (by decide) hframes).1] at hfull
      exact hroom hfull
    · rcases haudio.of_no_blocks hblocks with ⟨haudio, hsamples⟩ | ⟨haudio, -⟩
      · exact hstuck (.inl ⟨hwriting, hvideoDecoder.jammed h.videoFits hfull, hvideo,
          haudioDecoder.drained h.audioFits (by decide) hsamples, haudio, hblocks⟩)
      · exact hstart (h.awaitsVideo_start haudio)
  · rcases haudio.of_no_blocks hblocks with ⟨-, hsamples⟩ | ⟨haudio, -⟩
    · rw [(haudioDecoder.drained h.audioFits (by decide) hsamples).1] at hfull
      exact hroom hfull
    · rcases hvideo with ⟨hvideo, hframes⟩ | ⟨-, hstart⟩
      · exact hstuck (.inr ⟨hwriting, haudioDecoder.jammed h.audioFits hfull, haudio,
          hvideoDecoder.drained h.videoFits (by decide) hframes, hvideo⟩)
      · exact hstart (h.awaitsVideo_start haudio)

/-- Of a file in step, the playback never waits for itself, if something is to be shown as well
as to be heard. -/
theorem not_stuck (hin : file.InStep cfg) (h : Reach (step cfg) (start file) s) :
    ¬ s.Stuck cfg ∧
      ((videoFrames file.items = [] ↔ sampleTimes cfg.freq (audioFrames file.items) = []) →
        s.videoEof = false ∨ s.audioEof = false → ¬ s.AllWait cfg) := by
  obtain ⟨delivered, videoTaken, audioTaken, hinv⟩ := inv_of_reach h
  exact ⟨hinv.not_blocked hin, fun hboth hopen => hinv.not_allWait hin hboth hopen⟩

/-! ### A file in step that fills the queues -/

theorem length_filmFrames (i n : Nat) : (filmFrames i n).length = n := by
  simp [filmFrames]

/-- Three blocks of sound, and more frames than the queues of the video stream hold. -/
def soundFirst : MediaFile where
  packets := [.audio ⟨0, 3072⟩] ++ (filmFrames 0 2051).map .video
  video_increasing := by
    rw [List.filterMap_append, filterMap_video]
    exact filmFrames_increasing 0 2051
  audio_increasing := by
    rw [List.filterMap_append, filterMap_audio]
    exact List.pairwise_singleton _ _

theorem soundFirst_items : soundFirst.items = .audio (some ⟨0, 3072⟩) ::
    (videoItems (filmFrames 0 2050) ++
      .video (some ⟨some 2050, 1⟩) :: [.video none, .audio none]) := by
  show ([Packet.audio ⟨0, 3072⟩] ++ (filmFrames 0 2051).map Packet.video).map Packet.item ++ _ = _
  rw [filmFrames_concat]
  simp [videoItems, Packet.item]

theorem soundFirst_frames : videoFrames soundFirst.items = filmFrames 0 2051 := by
  have hframes : soundFirst.packets.filterMap Packet.video? = filmFrames 0 2051 := by
    show ([Packet.audio ⟨0, 3072⟩] ++ (filmFrames 0 2051).map Packet.video).filterMap _ = _
    rw [List.filterMap_append, filterMap_video]
    rfl
  unfold videoFrames
  rw [soundFirst.items_video, hframes]
  simp [List.reduceOption]

theorem soundFirst_audio : soundFirst.items.filterMap Item.audio? = [some ⟨0, 3072⟩, none] := by
  have hframes : soundFirst.packets.filterMap Packet.audio? = [⟨0, 3072⟩] := by
    show ([Packet.audio ⟨0, 3072⟩] ++ (filmFrames 0 2051).map Packet.video).filterMap _ = _
    rw [List.filterMap_append, filterMap_audio]
    rfl
  rw [soundFirst.items_audio, hframes]
  rfl

theorem soundFirst_sound : audioFrames soundFirst.items = [⟨0, 3072⟩] := by
  unfold audioFrames
  rw [soundFirst_audio]
  rfl

/-- In front of each video packet the sound was delivered. -/
theorem soundFirst_heard {before rest : List Item} {pkt : Option VideoFrame}
    (h : soundFirst.items = before ++ .video pkt :: rest) :
    audioFrames before = [⟨0, 3072⟩] := by
  have hall := soundFirst_sound
  cases before with
  | nil =>
    rw [soundFirst_items] at h
    cases h
  | cons item before =>
    obtain rfl : .audio (some ⟨0, 3072⟩) = item := by
      rw [soundFirst_items] at h
      exact (List.cons.inj h).1
    have hcons : audioFrames (.audio (some ⟨0, 3072⟩) :: before) =
        ⟨0, 3072⟩ :: audioFrames before := rfl
    rw [h, audioFrames_append, hcons, List.cons_append] at hall
    rw [hcons, (List.append_eq_nil_iff.mp (List.cons.inj hall).2).1]

theorem filmFrames_getElem? {i n : Nat} (h : i < n) :
    (filmFrames 0 n)[i]? = some ⟨some (i : Int), 1⟩ := by
  unfold filmFrames
  rw [List.getElem?_map, List.getElem?_range' h]
  simp

theorem soundFirst_inStep : soundFirst.InStep soundCard where
  video before pkt rest hitems hlong := by
    have hheard := soundFirst_heard hitems
    have hbegins : videoFrames before <+: filmFrames 0 2051 := by
      rw [← soundFirst_frames, hitems, videoFrames_append]
      exact List.prefix_append _ _
    have hlength := hbegins.length_le
    rw [length_filmFrames] at hlength
    have hframe {i : Nat} (hi : i < (videoFrames before).length) :
        (videoFrames before)[i]? = some ⟨some (i : Int), 1⟩ := by
      obtain ⟨more, hmore⟩ := hbegins
      rw [← filmFrames_getElem? (Nat.lt_of_lt_of_le hi hlength), ← hmore,
        List.getElem?_append_left hi]
    have hindex : (videoFrames before).length - (packetRoom + videoRoom + 2) ≤ 1 := by
      have hrooms : packetRoom + videoRoom + 2 = 2050 := rfl
      omega
    refine ⟨⟨some 0, 1⟩, _, 0, 2048 / 44100, ?_, hframe (by omega), ?_, ?_, ?_⟩
    · rw [List.head?_eq_getElem?]
      exact hframe (by omega)
    · rw [hheard, sampleTimes_singleton]
      exact (sampleRun_head (by decide)).trans (by norm_num)
    · unfold audioReached
      rw [hheard, sampleTimes_singleton, length_sampleRun, sampleRun, List.getElem?_map,
        List.getElem?_range (by decide)]
      norm_num [soundCard]
    · have hlate : (((videoFrames before).length - (packetRoom + videoRoom + 2) : Nat) : ℚ) ≤ 1 := by
        exact_mod_cast hindex
      simp only [VideoFrame.time, Option.getD_some, soundCard]
      push_cast
      linarith
  audio before pkt rest hitems _ := by
    have hfew := List.Sublist.length_le (List.sublist_append_left (audioFrames before)
      (audioFrames (.audio pkt :: rest)))
    rw [← audioFrames_append, ← hitems, soundFirst_sound] at hfew
    have hdrop := (List.dropWhile_sublist (l := audioFrames before)
      (fun f : AudioFrame => f.samples = 0)).length_le
    exact Nat.lt_of_le_of_lt (hdrop.trans hfew) (by decide)

/-- The reader in front of the last frame, with all queues of the video stream full and the sound
still in the packet queue. -/
theorem not_stuck_behind_sound : ∃ s, Reach (step soundCard) (start soundFirst) s ∧
    s.reader = .writing (.video (some ⟨some 2050, 1⟩)) ∧ Jammed s.video videoRoom ∧
    s.AwaitsAudio soundCard ∧ ¬ s.Stuck soundCard ∧ ¬ s.AllWait soundCard := by
  let sound : Pipe (directCodec AudioFrame) := { packetQueue := [some ⟨0, 3072⟩] }
  have hfirst : exec (step soundCard) (start soundFirst) [.reader, .reader] = some
      { rest := videoItems (filmFrames 0 2050) ++
          .video (some ⟨some 2050, 1⟩) :: [.video none, .audio none], audio := sound } := by
    rw [start, soundFirst_items]
    rfl
  obtain ⟨s, hs, hreader, hjammed, hwait, -, -, -, hopen, -⟩ :=
    reach_jammed soundCard (some ⟨some 2050, 1⟩) [.video none, .audio none] sound
      (length_filmFrames 0 2050)
  have hreach := (reach_of_exec hfirst).trans hs
  have hgoes := not_stuck soundFirst_inStep hreach
  have hboth : videoFrames soundFirst.items = [] ↔
      sampleTimes soundCard.freq (audioFrames soundFirst.items) = [] := by
    rw [soundFirst_frames, soundFirst_sound, ← List.length_eq_zero_iff, length_filmFrames,
      sampleTimes_singleton, ← List.length_eq_zero_iff, length_sampleRun]
    decide
  exact ⟨s, hreach, hreader, hjammed, hwait, hgoes.1, hgoes.2 hboth (.inl hopen)⟩

/-- A frame, and an audio track without samples. -/
def silentTrack : MediaFile where
  packets := [.video ⟨some 0, 1⟩, .audio ⟨0, 0⟩]
  video_increasing := List.pairwise_singleton _ _
  audio_increasing := List.pairwise_singleton _ _

/-- Without samples audio's clock never starts: the frame is delayed for ever, in a file that is
in step. -/
theorem silentTrack_waits : silentTrack.InStep soundCard ∧
    ∃ s, Reach (step soundCard) (start silentTrack) s ∧ s.videoEof = false ∧
      s.AllWait soundCard := by
  refine ⟨MediaFile.inStep_of_short soundCard (by decide), ?_⟩
  obtain ⟨s, hs, hp⟩ := reach_of_any (step soundCard) (start silentTrack)
    [.reader, .reader, .reader, .reader, .reader, .reader, .reader, .reader,
      .videoDecoder, .videoDecoder, .videoDecoder, .videoDisplay 0, .videoDisplay 0,
      .videoDecoder, .videoDecoder, .videoDecoder, .videoDecoder,
      .audioDecoder, .audioDecoder, .audioDecoder, .audioDisplay 0, .audioDisplay 0,
      .audioDecoder, .audioDecoder, .audioDecoder, .audioDecoder, .audioDisplay 0, .audioDisplay 0]
    (fun s => s.reader = .reading ∧ s.rest = [] ∧ s.videoEof = false ∧
      s.videoDisplay = .waiting ⟨some 0, 1⟩ (some 0.01) ∧ s.sync.video.startPts ≠ none ∧
      s.sync.awaitsAudio = true ∧ s.audioDisplay = .reading ∧ s.blocks = [] ∧
      s.video.packetQueue = [] ∧ s.video.pending = [] ∧
      s.audio.packetQueue = [] ∧ s.audio.pending = [] ∧ s.audio.frameQueue = [])
    (by decide +kernel)
  obtain ⟨hreader, hrest, hopen, hvideo, hstart, hawaits, haudio, hblocks, hvideoPackets,
    hvideoPending, haudioPackets, haudioPending, hframes⟩ := of_decide_eq_true hp
  refine ⟨s, hs, hopen, readerStep_eq_none_iff.mpr (.inl ⟨hreader, hrest⟩),
    .inr ⟨hvideoPackets, hvideoPending⟩, .inr ⟨haudioPackets, haudioPending⟩, .inr ⟨?_, hstart⟩,
    .inl ⟨haudio, hframes⟩, callbackStep_eq_none_iff.mpr hblocks⟩
  exact ⟨_, .inr ⟨_, hvideo, by decide +kernel⟩, fun now => ClockSync.delayOf_awaiting now hawaits⟩

end Playback

end VideoPlayerCore
