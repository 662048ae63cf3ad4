import VideoPlayerCore.PlaybackRuns

/-!
# Where a playback gets stuck

A full packet queue, a decoder with a frame and a full frame queue hold a fixed number
of frames.  With the reader blocked behind them, the display thread of that stream has
the frame that is so many before the packet to be written, and the clock of the other
stream stands where the packets that were delivered have brought it.

    Inv cfg file delivered videoTaken audioTaken s → file.InStep cfg →
      ¬ s.Stuck cfg                                               (Playback.Inv.not_blocked)
-/

namespace VideoPlayerCore

open Machine

variable {cfg : PlaybackConfig} {file : MediaFile} {s : Playback}

/-! ## Files that are interleaved well enough -/

def videoFrames (items : List Item) : List VideoFrame :=
  (items.filterMap Item.video?).reduceOption

def audioFrames (items : List Item) : List AudioFrame :=
  (items.filterMap Item.audio?).reduceOption

theorem videoFrames_append (a b : List Item) :
    videoFrames (a ++ b) = videoFrames a ++ videoFrames b := by
  unfold videoFrames
  rw [List.filterMap_append, List.reduceOption_append]

theorem audioFrames_append (a b : List Item) :
    audioFrames (a ++ b) = audioFrames a ++ audioFrames b := by
  unfold audioFrames
  rw [List.filterMap_append, List.reduceOption_append]

/-- The block at which audio's clock stands once all full blocks of the frames are played;
before the first one is, its own time. -/
def audioReached (cfg : PlaybackConfig) (frames : List AudioFrame) : Option ℚ :=
  (sampleTimes cfg.freq frames)[
    ((sampleTimes cfg.freq frames).length / cfg.samples - 1) * cfg.samples]?

/-- The frame that the display thread has while the packet after `items` finds no room is
due, with the audio of `items` played. -/
def VideoDue (cfg : PlaybackConfig) (items : List Item) : Prop :=
  ∃ first f start reached,
    (videoFrames items).head? = some first ∧
    (videoFrames items)[(videoFrames items).length - (packetRoom + videoRoom + 2)]? = some f ∧
    (sampleTimes cfg.freq (audioFrames items))[0]? = some start ∧
    audioReached cfg (audioFrames items) = some reached ∧
    f.time cfg.timeBase - first.time cfg.timeBase ≤ reached - start

/-- Neither stream is ahead of the other one by more than its queues hold. -/
structure MediaFile.InStep (cfg : PlaybackConfig) (file : MediaFile) : Prop where
  video : ∀ before pkt rest, file.items = before ++ .video pkt :: rest →
    packetRoom + videoRoom + 2 ≤ (videoFrames before).length → VideoDue cfg before
  audio : ∀ before pkt rest, file.items = before ++ .audio pkt :: rest →
    videoFrames before = [] →
    ((audioFrames before).dropWhile fun f => f.samples = 0).length < packetRoom + audioRoom + 2

theorem length_videoFrames_le (items : List Item) : (videoFrames items).length ≤ items.length :=
  (List.reduceOption_length_le _).trans (List.length_filterMap_le _ _)

theorem length_audioFrames_le (items : List Item) : (audioFrames items).length ≤ items.length :=
  (List.reduceOption_length_le _).trans (List.length_filterMap_le _ _)

/-- A file that the queues of one stream hold is in step. -/
theorem MediaFile.inStep_of_short (cfg : PlaybackConfig)
    (h : file.items.length ≤ packetRoom + videoRoom + 2) : file.InStep cfg where
  video before pkt rest hitems hlong := by
    have hframes := length_videoFrames_le before
    rw [hitems, List.length_append, List.length_cons] at h
    omega
  audio before pkt rest hitems _ := by
    have hframes := length_audioFrames_le before
    have hdrop := (List.dropWhile_sublist (l := audioFrames before)
      (fun f : AudioFrame => f.samples = 0)).length_le
    have hrooms : videoRoom ≤ audioRoom := by decide
    rw [hitems, List.length_append, List.length_cons] at h
    omega

/-! ## What the queues hold -/

/-- Before a write of the stream, its NULL was not written. -/
theorem none_notMem_before {α : Type} {f : Item → Option (Option α)} {before rest : List Item}
    {item : Item} {pkt : Option α} {xs : List α} (hf : f item = some pkt)
    (h : (before ++ item :: rest).filterMap f = xs.map some ++ [none]) :
    none ∉ before.filterMap f := by
  rw [List.filterMap_append, List.filterMap_cons_some hf] at h
  exact fun hmem => List.cons_ne_nil _ _ (Pipe.eq_nil_of_marked h hmem)

theorem MediaFile.video_before {before rest : List Item} {pkt : Option VideoFrame}
    (h : file.items = before ++ .video pkt :: rest) : none ∉ before.filterMap Item.video? :=
  none_notMem_before rfl (h ▸ file.items_video)

theorem MediaFile.audio_before {before rest : List Item} {pkt : Option AudioFrame}
    (h : file.items = before ++ .audio pkt :: rest) : none ∉ before.filterMap Item.audio? :=
  none_notMem_before rfl (h ▸ file.items_audio)

theorem length_reduceOption_of_notMem {α : Type} {l : List (Option α)} (h : none ∉ l) :
    l.reduceOption.length = l.length := by
  rw [List.reduceOption_length_eq_iff]
  intro x hx
  rw [Option.isSome_iff_ne_none]
  rintro rfl
  exact h hx

section
variable {F : Type} {p : Pipe (directCodec F)} {fed taken : List (Option F)} {room : Nat}

/-- The frames that were taken are the first ones. -/
theorem Pipe.Carries.frames_begin (h : p.Carries fed taken) :
    taken.reduceOption <+: fed.reduceOption := by
  rw [← h.conserved, List.append_assoc, List.append_assoc, List.reduceOption_append]
  exact List.prefix_append _ _

/-- Of a jammed stream all but `packetRoom + room + 1` frames were taken. -/
theorem Pipe.Carries.jammed (h : p.Carries fed taken) (hfits : p.Fits room)
    (hjammed : Playback.Jammed p room) (hnone : none ∉ fed) :
    taken.reduceOption.length + (packetRoom + room + 1) = fed.reduceOption.length := by
  obtain ⟨hpackets, hstep⟩ := hjammed
  obtain ⟨hframes, hpending⟩ := hfits.jammed hstep
  have hall := h.conserved
  have htaken : none ∉ taken := fun hmem => hnone (by
    rw [← hall]
    simp [hmem])
  rw [length_reduceOption_of_notMem hnone, length_reduceOption_of_notMem htaken, ← hall]
  simp only [List.length_append]
  omega

/-- Of a drained stream all frames were taken. -/
theorem Pipe.Carries.of_drained (h : p.Carries fed taken) (hdrained : Playback.Drained p) :
    taken = fed := by
  obtain ⟨hpackets, hpending, hframes⟩ := hdrained
  rw [← h.conserved, hframes, hpending, hpackets]
  simp

end

/-! ## What the clocks say -/

/-- A call of `calVideoDelay` measures from the first frame. -/
theorem VideoInv.start_or {frames : List VideoFrame} {display : VideoDisplay} {start : Pts}
    {f : VideoFrame} (h : VideoInv cfg frames display start) (hf : display.frame? = some f) :
    ∃ first, frames.head? = some first ∧
      start.or (some (f.time cfg.timeBase)) = some (first.time cfg.timeBase) := by
  by_cases hcall : display = .calling f
  · rw [hcall] at h
    rcases (h.call none).started with ⟨hnone, -⟩ | hstart
    · cases start <;> cases hnone
    · exact hstart
  · obtain ⟨first, hfirst, hstart⟩ := h.start_of_held hf hcall
    exact ⟨first, hfirst, by rw [hstart]; rfl⟩

namespace ClockSync

variable {sync : ClockSync} {now timeBase v a c : ℚ} {f : VideoFrame}

/-- With audio as the master the delay does not depend on the wall time. -/
theorem delayOf_snd (htype : sync.type = .audio) : (sync.delayOf timeBase now f).2 =
    if sync.awaitsAudio then some 0.01
    else forgive ((Pts.sub (some (f.time timeBase))
      (sync.video.startPts.or (some (f.time timeBase)))).sub sync.audio.getTime)
      (some (f.length timeBase)) := by
  have hawaits : (sync.startVideo now (some (f.time timeBase))).awaitsAudio =
      sync.awaitsAudio := by
    unfold awaitsAudio
    rw [startVideo_audio]
  obtain ⟨v, hv⟩ : ∃ v, sync.video.startPts.or (some (f.time timeBase)) = some v := by
    cases sync.video.startPts <;> exact ⟨_, rfl⟩
  have hstart : (sync.startVideo now (some (f.time timeBase))).alignVideo.video.startPts =
      some v := by
    apply alignVideo_startPts
    rw [startVideo_startPts]
    exact hv
  have hmaster : (sync.startVideo now (some (f.time timeBase))).alignVideo.getMasterClock =
      sync.audio := by
    unfold getMasterClock
    rw [alignVideo_type, startVideo_type, htype]
    simp
  unfold delayOf calVideoDelay
  dsimp only
  rw [hawaits]
  split
  · rfl
  · unfold videoDiff
    rw [hstart, hmaster, hv]

/-- As long as audio has not started, the delay is 0.01. -/
theorem delayOf_awaits (timeBase now : ℚ) (f : VideoFrame) (h : sync.awaitsAudio = true) :
    (sync.delayOf timeBase now f).2 = some 0.01 := by
  have hawaits : (sync.startVideo now (some (f.time timeBase))).awaitsAudio = true := by
    unfold awaitsAudio at h ⊢
    rwa [startVideo_audio]
  unfold delayOf calVideoDelay
  dsimp only
  rw [if_pos hawaits]

theorem delayOf_awaiting (now : ℚ) (h : sync.awaitsAudio = true) :
    (sync.delayOf timeBase now f).2.pos = true := by
  rw [delayOf_awaits timeBase now f h]
  decide +kernel

/-- With both clocks started a frame is delayed while audio's clock is behind it. -/
theorem delayOf_pos_iff (now : ℚ) (htype : sync.type = .audio)
    (ha : sync.audio.startPts = some a) (hc : sync.audio.currentPts = some c)
    (hv : sync.video.startPts.or (some (f.time timeBase)) = some v) :
    (sync.delayOf timeBase now f).2.pos = true ↔ c - a < f.time timeBase - v := by
  have hawaits : sync.awaitsAudio = false := by
    unfold awaitsAudio
    rw [ha]
    simp
  rw [delayOf_snd htype, hawaits, if_neg Bool.false_ne_true, hv, Clock.getTime, hc, ha,
    Pts.sub_some, Pts.sub_some, Pts.sub_some]
  unfold forgive
  split
  · next hlate =>
    obtain ⟨-, hneg⟩ := of_decide_eq_true hlate
    refine ⟨fun hpos => absurd hpos (by decide +kernel), fun hlt => ?_⟩
    linarith
  · rw [Pts.pos, decide_eq_true_iff]
    exact sub_pos

end ClockSync

/-- Before video's clock is started, no sample is in a block, and the frame that is cut is
the first one with samples. -/
theorem AudioInv.first_sounding {frames : List AudioFrame} {n played : Nat} {pts : Int}
    {avail : Nat} (h : AudioInv cfg frames n played s)
    (hstarting : s.audioDisplay = .starting pts avail) (hstart : s.sync.video.startPts = none) :
    ∃ before f, frames = before ++ [f] ∧ (∀ g ∈ before, g.samples = 0) ∧ f.samples ≠ 0 := by
  have hn : n = 0 := by
    apply Classical.byContradiction
    intro hne
    exact h.video (.inl hne) hstart
  obtain ⟨before, f, hframes, hbefore⟩ := h.held (pts, avail) (by rw [hstarting]; rfl)
  have hsilent : sampleTimes cfg.freq before = [] :=
    List.length_eq_zero_iff.mp (by omega)
  refine ⟨before, f, hframes, fun g hg => ?_, fun hzero => ?_⟩
  · have hnil := List.flatMap_eq_nil_iff.mp hsilent g hg
    rw [← length_sampleRun cfg.freq g.pts g.samples, hnil]
    rfl
  · apply h.busy (by rw [hstarting]; rfl)
    rw [← h.rest, hn, List.drop_zero, hframes, sampleTimes_append, hsilent, sampleTimes_singleton,
      hzero]
    rfl

/-! ## A file in step -/

namespace Playback

variable {delivered : List Item} {videoTaken : List (Option VideoFrame)}
  {audioTaken : List (Option AudioFrame)}

/-- While something is to be written, audio has not ended. -/
theorem Inv.audio_open (h : Inv cfg file delivered videoTaken audioTaken s) {item : Item}
    (hreader : s.reader = .writing item) :
    s.sync.type = .audio ∧ ∃ n played, AudioInv cfg audioTaken.reduceOption n played s := by
  rcases h.audio with ⟨hended, -⟩ | ⟨-, -, htype, hinv⟩
  · have hitems := h.items
    rw [(h.audio_ended hended).1, hreader, List.append_assoc] at hitems
    exact absurd (List.append_right_eq_self.mp hitems.symm) (List.cons_ne_nil _ _)
  · exact ⟨htype, hinv⟩

theorem Inv.items_of_writing (h : Inv cfg file delivered videoTaken audioTaken s) {item : Item}
    (hreader : s.reader = .writing item) : file.items = delivered ++ item :: s.rest := by
  have hitems := h.items
  rwa [hreader, List.append_assoc] at hitems

/-- Behind a jammed video stream the display thread has the frame that `VideoDue` names. -/
theorem Inv.video_held (h : Inv cfg file delivered videoTaken audioTaken s)
    {pkt : Option VideoFrame} (hreader : s.reader = .writing (.video pkt))
    (hjammed : Jammed s.video videoRoom) {f : VideoFrame} (hf : s.videoDisplay.frame? = some f) :
    packetRoom + videoRoom + 2 ≤ (videoFrames delivered).length ∧
      (videoFrames delivered)[
        (videoFrames delivered).length - (packetRoom + videoRoom + 2)]? = some f := by
  have hcount := h.videoPipe.jammed h.videoFits hjammed
    (MediaFile.video_before (h.items_of_writing hreader))
  obtain ⟨more, hmore⟩ := h.videoPipe.frames_begin
  have hlast := h.video.held f hf
  have hpos : 0 < videoTaken.reduceOption.length := by
    rw [List.length_pos_iff]
    intro hnil
    rw [hnil] at hlast
    cases hlast
  unfold videoFrames
  refine ⟨by omega, ?_⟩
  rw [show (List.filterMap Item.video? delivered).reduceOption.length -
    (packetRoom + videoRoom + 2) = videoTaken.reduceOption.length - 1 by omega, ← hmore,
    List.getElem?_append_left (by omega), ← List.getLast?_eq_getElem?, hlast]

/-- A call for that frame measures from the first frame that was delivered. -/
theorem Inv.video_start (h : Inv cfg file delivered videoTaken audioTaken s) {f : VideoFrame}
    (hf : s.videoDisplay.frame? = some f) :
    ∃ first, (videoFrames delivered).head? = some first ∧
      s.sync.video.startPts.or (some (f.time cfg.timeBase)) =
        some (first.time cfg.timeBase) := by
  obtain ⟨first, hfirst, hstart⟩ := h.video.start_or hf
  obtain ⟨more, hmore⟩ := h.videoPipe.frames_begin
  refine ⟨first, ?_, hstart⟩
  unfold videoFrames
  rw [← hmore, List.head?_append, hfirst]
  rfl

/-- With everything played, audio's clock stands at the last full block, or is not
started for want of samples. -/
theorem Inv.audio_played (h : Inv cfg file delivered videoTaken audioTaken s) {item : Item}
    (hreader : s.reader = .writing item) (hdrained : Drained s.audio)
    (hdisplay : s.audioDisplay = .reading) (hblocks : s.blocks = []) :
    s.sync.audio.startPts = none ∧ sampleTimes cfg.freq (audioFrames delivered) = [] ∨
      ∃ start reached, s.sync.audio.startPts = some start ∧
        s.sync.audio.currentPts = some reached ∧
        (sampleTimes cfg.freq (audioFrames delivered))[0]? = some start ∧
        audioReached cfg (audioFrames delivered) = some reached := by
  obtain ⟨-, n, played, hinv⟩ := h.audio_open hreader
  have hn := hinv.samples_left
  have hplayed := hinv.count
  have hclock := hinv.clock
  rw [h.audioPipe.of_drained hdrained] at hn hclock
  rw [hdisplay] at hn
  obtain rfl : n = (sampleTimes cfg.freq (audioFrames delivered)).length := hn
  rw [hblocks, List.length_nil, Nat.add_zero] at hplayed
  rcases hclock with ⟨hnone, hzero, -⟩ | ⟨a, c, ha, hc, hatime, hctime⟩
  · exact .inl ⟨hnone, List.length_eq_zero_iff.mp hzero⟩
  · rw [hplayed] at hctime
    exact .inr ⟨a, c, ha, hc, hatime, hctime⟩

/-- The frame behind which a video packet finds no room waits for ever exactly if the audio
that was delivered does not reach it. -/
theorem Inv.delay_iff (h : Inv cfg file delivered videoTaken audioTaken s)
    {pkt : Option VideoFrame} (hreader : s.reader = .writing (.video pkt))
    (hjammed : Jammed s.video videoRoom) (hdrained : Drained s.audio)
    (hdisplay : s.audioDisplay = .reading) (hblocks : s.blocks = []) {f : VideoFrame}
    (hf : s.videoDisplay.frame? = some f) :
    (∀ now, (s.sync.delayOf cfg.timeBase now f).2.pos = true) ↔ ¬ VideoDue cfg delivered := by
  have htype := (h.audio_open hreader).1
  have hheld := (h.video_held hreader hjammed hf).2
  obtain ⟨first, hfirst, hv⟩ := h.video_start hf
  rcases h.audio_played hreader hdrained hdisplay hblocks with
    ⟨hnone, hnil⟩ | ⟨start, reached, ha, hc, hstart, hreached⟩
  · refine ⟨fun _ hdue => ?_, fun _ now => ClockSync.delayOf_awaiting now ?_⟩
    · obtain ⟨_, _, _, _, _, _, hstart, -⟩ := hdue
      rw [hnil] at hstart
      cases hstart
    · unfold ClockSync.awaitsAudio
      rw [h.audioEnabled, hnone]
      rfl
  · have hpos := fun now => ClockSync.delayOf_pos_iff now htype ha hc hv
    refine ⟨fun hwait hdue => ?_, fun hnot now => (hpos now).mpr ?_⟩
    · obtain ⟨first', f', start', reached', hfirst', hf', hstart', hreached', hle⟩ := hdue
      obtain rfl := Option.some.inj (hfirst'.symm.trans hfirst)
      obtain rfl := Option.some.inj (hf'.symm.trans hheld)
      obtain rfl := Option.some.inj (hstart'.symm.trans hstart)
      obtain rfl := Option.some.inj (hreached'.symm.trans hreached)
      exact absurd ((hpos 0).mp (hwait 0)) (not_lt.mpr hle)
    · rw [← not_le]
      exact fun hle => hnot ⟨first, f, start, reached, hfirst, hheld, hstart, hreached, hle⟩

theorem Inv.not_awaitsAudio (h : Inv cfg file delivered videoTaken audioTaken s)
    (hin : file.InStep cfg) {pkt : Option VideoFrame} (hreader : s.reader = .writing (.video pkt))
    (hjammed : Jammed s.video videoRoom) (hdrained : Drained s.audio)
    (hdisplay : s.audioDisplay = .reading) (hblocks : s.blocks = []) : ¬ s.AwaitsAudio cfg := by
  rintro ⟨f, hheld, hwait⟩
  have hf : s.videoDisplay.frame? = some f := by
    rcases hheld with hcall | ⟨delay, hwaiting, -⟩
    · rw [hcall]
      rfl
    · rw [hwaiting]
      rfl
  refine (h.delay_iff hreader hjammed hdrained hdisplay hblocks hf).mp hwait ?_
  exact hin.video delivered pkt s.rest (h.items_of_writing hreader)
    (h.video_held hreader hjammed hf).1

/-- The audio display thread waits for ever exactly if video's clock is not started. -/
theorem Inv.awaitsVideo_iff (h : Inv cfg file delivered videoTaken audioTaken s) {pts : Int}
    {avail : Nat} (hstarting : s.audioDisplay = .starting pts avail) :
    s.AwaitsVideo ↔ s.sync.video.startPts = none := by
  have hdelay : ∀ now, (s.sync.calAudioDelay now (some s.header) (some 0)).2 =
      if s.sync.video.startPts.isNone then some 0.01 else some 0 := by
    intro now
    unfold ClockSync.calAudioDelay ClockSync.awaitsVideo
    dsimp only
    rw [ClockSync.startAudio_video, h.videoEnabled]
    rfl
  constructor
  · rintro ⟨_, _, -, hwait⟩
    have hpos := hwait 0
    rw [hdelay] at hpos
    split at hpos
    · next hnone => exact Option.isNone_iff_eq_none.mp hnone
    · exact absurd hpos (by decide +kernel)
  · intro hnone
    refine ⟨pts, avail, hstarting, fun now => ?_⟩
    rw [hdelay, hnone]
    decide +kernel

/-- Behind a drained video stream, video's clock is started exactly if there was a frame. -/
theorem Inv.video_started_iff (h : Inv cfg file delivered videoTaken audioTaken s)
    (hdrained : Drained s.video) (hdisplay : s.videoDisplay = .reading) :
    s.sync.video.startPts = none ↔ videoFrames delivered = [] := by
  unfold videoFrames
  rw [← h.videoPipe.of_drained hdrained]
  rcases h.video.started with ⟨hnone, hnil | ⟨f, hcall, -⟩⟩ | ⟨first, hfirst, hsome⟩
  · exact iff_of_true hnone hnil
  · rw [hdisplay] at hcall
    cases hcall
  · refine iff_of_false (by rw [hsome]; simp) fun hnil => ?_
    rw [hnil] at hfirst
    cases hfirst

theorem Inv.not_awaitsVideo (h : Inv cfg file delivered videoTaken audioTaken s)
    (hin : file.InStep cfg) {pkt : Option AudioFrame} (hreader : s.reader = .writing (.audio pkt))
    (hjammed : Jammed s.audio audioRoom) (hdrained : Drained s.video)
    (hdisplay : s.videoDisplay = .reading) : ¬ s.AwaitsVideo := by
  intro hwait
  obtain ⟨pts, avail, hstarting, -⟩ := id hwait
  have hitems := h.items_of_writing hreader
  have hstart := (h.awaitsVideo_iff hstarting).mp hwait
  have hshort := hin.audio delivered pkt s.rest hitems
    ((h.video_started_iff hdrained hdisplay).mp hstart)
  have hcount := h.audioPipe.jammed h.audioFits hjammed (MediaFile.audio_before hitems)
  obtain ⟨-, n, played, hinv⟩ := h.audio_open hreader
  obtain ⟨before, f, hframes, hsilent, hsounding⟩ := hinv.first_sounding hstarting hstart
  obtain ⟨more, hmore⟩ := h.audioPipe.frames_begin
  have hdrop : (audioFrames delivered).dropWhile (fun f => f.samples = 0) = f :: more := by
    unfold audioFrames
    rw [← hmore, hframes, List.append_assoc, List.dropWhile_append_of_pos (by simpa using hsilent)]
    simp [hsounding]
  rw [hdrop, List.length_cons] at hshort
  rw [← hmore, List.length_append] at hcount
  omega

/-- Of a file in step, the reader is never blocked behind a display thread that waits for the
other stream. -/
theorem Inv.not_blocked (h : Inv cfg file delivered videoTaken audioTaken s)
    (hin : file.InStep cfg) : ¬ s.Stuck cfg := by
  rintro (⟨⟨pkt, hreader⟩, hjammed, hwait, hdrained, hdisplay, hblocks⟩ |
    ⟨⟨pkt, hreader⟩, hjammed, hwait, hdrained, hdisplay⟩)
  · exact h.not_awaitsAudio hin hreader hjammed hdrained hdisplay hblocks hwait
  · exact h.not_awaitsVideo hin hreader hjammed hdrained hdisplay hwait

end Playback

end VideoPlayerCore
