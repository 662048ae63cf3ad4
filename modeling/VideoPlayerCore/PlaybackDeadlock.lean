import VideoPlayerCore.PlaybackStuck

/-!
# A playback that is stuck

Nobody leads out of a stuck state, and a file that begins with more video packets than
the queues of the video stream hold gets there.

    s.Stuck cfg → Reach (Playback.step cfg) s t → t.Stuck cfg      (Playback.stuck_forever)
    reader at a video packet, all audio played →
      (s.Stuck cfg ↔ ¬ VideoDue cfg delivered)                     (Playback.stuck_iff_not_due)
    reader at an audio packet, all video shown →
      (s.Stuck cfg ↔ videoFrames delivered = [])                   (Playback.stuck_iff_no_video)
    frames.length = packetRoom + videoRoom + 2 →
      file.items = frames ++ video packet ++ .. →
      ∃ s, Reach (Playback.step cfg) (Playback.start file) s ∧ s.Stuck cfg
                                                                  (Playback.stuck_of_video_first)
-/

namespace VideoPlayerCore

open Machine

variable {cfg : PlaybackConfig} {file : MediaFile} {s t : Playback}

/-! ## A stuck state is left by no step -/

section
variable {F : Type} {p q : Pipe (directCodec F)} {room : Nat}

/-- Without a packet and without a frame, the coroutine goes round its loop. -/
theorem Pipe.idle_decoderStep (hpackets : p.packetQueue = []) (hpending : p.pending = [])
    (hs : p.decoderStep room true = some q) :
    q.packetQueue = [] ∧ q.pending = [] ∧ q.frameQueue = p.frameQueue := by
  obtain ⟨packetQueue, decoder, codec, frameQueue⟩ := p
  obtain rfl : packetQueue = [] := hpackets
  cases decoder with
  | top =>
    obtain rfl := Option.some.inj hs
    exact ⟨rfl, rfl, rfl⟩
  | reading =>
    obtain rfl := Option.some.inj hs
    exact ⟨rfl, rfl, rfl⟩
  | emitting eof frames =>
    obtain ⟨hnil, heof⟩ := List.append_eq_nil_iff.mp hpending
    obtain rfl := List.map_eq_nil_iff.mp hnil
    cases eof with
    | false =>
      obtain rfl := Option.some.inj hs
      exact ⟨rfl, rfl, rfl⟩
    | true => cases heof
  | flushing =>
    obtain rfl := Option.some.inj hs
    exact ⟨rfl, rfl, rfl⟩
  | exited => cases hs

theorem Playback.Drained.decoderStep (h : Playback.Drained p)
    (hs : p.decoderStep room true = some q) : Playback.Drained q := by
  obtain ⟨hpackets, hpending, hframes⟩ := h
  obtain ⟨hpackets', hpending', hsame⟩ := Pipe.idle_decoderStep hpackets hpending hs
  exact ⟨hpackets', hpending', hsame.trans hframes⟩

theorem Playback.Drained.takeFrame (h : Playback.Drained p) : p.takeFrame = none := by
  unfold Pipe.takeFrame
  rw [h.2.2]

theorem Playback.Jammed.write (h : Playback.Jammed p room) (pkt : Option F) :
    p.write pkt = none := by
  unfold Pipe.write
  rw [if_neg (by rw [h.1]; exact Nat.lt_irrefl _)]

end

/-- With audio as the master, or before it has started, a call does not change what the next
one gives. -/
theorem ClockSync.delayOf_again {sync : ClockSync}
    (h : sync.type = .audio ∨ sync.awaitsAudio = true) (timeBase now now' : ℚ) (f : VideoFrame) :
    ((sync.delayOf timeBase now f).1.delayOf timeBase now' f).2 =
      (sync.delayOf timeBase now' f).2 := by
  have hawaits : (sync.delayOf timeBase now f).1.awaitsAudio = sync.awaitsAudio := by
    unfold awaitsAudio
    rw [delayOf_audio]
  rcases h with htype | hwait
  · rw [delayOf_snd (by rw [delayOf_type, htype]), delayOf_snd htype, delayOf_startPts,
      delayOf_audio, Option.or_assoc, Option.or_self, hawaits]
  · rw [delayOf_awaits timeBase now' f (hawaits.trans hwait), delayOf_awaits timeBase now' f hwait]

namespace Playback

theorem AwaitsAudio.videoDisplayStep {now : ℚ} (h : s.AwaitsAudio cfg)
    (hkind : s.sync.type = .audio ∨ s.sync.awaitsAudio = true)
    (hs : s.videoDisplayStep cfg now = some t) :
    ∃ sync display, t = { s with sync := sync, videoDisplay := display } ∧ t.AwaitsAudio cfg ∧
      (s.sync.video.startPts ≠ none → sync.video.startPts ≠ none) := by
  obtain ⟨f, hcall | ⟨delay, hwaiting, hpos⟩, hwait⟩ := h
  · have hdelay := hwait now
    have hagain := fun now' => ClockSync.delayOf_again hkind cfg.timeBase now now' f
    have hstart := ClockSync.delayOf_startPts cfg.timeBase s.sync now f
    unfold Playback.videoDisplayStep at hs
    rw [hcall] at hs
    dsimp only at hs
    generalize s.sync.delayOf cfg.timeBase now f = r at hs hdelay hagain hstart
    obtain ⟨sync, delay⟩ := r
    obtain rfl := Option.some.inj hs
    refine ⟨sync, _, rfl, ⟨f, .inr ⟨delay, rfl, hdelay⟩, fun now' =>
      (congrArg Pts.pos (hagain now')).trans (hwait now')⟩, fun hne => ?_⟩
    obtain ⟨v, hv⟩ := Option.ne_none_iff_exists'.mp hne
    rw [hstart, hv]
    simp
  · unfold Playback.videoDisplayStep at hs
    rw [hwaiting] at hs
    dsimp only at hs
    rw [if_pos hpos] at hs
    obtain rfl := Option.some.inj hs
    exact ⟨s.sync, _, rfl, ⟨f, .inl rfl, hwait⟩, id⟩

theorem AwaitsVideo.of_video (h : s.AwaitsVideo) (hdisplay : t.audioDisplay = s.audioDisplay)
    (hvideo : t.sync.video = s.sync.video) : t.AwaitsVideo := by
  obtain ⟨pts, avail, hstarting, hwait⟩ := h
  refine ⟨pts, avail, hdisplay.trans hstarting, fun now => ?_⟩
  have hsame := hwait now
  unfold ClockSync.calAudioDelay ClockSync.awaitsVideo at hsame ⊢
  dsimp only at hsame ⊢
  rw [ClockSync.startAudio_video] at hsame ⊢
  rw [hvideo]
  exact hsame

theorem AwaitsVideo.audioDisplayStep {now : ℚ} (h : s.AwaitsVideo)
    (hs : s.audioDisplayStep cfg now = some t) :
    ∃ sync, t = { s with sync := sync } ∧ sync.video = s.sync.video ∧
      sync.audio.startPts = s.sync.audio.startPts.or (some s.header) := by
  obtain ⟨pts, avail, hstarting, hwait⟩ := h
  have hdelay := hwait now
  have hvideo := ClockSync.calAudioDelay_video s.sync now (some s.header) (some 0)
  have hstart := ClockSync.calAudioDelay_startPts s.sync now (some s.header) (some 0)
  unfold Playback.audioDisplayStep at hs
  rw [hstarting] at hs
  dsimp only at hs
  generalize s.sync.calAudioDelay now (some s.header) (some 0) = r at hs hdelay hvideo hstart
  obtain ⟨sync, delay⟩ := r
  dsimp only at hs hdelay hvideo hstart
  rw [if_pos hdelay, ← hstarting] at hs
  obtain rfl := Option.some.inj hs
  exact ⟨sync, rfl, hvideo, hstart⟩

/-- Whoever can move in a stuck state asks for the same delay again. -/
theorem stuck_step {a : PlaybackAct} (h : s.Stuck cfg)
    (htype : ∀ item, s.reader = .writing item → s.sync.type = .audio)
    (hs : s.step cfg a = some t) : t.Stuck cfg := by
  rcases h with ⟨⟨pkt, hreader⟩, hjammed, hwait, hdrained, hdisplay, hblocks⟩ |
    ⟨⟨pkt, hreader⟩, hjammed, hwait, hdrained, hdisplay⟩
  · cases a with
    | reader =>
      rw [step, readerStep, hreader] at hs
      dsimp only at hs
      rw [hjammed.write] at hs
      cases hs
    | videoDecoder =>
      rw [step, hjammed.2] at hs
      cases hs
    | videoDisplay now =>
      obtain ⟨sync, display, rfl, hnext, -⟩ := hwait.videoDisplayStep (.inl (htype _ hreader)) hs
      exact .inl ⟨⟨pkt, hreader⟩, hjammed, hnext, hdrained, hdisplay, hblocks⟩
    | audioDecoder =>
      obtain ⟨audio, haudio, rfl⟩ := Option.map_eq_some_iff.mp hs
      exact .inl ⟨⟨pkt, hreader⟩, hjammed, hwait, hdrained.decoderStep haudio, hdisplay, hblocks⟩
    | audioDisplay now =>
      rw [step, Playback.audioDisplayStep, hdisplay] at hs
      dsimp only at hs
      rw [hdrained.takeFrame] at hs
      cases hs
    | callback now =>
      rw [step, callbackStep, hblocks] at hs
      cases hs
  · cases a with
    | reader =>
      rw [step, readerStep, hreader] at hs
      dsimp only at hs
      rw [hjammed.write] at hs
      cases hs
    | videoDecoder =>
      obtain ⟨video, hvideo, rfl⟩ := Option.map_eq_some_iff.mp hs
      exact .inr ⟨⟨pkt, hreader⟩, hjammed, hwait, hdrained.decoderStep hvideo, hdisplay⟩
    | videoDisplay now =>
      rw [step, Playback.videoDisplayStep, hdisplay] at hs
      dsimp only at hs
      rw [hdrained.takeFrame] at hs
      cases hs
    | audioDecoder =>
      rw [step, hjammed.2] at hs
      cases hs
    | audioDisplay now =>
      obtain ⟨sync, rfl, hvideo, -⟩ := hwait.audioDisplayStep hs
      exact .inr ⟨⟨pkt, hreader⟩, hjammed, hwait.of_video rfl hvideo, hdrained, hdisplay⟩
    | callback now =>
      rw [step, callbackStep] at hs
      split at hs
      · cases hs
      · obtain rfl := Option.some.inj hs
        exact .inr ⟨⟨pkt, hreader⟩, hjammed, hwait.of_video rfl rfl, hdrained, hdisplay⟩

/-- A playback that is stuck stays stuck. -/
theorem stuck_forever (h : Reach (step cfg) (start file) s) (hstuck : s.Stuck cfg)
    (hrun : Reach (step cfg) s t) : t.Stuck cfg := by
  induction hrun with
  | refl => exact hstuck
  | tail hrun _ hs ih =>
    obtain ⟨delivered, videoTaken, audioTaken, hinv⟩ := inv_of_reach (h.trans hrun)
    exact stuck_step ih (fun item hreader => (hinv.audio_open hreader).1) hs

/-! ## The condition is exact where the queues are full -/

theorem Inv.delivered_eq {delivered delivered' : List Item} {videoTaken : List (Option VideoFrame)}
    {audioTaken : List (Option AudioFrame)} (h : Inv cfg file delivered' videoTaken audioTaken s)
    {item : Item} (hreader : s.reader = .writing item)
    (hitems : file.items = delivered ++ item :: s.rest) : delivered' = delivered :=
  List.append_cancel_right ((h.items_of_writing hreader).symm.trans hitems)

/-- A reader that waits for a video frame which is called for, with all audio played. -/
theorem stuck_iff_not_due (h : Reach (step cfg) (start file) s) {delivered : List Item}
    {pkt : Option VideoFrame} {f : VideoFrame}
    (hitems : file.items = delivered ++ .video pkt :: s.rest)
    (hreader : s.reader = .writing (.video pkt)) (hjammed : Jammed s.video videoRoom)
    (hcalling : s.videoDisplay = .calling f) (hdrained : Drained s.audio)
    (hdisplay : s.audioDisplay = .reading) (hblocks : s.blocks = []) :
    s.Stuck cfg ↔ ¬ VideoDue cfg delivered := by
  obtain ⟨delivered', videoTaken, audioTaken, hinv⟩ := inv_of_reach h
  obtain rfl := hinv.delivered_eq hreader hitems
  rw [← hinv.delay_iff hreader hjammed hdrained hdisplay hblocks (by rw [hcalling]; rfl)]
  constructor
  · rintro (⟨-, -, ⟨g, hheld, hwait⟩, -⟩ | ⟨⟨pkt', haudio⟩, -⟩)
    · rcases hheld with hg | ⟨delay, hwaiting, -⟩
      · cases hcalling.symm.trans hg
        exact hwait
      · cases hcalling.symm.trans hwaiting
    · cases hreader.symm.trans haudio
  · intro hwait
    exact .inl ⟨⟨pkt, hreader⟩, hjammed, ⟨f, .inl hcalling, hwait⟩, hdrained, hdisplay, hblocks⟩

/-- A reader that waits for an audio frame which begins a block, with all video shown. -/
theorem stuck_iff_no_video (h : Reach (step cfg) (start file) s) {delivered : List Item}
    {pkt : Option AudioFrame} {pts : Int} {avail : Nat}
    (hitems : file.items = delivered ++ .audio pkt :: s.rest)
    (hreader : s.reader = .writing (.audio pkt)) (hjammed : Jammed s.audio audioRoom)
    (hstarting : s.audioDisplay = .starting pts avail) (hdrained : Drained s.video)
    (hdisplay : s.videoDisplay = .reading) : s.Stuck cfg ↔ videoFrames delivered = [] := by
  obtain ⟨delivered', videoTaken, audioTaken, hinv⟩ := inv_of_reach h
  obtain rfl := hinv.delivered_eq hreader hitems
  rw [← hinv.video_started_iff hdrained hdisplay, ← hinv.awaitsVideo_iff hstarting]
  constructor
  · rintro (⟨⟨pkt', hvideo⟩, -⟩ | ⟨-, -, hwait, -⟩)
    · cases hreader.symm.trans hvideo
    · exact hwait
  · intro hwait
    exact .inr ⟨⟨pkt, hreader⟩, hjammed, hwait, hdrained, hdisplay⟩

/-! ## A file that gets there -/

def videoItems (frames : List VideoFrame) : List Item := frames.map fun f => .video (some f)

/-- The reader alone, with room in the packet queue. -/
theorem reader_run (cfg : PlaybackConfig) (rest : List Item) {frames : List VideoFrame}
    (hreader : s.reader = .reading) (hrest : s.rest = videoItems frames ++ rest)
    (hroom : s.video.packetQueue.length + frames.length ≤ packetRoom) :
    Reach (step cfg) s { s with
      rest := rest
      video := { s.video with packetQueue := s.video.packetQueue ++ frames.map some } } := by
  induction frames generalizing s with
  | nil =>
    obtain rfl : s.rest = rest := hrest
    rw [List.map_nil, List.append_nil]
    exact .refl
  | cons f frames ih =>
    rw [List.length_cons] at hroom
    have hread : s.step cfg .reader = some { s with
        reader := .writing (.video (some f)), rest := videoItems frames ++ rest } := by
      rw [step, readerStep, hreader, hrest]
      rfl
    have hwrite : step cfg { s with
        reader := .writing (.video (some f)), rest := videoItems frames ++ rest } .reader =
        some { s with
          rest := videoItems frames ++ rest
          video := { s.video with packetQueue := s.video.packetQueue ++ [some f] } } := by
      rw [step, readerStep]
      dsimp only
      rw [Pipe.write, if_pos (by omega), Option.map_some, hreader]
    have hmore := ih (s := { s with
        rest := videoItems frames ++ rest
        video := { s.video with packetQueue := s.video.packetQueue ++ [some f] } }) hreader rfl (by
      rw [List.length_append, List.length_singleton]
      omega)
    rw [List.append_assoc] at hmore
    exact ((ReachIf.single trivial hread).tail trivial hwrite).trans hmore

/-- The display thread has the first frame, the frame queue the second one and the decoder
the third one. -/
def behindThree (frames : List VideoFrame) (v₁ v₂ v₃ : VideoFrame) (rest : List Item)
    (audio : Pipe (directCodec AudioFrame)) : Playback where
  rest := videoItems frames ++ rest
  video := { decoder := .emitting false [v₃], frameQueue := [some v₂] }
  videoDisplay := .calling v₁
  audio := audio

theorem reach_behindThree (cfg : PlaybackConfig) (frames : List VideoFrame) (v₁ v₂ v₃ : VideoFrame)
    (rest : List Item) (audio : Pipe (directCodec AudioFrame)) :
    Reach (step cfg) { rest := videoItems (v₁ :: v₂ :: v₃ :: frames) ++ rest, audio := audio }
      (behindThree frames v₁ v₂ v₃ rest audio) := by
  have hrun : exec (step cfg)
      { rest := videoItems (v₁ :: v₂ :: v₃ :: frames) ++ rest, audio := audio }
      [.reader, .reader, .videoDecoder, .videoDecoder, .videoDecoder, .videoDecoder,
        .videoDisplay 0,
        .reader, .reader, .videoDecoder, .videoDecoder, .videoDecoder, .videoDecoder,
        .reader, .reader, .videoDecoder, .videoDecoder] =
      some (behindThree frames v₁ v₂ v₃ rest audio) := rfl
  exact reach_of_exec hrun

/-- The reader fills the queues of the video stream while audio does nothing. -/
theorem reach_jammed (cfg : PlaybackConfig) {frames : List VideoFrame} (pkt : Option VideoFrame)
    (rest : List Item) (audio : Pipe (directCodec AudioFrame))
    (hlength : frames.length = packetRoom + videoRoom + 2) :
    ∃ s, Reach (step cfg) { rest := videoItems frames ++ .video pkt :: rest, audio := audio } s ∧
      s.reader = .writing (.video pkt) ∧ Jammed s.video videoRoom ∧ s.AwaitsAudio cfg ∧
      s.audio = audio ∧ s.audioDisplay = .reading ∧ s.blocks = [] ∧
      s.videoEof = false ∧ s.audioEof = false := by
  obtain ⟨v₁, v₂, v₃, frames, rfl⟩ : ∃ v₁ v₂ v₃ frames', frames = v₁ :: v₂ :: v₃ :: frames' := by
    match frames, hlength with
    | v₁ :: v₂ :: v₃ :: frames, _ => exact ⟨v₁, v₂, v₃, frames, rfl⟩
  have hlength : frames.length = packetRoom := by
    simp only [List.length_cons, videoRoom] at hlength
    omega
  have hfilled := (reach_behindThree cfg frames v₁ v₂ v₃ (.video pkt :: rest) audio).trans
    (reader_run cfg (.video pkt :: rest) rfl rfl (by simp [behindThree, hlength]))
  refine ⟨_, hfilled.tail (a := .reader) trivial rfl, rfl, ⟨?_, rfl⟩, ?_, rfl, rfl, rfl, rfl, rfl⟩
  · simp [behindThree, hlength]
  · exact ⟨v₁, .inl rfl, fun now => ClockSync.delayOf_awaiting now rfl⟩

/-- As many video packets before all audio as the queues of the video stream hold, and one
more to be written. -/
theorem stuck_of_video_first {frames : List VideoFrame} {pkt : Option VideoFrame} {rest : List Item}
    (hitems : file.items = videoItems frames ++ .video pkt :: rest)
    (hlength : frames.length = packetRoom + videoRoom + 2) :
    ∃ s, Reach (step cfg) (start file) s ∧ s.videoEof = false ∧ s.audioEof = false ∧
      s.Stuck cfg := by
  obtain ⟨s, hs, hreader, hjammed, hwait, haudio, hdisplay, hblocks, hvideoEof, haudioEof⟩ :=
    reach_jammed cfg pkt rest {} hlength
  refine ⟨s, ?_, hvideoEof, haudioEof, .inl ⟨⟨pkt, hreader⟩, hjammed, hwait, ?_, hdisplay, hblocks⟩⟩
  · rw [start, hitems]
    exact hs
  · rw [haudio]
    exact ⟨rfl, rfl, rfl⟩

def soundCard : PlaybackConfig where
  samples := 1024
  freq := 44100
  timeBase := 1 / 25
  samples_pos := by decide

/-- Frames `i`, .., `i + n - 1` of a film. -/
def filmFrames (i n : Nat) : List VideoFrame :=
  (List.range' i n).map fun k : Nat => ⟨some (k : Int), 1⟩

theorem filmFrames_increasing (i n : Nat) : (filmFrames i n).Pairwise fun f g =>
    ∃ x y, f.pts = some x ∧ g.pts = some y ∧ x < y := by
  unfold filmFrames
  rw [List.pairwise_map]
  refine List.Pairwise.imp ?_ List.pairwise_lt_range'
  intro k l hlt
  exact ⟨k, l, rfl, rfl, Int.ofNat_lt.mpr hlt⟩

theorem filmFrames_concat (n : Nat) :
    filmFrames 0 (n + 1) = filmFrames 0 n ++ [⟨some (n : Int), 1⟩] := by
  unfold filmFrames
  rw [List.range'_concat, List.map_append, Nat.zero_add, Nat.one_mul]
  rfl

theorem filterMap_video (frames : List VideoFrame) :
    (frames.map Packet.video).filterMap Packet.video? = frames := by
  rw [List.filterMap_map, show Packet.video? ∘ Packet.video = some from rfl, List.filterMap_some]

theorem filterMap_audio (frames : List VideoFrame) :
    (frames.map Packet.video).filterMap Packet.audio? = [] := by
  rw [List.filterMap_map, show Packet.audio? ∘ Packet.video = fun _ => none from rfl,
    List.filterMap_none]

/-- All of the film in front of its sound. -/
def filmFirst (n : Nat) : MediaFile where
  packets := (filmFrames 0 n).map .video ++ [.audio ⟨0, 1024⟩]
  video_increasing := by
    rw [List.filterMap_append, filterMap_video]
    exact (List.append_nil _).symm ▸ filmFrames_increasing 0 n
  audio_increasing := by
    rw [List.filterMap_append, filterMap_audio]
    exact List.pairwise_singleton _ _

theorem filmFirst_items (n : Nat) : (filmFirst (n + 1)).items = videoItems (filmFrames 0 n) ++
    .video (some ⟨some n, 1⟩) :: [.audio (some ⟨0, 1024⟩), .video none, .audio none] := by
  show ((filmFrames 0 (n + 1)).map Packet.video ++ [Packet.audio ⟨0, 1024⟩]).map Packet.item ++ _ = _
  rw [filmFrames_concat]
  simp [videoItems, Packet.item]

theorem filmFirst_stuck : ∃ s, Reach (step soundCard) (start (filmFirst 2051)) s ∧
    s.videoEof = false ∧ s.audioEof = false ∧ s.Stuck soundCard :=
  stuck_of_video_first (filmFirst_items 2050) (by simp [filmFrames, packetRoom, videoRoom])

end Playback

end VideoPlayerCore
