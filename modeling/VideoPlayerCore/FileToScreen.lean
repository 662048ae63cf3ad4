import VideoPlayerCore.PlaybackSteps
import VideoPlayerCore.ReadLedger
import VideoPlayerCore.StreamRouting
import VideoPlayerCore.VideoLedger

/-!
# From the file to the screen

`FileWorld` knows what the reader does with the packets, `VideoWorld` what becomes of the frames
behind `Video::write`.  Here both take their steps together: the reader's writes and its calls of
`Video::close` are those of the video side, and both have the same decoder.

    a step of the reader is held up by the frame queue and by `Video::close` only     (reader_held)
    the frames shown = some of what the codec gives for the packets of the first video stream,
      in their order                                                                (file_to_screen)
-/

namespace VideoPlayerCore

open Machine

variable {F G : Type}

structure ScreenWorld (V : Codec Nat F) (A : Codec Nat G) where
  file : FileWorld V A
  video : VideoWorld V := {}

inductive ScreenAct
  /-- the reader and the decoders' coroutines -/
  | file (a : FileAct)
  | display (choice : DisplayChoice)
  /-- `Video::close` behind `Decoder::close` -/
  | close
  deriving DecidableEq

/-- What the step is for the video side.  A stream that is not opened is closed as one that
could not be opened. -/
def FileWorld.onVideo {V : Codec Nat F} {A : Codec Nat G} (s : FileWorld V A) :
    FileAct → Option (VideoWorldAct Nat)
  | .openFails => some (.opens false)
  | .select => if selectStreams s.types 0 {} = {} then some (.opens false) else none
  | .openStreams video _ _ => some (.opens (s.indexes.videoStreamIndex ≠ -1 && video))
  | .video => some .decoder
  | .go =>
    match s.read.pc with
    | .toVideo packet => some (.write (some packet))
    | .endVideo => some (.write none)
    | .closingVideo _ => some .close
    | _ => none
  | _ => none

/-- A part of a machine that stays or takes a step of its own whenever the machine takes one. -/
theorem reach_part {σ τ α β : Type*} {step : σ → α → Option σ} {step' : τ → β → Option τ}
    {s t : σ} (f : σ → τ)
    (hstep : ∀ s a t, step s a = some t → f t = f s ∨ ∃ b, step' (f s) b = some (f t))
    (h : Reach step s t) : Reach step' (f s) (f t) := by
  induction h with
  | refl => exact .refl
  | tail _ _ hs ih =>
    rcases hstep _ _ _ hs with hsame | ⟨b, hb⟩
    · rw [hsame]
      exact ih
    · exact ih.tail trivial hb

namespace ScreenWorld

variable {V : Codec Nat F} {A : Codec Nat G}

/-- `_audio.close()` is called when `_video.close()` has returned. -/
def atAudioClose (s : ScreenWorld V A) (a : FileAct) : Bool :=
  a = .go && s.file.read.pc = .closingAudio .stop && s.video.closing ≠ .closed

def step (s : ScreenWorld V A) : ScreenAct → Option (ScreenWorld V A)
  | .file a =>
    if s.atAudioClose a then none
    else
      (s.file.step a).bind fun file =>
        match s.file.onVideo a with
        | some b => (s.video.step b).map fun video => { file := file, video := video }
        | none => some { s with file := file }
  | .display c => (s.video.step (.display c)).map fun video => { s with video := video }
  | .close =>
    if s.file.read.pc = .closingAudio .stop then
      (s.video.step .close).map fun video => { s with video := video }
    else none

variable {s t : ScreenWorld V A} {a : ScreenAct}

/-! ## Both are runs of their own -/

theorem step_file (h : s.step a = some t) :
    t.file = s.file ∨ ∃ b, s.file.step b = some t.file := by
  cases a with
  | file b =>
    obtain ⟨-, h⟩ := Option.ite_none_left_eq_some.mp h
    obtain ⟨file, hfile, h⟩ := Option.bind_eq_some_iff.mp h
    refine .inr ⟨b, ?_⟩
    split at h
    · obtain ⟨video, -, rfl⟩ := Option.map_eq_some_iff.mp h
      exact hfile
    · obtain rfl := Option.some.inj h
      exact hfile
  | display c =>
    obtain ⟨video, -, rfl⟩ := Option.map_eq_some_iff.mp h
    exact .inl rfl
  | close =>
    obtain ⟨-, h⟩ := Option.ite_none_right_eq_some.mp h
    obtain ⟨video, -, rfl⟩ := Option.map_eq_some_iff.mp h
    exact .inl rfl

theorem step_video (h : s.step a = some t) :
    t.video = s.video ∨ ∃ b, s.video.step b = some t.video := by
  cases a with
  | file b =>
    obtain ⟨-, h⟩ := Option.ite_none_left_eq_some.mp h
    obtain ⟨file, -, h⟩ := Option.bind_eq_some_iff.mp h
    split at h
    · next c _ =>
      obtain ⟨video, hvideo, rfl⟩ := Option.map_eq_some_iff.mp h
      exact .inr ⟨c, hvideo⟩
    · obtain rfl := Option.some.inj h
      exact .inl rfl
  | display c =>
    obtain ⟨video, hvideo, rfl⟩ := Option.map_eq_some_iff.mp h
    exact .inr ⟨_, hvideo⟩
  | close =>
    obtain ⟨-, h⟩ := Option.ite_none_right_eq_some.mp h
    obtain ⟨video, hvideo, rfl⟩ := Option.map_eq_some_iff.mp h
    exact .inr ⟨_, hvideo⟩

/-! ## The reader and the video side -/

/-- Where `Video::close` stands, by what the reader does. -/
def StageOf : ReadPc → VideoClosePc → Prop
  | .opening => (· = .closed)
  | .closingVideo .wait => (· = .joiningDecoder)
  | .closingVideo .drain => (· = .drainingPackets)
  | .closingAudio .stop =>
    fun c => c ≠ .playing ∧ c ≠ .joiningDecoder ∧ c ≠ .drainingPackets
  | .closingAudio _ | .returned => (· = .closed)
  | _ => (· = .playing)

/-- `Decoder::close` of the video side is behind the reader. -/
def decoderClosed : ReadPc → Bool
  | .closingAudio _ | .returned => true
  | _ => false

/-- The two worlds are of one session. -/
structure Linked (s : ScreenWorld V A) : Prop where
  stage : StageOf s.file.read.pc s.video.closing
  decoder : decoderClosed s.file.read.pc = false → s.video.decoder = s.file.read.video
  before : s.file.read.pc = .opening → s.video.decoder = {} ∧ s.file.toVideo = []
  written : s.video.written.filterMap id = s.file.toVideo

theorem linked_start (types : List MediaType) :
    Linked ({ file := { types := types } } : ScreenWorld V A) :=
  ⟨rfl, fun _ => rfl, fun _ => ⟨rfl, rfl⟩, rfl⟩

/-- The reader's step has nothing to do with the video side. -/
theorem Linked.aside {file : FileWorld V A} (h : Linked s)
    (hstage : StageOf file.read.pc s.video.closing)
    (hclosed : decoderClosed file.read.pc = false → decoderClosed s.file.read.pc = false)
    (hvideo : file.read.video = s.file.read.video)
    (hopening : file.read.pc = .opening → s.file.read.pc = .opening)
    (hwritten : file.toVideo = s.file.toVideo) : Linked { s with file := file } := by
  refine ⟨hstage, fun hpc => ?_, fun hpc => ?_, ?_⟩
  · rw [hvideo]
    exact h.decoder (hclosed hpc)
  · rw [hwritten]
    exact h.before (hopening hpc)
  · rw [hwritten]
    exact h.written

/-- The reader goes on inside its loop. -/
theorem Linked.goes {pc : ReadPc} {file : FileWorld V A} (h : Linked s)
    (hpc : s.file.read.pc = pc) (hopen : decoderClosed pc = false)
    (hstage : StageOf file.read.pc s.video.closing)
    (hvideo : file.read.video = s.file.read.video) (hbegun : file.read.pc ≠ .opening)
    (hwritten : file.toVideo = s.file.toVideo) : Linked { s with file := file } := by
  refine h.aside hstage (fun _ => ?_) hvideo (fun hfirst => absurd hfirst hbegun) hwritten
  rw [hpc]
  exact hopen

/-- The session begins, or ends before it has begun. -/
theorem Linked.opens {ok : Bool} {file : FileWorld V A} {video : VideoWorld V} (h : Linked s)
    (hopening : s.file.read.pc = .opening)
    (hplaying : StageOf file.read.pc .playing ∧ file.read.pc ≠ .opening)
    (hvideo : file.read.video = if ok then .opened else {})
    (hwritten : file.toVideo = s.file.toVideo)
    (hopens : s.video.step (.opens ok) = some video) :
    Linked { file := file, video := video } := by
  obtain ⟨hdecoder, hnothing⟩ := h.before hopening
  simp only [VideoWorld.step] at hopens
  split at hopens
  · cases ok with
    | true =>
      obtain rfl := Option.some.inj hopens
      exact ⟨hplaying.1, fun _ => hvideo.symm, fun hpc => absurd hpc hplaying.2,
        (hwritten.trans hnothing).symm⟩
    | false =>
      obtain rfl := Option.some.inj hopens
      exact ⟨hplaying.1, fun _ => hdecoder.trans hvideo.symm, fun hpc => absurd hpc hplaying.2,
        (hwritten.trans hnothing).symm⟩
  · cases hopens

/-- `Video::write` -/
theorem Linked.write {read : ReadWorld V A} {decoder : Decoder V} {video : VideoWorld V}
    {packet : Option Nat} (h : Linked s) (hstage : StageOf s.file.read.pc = (· = .playing))
    (hopen : decoderClosed s.file.read.pc = false)
    (hdecoder : s.file.read.video.write packet = some decoder)
    (hvideo : s.video.step (.write packet) = some video)
    (hread : read.video = decoder) (hpc : StageOf read.pc = (· = .playing))
    (hopening : read.pc ≠ .opening) {toVideo : List Nat}
    (hwritten : toVideo = s.file.toVideo ++ packet.toList) (toAudio : List Nat) :
    Linked { file := { s.file with read := read, toVideo := toVideo, toAudio := toAudio }
             video := video } := by
  have hplaying : s.video.closing = .playing := by
    have hstage' := h.stage
    rw [hstage] at hstage'
    exact hstage'
  simp only [VideoWorld.step, hplaying] at hvideo
  rw [h.decoder hopen, hdecoder] at hvideo
  obtain rfl := Option.some.inj hvideo
  refine ⟨?_, fun _ => hread.symm, fun hfirst => absurd hfirst hopening, ?_⟩
  · rw [hpc]
  · dsimp only
    rw [hwritten, List.filterMap_append, h.written]
    cases packet with
    | none => rfl
    | some p => rfl

/-- The reader's next call. -/
theorem Linked.go {file : FileWorld V A} (h : Linked s) (hclose : s.atAudioClose .go = false)
    (hfile : s.file.step .go = some file)
    (ht : (match s.file.onVideo .go with
      | some b => (s.video.step b).map fun video => { file := file, video := video }
      | none => some { s with file := file }) = some t) : Linked t := by
  obtain ⟨f, hf, rfl⟩ := Option.map_eq_some_iff.mp hfile
  obtain ⟨read, hread, rfl⟩ := Option.map_eq_some_iff.mp hf
  simp only [ReadWorld.step] at hread
  have hstage := h.stage
  unfold ReadWorld.go at hread
  cases hpc : s.file.read.pc with
  | opening | reading packet | returned =>
    rw [hpc] at hread
    cases hread
  | top =>
    rw [hpc] at hread hstage
    simp only [FileWorld.onVideo, hpc] at ht
    obtain rfl := Option.some.inj hread
    obtain rfl := Option.some.inj ht
    refine h.goes hpc rfl ?_ rfl ?_ (List.append_nil _)
    all_goals dsimp only
    all_goals split
    · exact hstage
    · exact hstage
    · simp
    · simp
  | turn =>
    rw [hpc] at hread hstage
    simp only [FileWorld.onVideo, hpc] at ht
    obtain rfl := Option.some.inj ht
    dsimp only at hread
    split at hread
    · obtain rfl := Option.some.inj hread
      exact h.goes hpc rfl hstage rfl (by simp) (List.append_nil _)
    · obtain rfl := Option.some.inj hread
      exact h.goes hpc rfl hstage rfl (by simp) (List.append_nil _)
  | toVideo packet =>
    rw [hpc] at hread hstage
    simp only [FileWorld.onVideo, hpc] at ht
    obtain ⟨video, hvideo, rfl⟩ := Option.map_eq_some_iff.mp ht
    obtain ⟨decoder, hdecoder, hread⟩ := Option.bind_eq_some_iff.mp hread
    obtain rfl := Option.some.inj hread
    exact h.write (by rw [hpc]; rfl) (by rw [hpc]; rfl) hdecoder hvideo rfl rfl (by simp) rfl _
  | endVideo =>
    rw [hpc] at hread hstage
    simp only [FileWorld.onVideo, hpc] at ht
    obtain ⟨video, hvideo, rfl⟩ := Option.map_eq_some_iff.mp ht
    obtain ⟨decoder, hdecoder, hread⟩ := Option.bind_eq_some_iff.mp hread
    obtain rfl := Option.some.inj hread
    exact h.write (by rw [hpc]; rfl) (by rw [hpc]; rfl) hdecoder hvideo rfl rfl (by simp) rfl _
  | toAudio packet | endAudio =>
    rw [hpc] at hread hstage
    simp only [FileWorld.onVideo, hpc] at ht
    obtain rfl := Option.some.inj ht
    obtain ⟨decoder, hdecoder, hread⟩ := Option.bind_eq_some_iff.mp hread
    obtain rfl := Option.some.inj hread
    exact h.goes hpc rfl hstage rfl (by simp) (List.append_nil _)
  | freeing packet | endFreeing packet =>
    rw [hpc] at hread hstage
    simp only [FileWorld.onVideo, hpc] at ht
    obtain rfl := Option.some.inj ht
    obtain rfl := Option.some.inj hread
    exact h.goes hpc rfl hstage rfl (by simp) (List.append_nil _)
  | closingVideo pc =>
    rw [hpc] at hread hstage
    simp only [FileWorld.onVideo, hpc] at ht
    obtain ⟨video, hvideo, rfl⟩ := Option.map_eq_some_iff.mp ht
    have hdecoder := h.decoder (by rw [hpc]; rfl)
    have hwritten : s.video.written.filterMap id = s.file.toVideo ++ [] := by
      rw [h.written, List.append_nil]
    simp only [VideoWorld.step, VideoWorld.closeStep] at hvideo
    cases pc with
    | stop =>
      have hclosing : s.video.closing = .playing := hstage
      rw [hclosing] at hvideo
      obtain rfl := Option.some.inj hvideo
      obtain rfl := Option.some.inj hread
      exact ⟨rfl, fun _ => congrArg Decoder.stop hdecoder, by simp, hwritten⟩
    | wait =>
      have hclosing : s.video.closing = .joiningDecoder := hstage
      rw [hclosing] at hvideo
      dsimp only at hvideo hread
      rw [hdecoder] at hvideo
      split at hread
      · next hexited =>
        rw [hexited] at hvideo
        obtain rfl := Option.some.inj hvideo
        obtain rfl := Option.some.inj hread
        exact ⟨rfl, fun _ => rfl, by simp, hwritten⟩
      · cases hread
    | drain =>
      have hclosing : s.video.closing = .drainingPackets := hstage
      rw [hclosing] at hvideo
      dsimp only at hvideo hread
      rw [hdecoder] at hvideo
      cases hdrain : s.file.read.video.drain with
      | some popped =>
        rw [hdrain] at hvideo hread
        obtain rfl := Option.some.inj hvideo
        obtain rfl := Option.some.inj hread
        exact ⟨rfl, fun _ => rfl, (fun hfirst => by cases hfirst), hwritten⟩
      | none =>
        rw [hdrain] at hvideo hread
        obtain rfl := Option.some.inj hvideo
        obtain rfl := Option.some.inj hread
        refine ⟨⟨?_, ?_, ?_⟩, ?_, ?_, hwritten⟩
        all_goals exact fun hfirst => by cases hfirst
  | closingAudio pc =>
    rw [hpc] at hread hstage
    simp only [FileWorld.onVideo, hpc] at ht
    obtain rfl := Option.some.inj ht
    have hwritten : s.video.written.filterMap id = s.file.toVideo ++ [] := by
      rw [h.written, List.append_nil]
    cases pc with
    | stop =>
      have hclosed : s.video.closing = .closed := by
        unfold atAudioClose at hclose
        rw [hpc] at hclose
        simpa using hclose
      obtain rfl := Option.some.inj hread
      exact ⟨hclosed, by simp [decoderClosed], by simp, hwritten⟩
    | wait =>
      dsimp only at hread
      split at hread
      · obtain rfl := Option.some.inj hread
        exact ⟨hstage, by simp [decoderClosed], by simp, hwritten⟩
      · cases hread
    | drain =>
      dsimp only at hread
      split at hread
      · obtain rfl := Option.some.inj hread
        exact ⟨hstage, (fun hopen => by cases hopen), (fun hfirst => by cases hfirst), hwritten⟩
      · obtain rfl := Option.some.inj hread
        exact ⟨hstage, by simp [decoderClosed], by simp, hwritten⟩

/-- A step of `ReadWorld` that leaves the reader in the same part of the loop. -/
theorem Linked.follow {b : ReadAct} {file : FileWorld V A} (h : Linked s)
    (hb : b ∈ [ReadAct.read .eof, .read .error, .sleep, .rewind, .audio, .stop])
    (hfile : s.file.follow b = some file) : Linked { s with file := file } := by
  obtain ⟨read, hread, rfl⟩ := Option.map_eq_some_iff.mp hfile
  have hstage := h.stage
  simp only [List.mem_cons, List.not_mem_nil, or_false] at hb
  rcases hb with rfl | rfl | rfl | rfl | rfl | rfl
  · simp only [ReadWorld.step] at hread
    split at hread
    · next packet hpc =>
      rw [hpc] at hstage
      obtain rfl := Option.some.inj hread
      exact h.goes hpc rfl hstage rfl (fun hfirst => by cases hfirst) rfl
    · cases hread
  · simp only [ReadWorld.step] at hread
    split at hread
    · next packet hpc =>
      rw [hpc] at hstage
      obtain rfl := Option.some.inj hread
      exact h.goes hpc rfl hstage rfl (fun hfirst => by cases hfirst) rfl
    · cases hread
  · simp only [ReadWorld.step] at hread
    split at hread
    · next hpc =>
      rw [hpc] at hstage
      obtain rfl := Option.some.inj hread
      exact h.goes hpc rfl hstage rfl (fun hfirst => by cases hfirst) rfl
    · cases hread
  · simp only [ReadWorld.step] at hread
    split at hread
    · next hpc =>
      rw [hpc] at hstage
      obtain ⟨-, hread⟩ := Option.ite_none_right_eq_some.mp hread
      obtain rfl := Option.some.inj hread
      exact h.goes hpc rfl hstage rfl (fun hfirst => by cases hfirst) rfl
    · cases hread
  · obtain ⟨⟨d, events⟩, -, hread⟩ := Option.bind_eq_some_iff.mp hread
    obtain rfl := Option.some.inj hread
    exact h.aside hstage (fun hopen => hopen) rfl (fun hfirst => hfirst) rfl
  · obtain rfl := Option.some.inj hread
    exact h.aside hstage (fun hopen => hopen) rfl (fun hfirst => hfirst) rfl

/-- Behind `av_read_frame`. -/
theorem Linked.packet {streamIndex : Nat} {file : FileWorld V A} (h : Linked s)
    (hfile : s.file.afterRead streamIndex = some file) : Linked { s with file := file } := by
  unfold FileWorld.afterRead at hfile
  have hstage := h.stage
  split at hfile
  · next packet hpc =>
    rw [hpc] at hstage
    obtain rfl := Option.some.inj hfile
    refine h.goes hpc rfl ?_ rfl ?_ rfl
    · dsimp only
      split
      · exact hstage
      · split
        · exact hstage
        · exact hstage
    · dsimp only
      split
      · simp
      · split
        · simp
        · simp
  · cases hfile

/-- The end of the opening: the file has no stream that can be played. -/
theorem Linked.openFails {file : FileWorld V A} {video : VideoWorld V} {x : StreamIndexes}
    {selected : Bool} (h : Linked s)
    (hfile : ({ s.file with indexes := x, selected := selected }).follow .openFails = some file)
    (hvideo : s.video.step (.opens false) = some video) :
    Linked { file := file, video := video } := by
  obtain ⟨read, hread, rfl⟩ := Option.map_eq_some_iff.mp hfile
  simp only [ReadWorld.step] at hread
  split at hread
  · next hpc =>
    have hpc' : s.file.read.pc = .opening := hpc
    obtain rfl := Option.some.inj hread
    refine h.opens hpc' ⟨rfl, by simp⟩ ?_ rfl hvideo
    exact (h.decoder (by rw [hpc']; rfl)).symm.trans (h.before hpc').1
  · cases hread

theorem Linked.file {b : FileAct} (h : Linked s) (hs : s.step (.file b) = some t) : Linked t := by
  obtain ⟨hclose, hs⟩ := Option.ite_none_left_eq_some.mp hs
  obtain ⟨file, hfile, hs⟩ := Option.bind_eq_some_iff.mp hs
  cases b with
  | go => exact h.go (Bool.eq_false_iff.mpr hclose) hfile hs
  | openFails =>
    obtain ⟨video, hvideo, rfl⟩ := Option.map_eq_some_iff.mp hs
    obtain ⟨-, hfile⟩ := Option.ite_none_left_eq_some.mp hfile
    exact h.openFails hfile hvideo
  | select =>
    simp only [FileWorld.step] at hfile
    split at hfile
    · next hpc hselected =>
      by_cases hnone : selectStreams s.file.types 0 {} = {}
      · have hvideo : s.file.onVideo .select = some (.opens false) := if_pos hnone
        rw [hvideo] at hs
        obtain ⟨video, hvideo, rfl⟩ := Option.map_eq_some_iff.mp hs
        rw [hnone, if_pos ⟨rfl, rfl⟩] at hfile
        exact h.openFails hfile hvideo
      · have hvideo : s.file.onVideo .select = none := if_neg hnone
        rw [hvideo] at hs
        obtain rfl := Option.some.inj hs
        have hsome : ¬((selectStreams s.file.types 0 {}).videoStreamIndex = -1 ∧
            (selectStreams s.file.types 0 {}).audioStreamIndex = -1) := by
          rintro ⟨hv, ha⟩
          cases hselect : selectStreams s.file.types 0 {} with
          | mk v a =>
            rw [hselect] at hv ha hnone
            obtain rfl := hv
            obtain rfl := ha
            exact hnone rfl
        rw [if_neg hsome] at hfile
        obtain rfl := Option.some.inj hfile
        exact h.aside h.stage (fun hopen => hopen) rfl (fun hfirst => hfirst) rfl
    · cases hfile
  | openStreams video audioDecoder audioDevice =>
    obtain ⟨video', hvideo, rfl⟩ := Option.map_eq_some_iff.mp hs
    obtain ⟨-, hfile⟩ := Option.ite_none_right_eq_some.mp hfile
    obtain ⟨read, hread, rfl⟩ := Option.map_eq_some_iff.mp hfile
    simp only [ReadWorld.step] at hread
    split at hread
    · next hpc =>
      obtain rfl := Option.some.inj hread
      exact h.opens hpc ⟨rfl, by simp⟩ rfl rfl hvideo
    · cases hread
  | packet streamIndex =>
    obtain rfl := Option.some.inj hs
    exact h.packet hfile
  | noPacket eof =>
    obtain rfl := Option.some.inj hs
    cases eof with
    | true => exact h.follow (by simp) hfile
    | false => exact h.follow (by simp) hfile
  | sleep | rewind | audio | stop =>
    obtain rfl := Option.some.inj hs
    exact h.follow (by simp) hfile
  | video =>
    obtain ⟨video, hvideo, rfl⟩ := Option.map_eq_some_iff.mp hs
    obtain ⟨read, hread, rfl⟩ := Option.map_eq_some_iff.mp hfile
    obtain ⟨⟨d, events⟩, hrun, hread⟩ := Option.bind_eq_some_iff.mp hread
    obtain rfl := Option.some.inj hread
    obtain ⟨events', hrun', -, hwritten, hclosing⟩ := VideoWorld.decoderStep_run hvideo
    refine ⟨?_, fun hopen => ?_, fun hfirst => ?_, ?_⟩
    · dsimp only
      rw [hclosing]
      exact h.stage
    · rw [h.decoder hopen, hrun] at hrun'
      exact (Prod.mk.inj (Option.some.inj hrun')).1.symm
    · -- a closed decoder has no coroutine
      have hnew := (h.before hfirst).1
      rw [hnew] at hrun'
      cases hrun'
    · dsimp only
      rw [hwritten]
      exact h.written

/-- The rest of `Video::close` begins behind `Decoder::close`. -/
theorem Linked.close (h : Linked s) (hs : s.step .close = some t) : Linked t := by
  obtain ⟨hpc, hs⟩ := Option.ite_none_right_eq_some.mp hs
  obtain ⟨video, hvideo, rfl⟩ := Option.map_eq_some_iff.mp hs
  have hstage := h.stage
  rw [hpc] at hstage
  obtain ⟨hplaying, hjoining, hdraining⟩ := hstage
  have hkeeps : (video.closing ≠ .playing ∧ video.closing ≠ .joiningDecoder ∧
      video.closing ≠ .drainingPackets) ∧ video.written = s.video.written := by
    simp only [VideoWorld.step] at hvideo
    unfold VideoWorld.closeStep at hvideo
    split at hvideo
    · next hclosing => exact absurd hclosing hplaying
    · next hclosing => exact absurd hclosing hjoining
    · next hclosing => exact absurd hclosing hdraining
    · obtain rfl := Option.some.inj hvideo
      simp
    · split at hvideo
      · obtain rfl := Option.some.inj hvideo
        simp
      · cases hvideo
    · next hclosing =>
      split at hvideo
      · obtain rfl := Option.some.inj hvideo
        simp
      · obtain rfl := Option.some.inj hvideo
        simp [hclosing]
      · obtain rfl := Option.some.inj hvideo
        simp [hclosing]
    · obtain rfl := Option.some.inj hvideo
      simp
    · cases hvideo
  refine ⟨?_, fun hopen => ?_, fun hfirst => ?_, ?_⟩
  · dsimp only
    rw [hpc]
    exact hkeeps.1
  · dsimp only at hopen
    rw [hpc] at hopen
    cases hopen
  · dsimp only at hfirst
    rw [hpc] at hfirst
    cases hfirst
  · dsimp only
    rw [hkeeps.2]
    exact h.written

theorem Linked.step (h : Linked s) (hs : s.step a = some t) : Linked t := by
  cases a with
  | file b => exact h.file hs
  | close => exact h.close hs
  | display c =>
    obtain ⟨video, hvideo, rfl⟩ := Option.map_eq_some_iff.mp hs
    obtain ⟨hdecoder, hclosing, hwritten, -⟩ := VideoWorld.displayStep_keeps hvideo
    refine ⟨?_, fun hopen => ?_, fun hfirst => ?_, ?_⟩
    · dsimp only
      rw [hclosing]
      exact h.stage
    · rw [← h.decoder hopen]
      exact hdecoder
    · dsimp only
      rw [hdecoder]
      exact h.before hfirst
    · dsimp only
      rw [hwritten]
      exact h.written

/-! ## Runs -/

theorem linked_of_reach {types : List MediaType}
    (h : Reach step ({ file := { types := types } } : ScreenWorld V A) s) : Linked s :=
  h.invariant (linked_start types) fun _ _ _ hI hs => hI.step hs

theorem file_of_reach {types : List MediaType}
    (h : Reach step ({ file := { types := types } } : ScreenWorld V A) s) :
    Reach FileWorld.step { types := types } s.file :=
  reach_part ScreenWorld.file (fun _ _ _ hs => step_file hs) h

theorem video_of_reach {types : List MediaType}
    (h : Reach step ({ file := { types := types } } : ScreenWorld V A) s) :
    Reach VideoWorld.step {} s.video :=
  reach_part ScreenWorld.video (fun _ _ _ hs => step_video hs) h

/-- The frames that reached `_onFrame`. -/
def shown (s : ScreenWorld V A) : List F :=
  (s.video.fates.filter fun fate => fate.2 = .shown).map Prod.fst

/-- The coroutine waits at `_frameQueue.write`. -/
def queueFull (s : ScreenWorld V A) : Bool := videoRoom ≤ s.video.frameQueue.length

theorem decoderStep_isSome {u : VideoWorld V} (hrun : u.decoder.run ≠ none)
    (howns : u.CoroutineOwns u.decoder.pc) (hroom : u.frameQueue.length < videoRoom) :
    ∃ v, u.decoderStep = some v := by
  obtain ⟨⟨d, events⟩, hd⟩ := Option.ne_none_iff_exists'.mp hrun
  unfold VideoWorld.decoderStep
  rw [hd]
  dsimp only [Option.bind_eq_bind, Option.bind_some]
  have hpush (v : VideoWorld V) (hv : v.frameQueue = u.frameQueue)
      (frame : Option (MovedFrame F)) : ∃ w, v.onFrame frame = some w := by
    unfold VideoWorld.onFrame
    rw [hv, if_pos hroom]
    exact ⟨_, rfl⟩
  split
  · exact ⟨_, rfl⟩
  · exact ⟨_, rfl⟩
  · exact ⟨_, rfl⟩
  · next hpc =>
    rw [hpc] at howns
    obtain ⟨i, hi⟩ := Option.isSome_iff_exists.mp howns
    rw [hi]
    exact hpush { u with decoder := d, events := u.events ++ events } rfl _
  · exact hpush { u with decoder := d, events := u.events ++ events } rfl _
  · exact ⟨_, rfl⟩

theorem opens_isSome {u : VideoWorld V} (hclosed : u.closing = .closed) (ok : Bool) :
    ∃ v, u.step (.opens ok) = some v := by
  simp only [VideoWorld.step, hclosed]
  cases ok with
  | true => exact ⟨_, rfl⟩
  | false => exact ⟨_, rfl⟩

theorem placed_of_reach {types : List MediaType}
    (h : Reach step ({ file := { types := types } } : ScreenWorld V A) s) : s.file.read.Placed := by
  have hread := (FileWorld.routed_of_reach (file_of_reach h)).1
  exact (Reach.invariant hread ReadWorld.balanced_start fun _ _ _ ht hs => ht.step hs).placed

/-- The video side can take its part in a step of the reader. -/
theorem onVideo_isSome {types : List MediaType} {b : FileAct} {file : FileWorld V A}
    {c : VideoWorldAct Nat}
    (h : Reach step ({ file := { types := types } } : ScreenWorld V A) s)
    (hfile : s.file.step b = some file) (hroom : b = .video → s.queueFull = false)
    (hc : s.file.onVideo b = some c) : ∃ video, s.video.step c = some video := by
  have hlinked := linked_of_reach h
  have hstage := hlinked.stage
  cases b with
  | openFails =>
    obtain rfl := Option.some.inj hc
    obtain ⟨-, hfile⟩ := Option.ite_none_left_eq_some.mp hfile
    obtain ⟨read, hread, rfl⟩ := Option.map_eq_some_iff.mp hfile
    simp only [ReadWorld.step] at hread
    split at hread
    · next hpc =>
      rw [hpc] at hstage
      exact opens_isSome hstage _
    · cases hread
  | select =>
    obtain ⟨-, hc⟩ := Option.ite_none_right_eq_some.mp hc
    obtain rfl := Option.some.inj hc
    simp only [FileWorld.step] at hfile
    split at hfile
    · next hpc _ =>
      rw [hpc] at hstage
      exact opens_isSome hstage _
    · cases hfile
  | openStreams video audioDecoder audioDevice =>
    obtain rfl := Option.some.inj hc
    obtain ⟨-, hfile⟩ := Option.ite_none_right_eq_some.mp hfile
    obtain ⟨read, hread, rfl⟩ := Option.map_eq_some_iff.mp hfile
    simp only [ReadWorld.step] at hread
    split at hread
    · next hpc =>
      have hpc' : s.file.read.pc = .opening := hpc
      rw [hpc'] at hstage
      exact opens_isSome hstage _
    · cases hread
  | video =>
    obtain rfl := Option.some.inj hc
    obtain ⟨read, hread, rfl⟩ := Option.map_eq_some_iff.mp hfile
    obtain ⟨⟨d, events⟩, hrun, -⟩ := Option.bind_eq_some_iff.mp hread
    have hopen : decoderClosed s.file.read.pc = false := by
      by_contra hclosed
      -- a coroutine that has left makes no call
      have hexited : s.file.read.video.pc = .exited := by
        have hplaced := placed_of_reach h
        unfold ReadWorld.Placed at hplaced
        cases hpc : s.file.read.pc with
        | returned =>
          rw [hpc] at hplaced
          exact hplaced.1.1
        | closingAudio pc =>
          rw [hpc] at hplaced
          cases pc with
          | stop | wait => exact hplaced.1
          | drain => exact hplaced.1.1
        | _ =>
          rw [hpc] at hclosed
          exact absurd rfl hclosed
      rw [Decoder.run_of_exited hexited] at hrun
      cases hrun
    refine decoderStep_isSome ?_ (VideoWorld.runs_of_reach (video_of_reach h)).coroutine ?_
    · rw [hlinked.decoder hopen, hrun]
      exact Option.some_ne_none _
    · exact Nat.not_le.mp (of_decide_eq_false (hroom rfl))
  | go =>
    obtain ⟨f, hf, rfl⟩ := Option.map_eq_some_iff.mp hfile
    obtain ⟨read, hread, rfl⟩ := Option.map_eq_some_iff.mp hf
    simp only [ReadWorld.step] at hread
    unfold ReadWorld.go at hread
    unfold FileWorld.onVideo at hc
    cases hpc : s.file.read.pc with
    | toVideo packet | endVideo =>
      rw [hpc] at hread hc hstage
      obtain rfl := Option.some.inj hc
      obtain ⟨decoder, hdecoder, -⟩ := Option.bind_eq_some_iff.mp hread
      have hplaying : s.video.closing = .playing := hstage
      simp only [VideoWorld.step, hplaying]
      rw [hlinked.decoder (by rw [hpc]; rfl), hdecoder]
      exact ⟨_, rfl⟩
    | closingVideo pc =>
      rw [hpc] at hread hc hstage
      obtain rfl := Option.some.inj hc
      have hdecoder := hlinked.decoder (by rw [hpc]; rfl)
      simp only [VideoWorld.step, VideoWorld.closeStep]
      cases pc with
      | stop =>
        have hclosing : s.video.closing = .playing := hstage
        rw [hclosing]
        exact ⟨_, rfl⟩
      | wait =>
        have hclosing : s.video.closing = .joiningDecoder := hstage
        rw [hclosing]
        dsimp only at hread ⊢
        rw [hdecoder]
        split at hread
        · next hexited =>
          rw [hexited]
          exact ⟨_, rfl⟩
        · cases hread
      | drain =>
        have hclosing : s.video.closing = .drainingPackets := hstage
        rw [hclosing]
        dsimp only
        split
        · exact ⟨_, rfl⟩
        · exact ⟨_, rfl⟩
    | _ =>
      rw [hpc] at hc
      cases hc
  | packet | noPacket | sleep | rewind | audio | stop => cases hc

end ScreenWorld

open ScreenWorld

/-- The video side holds the reader and the coroutines up only where they wait for it: at a full
frame queue, and at `_video.close()`. -/
theorem reader_held {V : Codec Nat F} {A : Codec Nat G} {types : List MediaType}
    {s : ScreenWorld V A} {b : FileAct} {file : FileWorld V A}
    (h : Reach step { file := { types := types } } s) (hfile : s.file.step b = some file)
    (hroom : b = .video → s.queueFull = false) (hclose : s.atAudioClose b = false) :
    ∃ t, s.step (.file b) = some t ∧ t.file = file := by
  have hstep : s.step (.file b) =
      (match s.file.onVideo b with
        | some c => (s.video.step c).map fun video => { file := file, video := video }
        | none => some { s with file := file }) := by
    simp only [ScreenWorld.step, hclose, hfile, Option.bind_some]
    rfl
  rw [hstep]
  cases hc : s.file.onVideo b with
  | none => exact ⟨_, rfl, rfl⟩
  | some c =>
    obtain ⟨video, hvideo⟩ := onVideo_isSome h hfile hroom hc
    refine ⟨{ file := file, video := video }, ?_, rfl⟩
    dsimp only
    rw [hvideo]
    rfl

/-- The frames shown are frames that the codec gives for the packets written, in its order and
none twice; and the packets written are those of the first video stream of the file, as they were
read, with NULL at each end of the file. -/
theorem file_to_screen {V : Codec Nat F} {A : Codec Nat G} (types : List MediaType)
    {s : ScreenWorld V A} (h : Reach step { file := { types := types } } s) :
    s.shown.Sublist ((V.outputs V.fresh s.video.written).filterMap id) ∧
      (s.file.read.pc ≠ .opening →
        s.video.written.filterMap id ++ s.file.read.pc.forVideo =
          (if s.file.read.hasVideo then s.file.ofStream (firstFrom types .video 0) else [])) := by
  have hruns := VideoWorld.runs_of_reach (video_of_reach h)
  refine ⟨?_, fun hpc => ?_⟩
  · have hdecoded : s.video.decoded.Sublist ((V.outputs V.fresh s.video.written).filterMap id) :=
      (hruns.decodes.calls.sublist).filterMap id
    have hfates : (s.video.fates.map Prod.fst).Sublist s.video.decoded := by
      rw [← hruns.order]
      exact List.sublist_append_left _ _
    exact ((List.filter_sublist.map Prod.fst).trans hfates).trans hdecoded
  · obtain ⟨-, hindexed, hrouted, htypes⟩ := FileWorld.routed_of_reach (file_of_reach h)
    rw [(linked_of_reach h).written, hrouted.video, (hindexed.behind hpc).1, htypes]
    cases s.file.read.hasVideo with
    | true => rfl
    | false => exact s.file.ofStream_closed

/-- One packet of the second video stream and two of the first, of which one is shown and one is
left to `close`. -/
theorem file_to_screen_first_video : ∃ s : ScreenWorld (directCodec Nat) (directCodec Nat),
    s.shown = [1] ∧ s.video.closing = .closed ∧ s.file.read.hasVideo = true ∧
      s.video.written.filterMap id = s.file.ofStream 1 := by
  obtain ⟨s, hreach, hend⟩ := reach_of_any step
    ({ file := { types := [.other, .video, .video] } } :
      ScreenWorld (directCodec Nat) (directCodec Nat))
    ([.file .select, .file (.openStreams true false false), .file .go, .file .go,
      .file (.packet 2), .file .go, .file .go, .file .go, .file (.packet 1), .file .go, .file .go,
      .file .go, .file (.packet 1), .file .go] ++ List.replicate 7 (.file .video) ++
      [.display .go, .display .go, .display .present, .display .pass, .display .go] ++
      List.replicate 7 (.file .video) ++
      [.file .stop, .file .go, .file .go, .file .video, .file .go, .file .go, .close, .display .go,
        .close, .close, .close, .close])
    (fun s => s.shown = [1] ∧ s.video.closing = .closed ∧ s.file.read.hasVideo = true ∧
      s.file.read.pc = .closingAudio .stop) (by decide +kernel)
  obtain ⟨hshown, hclosed, hopen, hpc⟩ := of_decide_eq_true hend
  refine ⟨s, hshown, hclosed, hopen, ?_⟩
  have hwritten := (file_to_screen [.other, .video, .video] hreach).2 (by simp [hpc])
  rw [hpc, hopen, if_pos rfl] at hwritten
  exact (List.append_nil _).symm.trans hwritten

end VideoPlayerCore
