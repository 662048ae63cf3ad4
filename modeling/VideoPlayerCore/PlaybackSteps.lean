import VideoPlayerCore.CloseSteps

/-!
# Playing a file with one video and one audio stream

The reader, the two decoder coroutines, the two display threads and the audio callback
from the first packet to the acknowledgements of the end of the file.  Here both display
threads wait as the code does, and the audio display thread cuts its frames into the
blocks that the callback plays.

A state in which everything waits for something else is `Stuck`.
-/

namespace VideoPlayerCore

/-- What `Audio::_displayThread` has of a frame behind the resampler. -/
structure AudioFrame where
  pts : Int
  samples : Nat
  deriving DecidableEq

/-- A codec that gives one frame for each packet, at once. -/
def directCodec (F : Type) : Codec F F where
  State := Unit
  fresh := ()
  decode := fun _ pkt => (pkt.toList, ())

/-! ## The file -/

inductive Packet
  | video (f : VideoFrame)
  | audio (f : AudioFrame)
  deriving DecidableEq

/-- A call of `Video::write` or `Audio::write`; NULL is `none`. -/
inductive Item
  | video (pkt : Option VideoFrame)
  | audio (pkt : Option AudioFrame)
  deriving DecidableEq

def Packet.item : Packet → Item
  | .video f => .video (some f)
  | .audio f => .audio (some f)

def Item.video? : Item → Option (Option VideoFrame)
  | .video pkt => some pkt
  | .audio _ => none

def Item.audio? : Item → Option (Option AudioFrame)
  | .audio pkt => some pkt
  | .video _ => none

def Packet.video? : Packet → Option VideoFrame
  | .video f => some f
  | .audio _ => none

def Packet.audio? : Packet → Option AudioFrame
  | .audio f => some f
  | .video _ => none

/-- The packets in the order in which `av_read_frame` gives them. -/
structure MediaFile where
  packets : List Packet
  video_increasing : (packets.filterMap Packet.video?).Pairwise fun f g =>
    ∃ x y, f.pts = some x ∧ g.pts = some y ∧ x < y
  audio_increasing : (packets.filterMap Packet.audio?).Pairwise fun f g => f.pts < g.pts

/-- All writes of the reader, the two NULL packets at the end. -/
def MediaFile.items (file : MediaFile) : List Item :=
  file.packets.map Packet.item ++ [.video none, .audio none]

/-! ## The parties -/

inductive PlaybackReader
  | reading
  | writing (item : Item)
  deriving DecidableEq

/-- Where `Audio::_displayThread` stands; `pts` and `avail` are those of the rest of its frame. -/
inductive AudioDisplay
  | reading
  /-- the top of `while (avail)`, before `begin_write` if a block has to be begun -/
  | cutting (pts : Int) (avail : Nat)
  /-- before a call of `calAudioDelay` -/
  | starting (pts : Int) (avail : Nat)
  /-- before the `memcpy` -/
  | filling (pts : Int) (avail : Nat)
  /-- behind NULL, until the blocks are played -/
  | ending
  deriving DecidableEq

/-- `8 * _frameAlignBytes` holds one block less. -/
def blockRoom : Nat := 8 - 1

/-- `_spec.samples`, `_spec.freq` and the time base of the video stream. -/
structure PlaybackConfig where
  samples : Nat
  freq : ℚ
  timeBase : ℚ
  samples_pos : 0 < samples

structure Playback where
  reader : PlaybackReader := .reading
  /-- what is still to be written -/
  rest : List Item
  sync : ClockSync := { type := .audio }
  video : Pipe (directCodec VideoFrame) := {}
  videoDisplay : VideoDisplay := .reading
  videoEof : Bool := false
  audio : Pipe (directCodec AudioFrame) := {}
  audioDisplay : AudioDisplay := .reading
  audioEof : Bool := false
  writtenSamples : Nat := 0
  /-- the first double of the block that is filled -/
  header : ℚ := 0
  /-- the first doubles of the blocks that are to be played -/
  blocks : List ℚ := []

inductive PlaybackAct
  | reader
  | videoDecoder
  | videoDisplay (now : ℚ)
  | audioDecoder
  | audioDisplay (now : ℚ)
  /-- `Audio::_audioCallback` -/
  | callback (now : ℚ)

namespace Playback

variable (cfg : PlaybackConfig) (s : Playback)

def start (file : MediaFile) : Playback := { rest := file.items }

def readerStep : Option Playback :=
  match s.reader with
  | .reading =>
    match s.rest with
    | [] => none
    | item :: rest => some { s with reader := .writing item, rest := rest }
  | .writing (.video pkt) =>
    (s.video.write pkt).map fun video => { s with reader := .reading, video := video }
  | .writing (.audio pkt) =>
    (s.audio.write pkt).map fun audio => { s with reader := .reading, audio := audio }

def videoDisplayStep (now : ℚ) : Option Playback :=
  match s.videoDisplay with
  | .top => some { s with videoDisplay := .reading }
  | .reading =>
    match s.video.takeFrame with
    | none => none
    | some (none, video) => some { s with videoDisplay := .ending, video := video }
    | some (some f, video) => some { s with videoDisplay := .calling f, video := video }
  | .ending => some { s with videoDisplay := .top, videoEof := true }
  | .calling f =>
    let (sync, delay) := s.sync.delayOf cfg.timeBase now f
    some { s with videoDisplay := .waiting f delay, sync := sync }
  | .waiting f delay =>
    some { s with videoDisplay := if delay.pos then .calling f else .leaving f delay }
  | .leaving f delay =>
    some { s with videoDisplay := .top, sync := s.sync.leave cfg.timeBase now f delay }
  | .exited => none

def audioDisplayStep (now : ℚ) : Option Playback :=
  match s.audioDisplay with
  | .reading =>
    match s.audio.takeFrame with
    | none => none
    | some (none, audio) =>
      if s.writtenSamples = 0 then some { s with audioDisplay := .ending, audio := audio }
      else some { s with
        audioDisplay := .ending, audio := audio
        writtenSamples := 0, blocks := s.blocks ++ [s.header] }
    | some (some f, audio) =>
      some { s with audioDisplay := .cutting f.pts f.samples, audio := audio }
  | .cutting pts avail =>
    if avail = 0 then some { s with audioDisplay := .reading }
    else if s.writtenSamples = 0 then
      if s.blocks.length < blockRoom then
        some { s with audioDisplay := .starting pts avail, header := pts / cfg.freq }
      else none
    else some { s with audioDisplay := .filling pts avail }
  | .starting pts avail =>
    let (sync, delay) := s.sync.calAudioDelay now (some s.header) (some 0)
    some { s with
      sync := sync
      audioDisplay := if delay.pos then .starting pts avail else .filling pts avail }
  | .filling pts avail =>
    let fill := min (cfg.samples - s.writtenSamples) avail
    let written := s.writtenSamples + fill
    if written = cfg.samples then
      some { s with
        audioDisplay := .cutting (pts + fill) (avail - fill)
        writtenSamples := 0, blocks := s.blocks ++ [s.header] }
    else
      some { s with
        audioDisplay := .cutting (pts + fill) (avail - fill), writtenSamples := written }
  | .ending =>
    if s.blocks = [] then
      some { s with
        audioDisplay := .reading, audioEof := true, sync := { s.sync with type := .absolute } }
    else none

def callbackStep (now : ℚ) : Option Playback :=
  match s.blocks with
  | [] => none
  | pts :: blocks => some { s with sync := s.sync.updateAudioPts now (some pts), blocks := blocks }

def step : PlaybackAct → Option Playback
  | .reader => s.readerStep
  | .videoDecoder => (s.video.decoderStep videoRoom true).map fun video => { s with video := video }
  | .videoDisplay now => s.videoDisplayStep cfg now
  | .audioDecoder => (s.audio.decoderStep audioRoom true).map fun audio => { s with audio := audio }
  | .audioDisplay now => s.audioDisplayStep cfg now
  | .callback now => s.callbackStep now

/-! ## Where nothing goes on -/

/-- `Decoder::write` fails, and the decoder has a frame that finds no room. -/
def Jammed {F : Type} (p : Pipe (directCodec F)) (room : Nat) : Prop :=
  p.packetQueue.length = packetRoom ∧ p.decoderStep room true = none

/-- Nothing of the stream is under way to the display thread. -/
def Drained {F : Type} (p : Pipe (directCodec F)) : Prop :=
  p.packetQueue = [] ∧ p.pending = [] ∧ p.frameQueue = []

/-- The display thread waits for audio's clock, however long: each call of `calVideoDelay`
gives a delay. -/
def AwaitsAudio : Prop :=
  ∃ f, (s.videoDisplay = .calling f ∨
      ∃ delay, s.videoDisplay = .waiting f delay ∧ delay.pos = true) ∧
    ∀ now, (s.sync.delayOf cfg.timeBase now f).2.pos = true

/-- The display thread waits for video's first timestamp. -/
def AwaitsVideo : Prop :=
  ∃ pts avail, s.audioDisplay = .starting pts avail ∧
    ∀ now, (s.sync.calAudioDelay now (some s.header) (some 0)).2.pos = true

/-- The reader is blocked on one stream, whose display thread waits for the clock of the
other one, and of the other one nothing is left. -/
def Stuck : Prop :=
  (∃ pkt, s.reader = .writing (.video pkt)) ∧ Jammed s.video videoRoom ∧ s.AwaitsAudio cfg ∧
      Drained s.audio ∧ s.audioDisplay = .reading ∧ s.blocks = [] ∨
  (∃ pkt, s.reader = .writing (.audio pkt)) ∧ Jammed s.audio audioRoom ∧ s.AwaitsVideo ∧
      Drained s.video ∧ s.videoDisplay = .reading

end Playback

end VideoPlayerCore
