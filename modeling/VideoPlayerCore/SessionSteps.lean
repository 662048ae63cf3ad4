import VideoPlayerCore.ClockSync
import VideoPlayerCore.Machine
import VideoPlayerCore.Pipe

/-!
# One playback session: reader, decoders, display threads

The reader (`Play::_readThread` from the setup of the clocks on), the two decoder
coroutines, the two display threads and the audio callback are processes over two
pipes and one `ClockSync`.  The clock calls change the clocks as the code does, but
how long a display thread waits is left open: it may let go of its frame at any time.

Each pipe carries a log of the current iteration; the seek of the restart branch
files both logs under `past`.
-/

namespace VideoPlayerCore

/-- What `Video::_displayThread` reads of an `AVFrame`; no `pts` is `AV_NOPTS_VALUE`. -/
structure VideoFrame where
  pts : Option Int
  duration : Int
  deriving DecidableEq

def VideoFrame.time (timeBase : ℚ) (f : VideoFrame) : ℚ := f.pts.getD 0 * timeBase

def VideoFrame.length (timeBase : ℚ) (f : VideoFrame) : ℚ := f.duration * timeBase

variable {P F B : Type}

/-! ## A stream -/

/-- What one iteration did on one stream. -/
structure StreamLog (P F : Type) where
  packets : List P := []
  /-- NULL was written -/
  marked : Bool := false
  taken : List (Option F) := []
  eofCalls : Nat := 0

def StreamLog.write (log : StreamLog P F) : Option P → StreamLog P F
  | some pkt => { log with packets := log.packets ++ [pkt] }
  | none => { log with marked := true }

/-- Everything written to the stream. -/
def StreamLog.fed (log : StreamLog P F) : List (Option P) :=
  log.packets.map some ++ if log.marked then [none] else []

/-- Where a display thread stands. -/
inductive Display (F : Type)
  | polling
  | presenting (f : F)
  /-- it has taken NULL; audio lets its blocks drain first -/
  | ending
  /-- between the two writes of audio's `onEof` -/
  | acked
  deriving DecidableEq

structure Lane (C : Codec P F) where
  pipe : Pipe C := {}
  display : Display F := .polling
  /-- `videoEof`, `audioEof` -/
  eof : Bool := false
  log : StreamLog P F := {}

namespace Lane

variable {C : Codec P F}

def write (l : Lane C) (pkt : Option P) : Option (Lane C) :=
  (l.pipe.write pkt).map fun pipe => { l with pipe := pipe, log := l.log.write pkt }

def decode (room : Nat) (l : Lane C) : Option (Lane C) :=
  (l.pipe.decoderStep room true).map fun pipe => { l with pipe := pipe }

def take (l : Lane C) : Option (Lane C) :=
  match l.display, l.pipe.takeFrame with
  | .polling, some (item, pipe) =>
    some { l with
      pipe := pipe
      display := item.elim .ending .presenting
      log := { l.log with taken := l.log.taken ++ [item] } }
  | _, _ => none

def release (l : Lane C) : Option (Lane C) :=
  match l.display with
  | .presenting _ => some { l with display := .polling }
  | _ => none

/-- The first write of `onEof`. -/
def raiseEof (next : Display F) (l : Lane C) : Option (Lane C) :=
  match l.display with
  | .ending =>
    some { l with
      display := next
      eof := true
      log := { l.log with eofCalls := l.log.eofCalls + 1 } }
  | _ => none

def clearEof (l : Lane C) : Lane C := { l with eof := false }

def newLog (l : Lane C) : Lane C := { l with log := {} }

end Lane

/-! ## The reader -/

/-- The restart branch, one assignment after the other. -/
inductive Restart
  | seek
  | clearEof
  | resetAudio
  | resetVideo
  | resetAbsolute
  | clearVideoEof
  | clearAudioEof
  | setType
  deriving DecidableEq

inductive Reader (P : Type)
  /-- `if (audioStreamIndex == -1) _synchronize->type = CLOCKSYNCTYPE_VIDEO;` -/
  | setType
  | setVideoDisabled
  | setAudioDisabled
  /-- `while (_isAlive)` -/
  | top
  | reading
  | writingVideo (pkt : P)
  | writingAudio (pkt : P)
  | markingVideo
  | markingAudio
  | checkVideo
  | checkAudio
  | restart (r : Restart)
  | left
  deriving DecidableEq

/-- What `av_read_frame` gives. -/
inductive ReadResult (P : Type)
  | videoPacket (pkt : P)
  | audioPacket (pkt : P)
  | otherPacket
  | endOfFile
  | error

/-- What is fixed for a session: the streams that could be opened, `_isLoop` and the
time base of the video stream. -/
structure SessionConfig where
  videoOpen : Bool
  audioOpen : Bool
  isLoop : Bool
  timeBase : ℚ

structure Session (V : Codec P VideoFrame) (A : Codec P B) where
  reader : Reader P := .setType
  isAlive : Bool := true
  isPaused : Bool := false
  eof : Bool := false
  sync : ClockSync := { type := .audio }
  video : Lane V := {}
  audio : Lane A := {}
  past : List (StreamLog P VideoFrame × StreamLog P B) := []

inductive SessionAct (P : Type)
  | reader
  | readFrame (r : ReadResult P)
  | decodeVideo
  | decodeAudio
  | takeVideo
  | takeAudio
  | calVideoDelay (now : ℚ)
  | calAudioDelay (now pts : ℚ)
  | dropFrame
  | showFrame (now : ℚ)
  | blocksDone
  | videoEof
  | audioEof
  | audioAbsolute
  | audioCallback (now pts : ℚ)
  | setIsPaused (value : Bool)
  | stop

namespace Session

variable {V : Codec P VideoFrame} {A : Codec P B}

/-- A step of the restart branch. -/
def restartStep (s : Session V A) : Restart → Session V A
  | .seek =>
    { s with
      reader := .restart .clearEof
      video := s.video.newLog
      audio := s.audio.newLog
      past := s.past ++ [(s.video.log, s.audio.log)] }
  | .clearEof => { s with reader := .restart .resetAudio, eof := false }
  | .resetAudio => { s with reader := .restart .resetVideo, sync := s.sync.resetAudio }
  | .resetVideo => { s with reader := .restart .resetAbsolute, sync := s.sync.resetVideo }
  | .resetAbsolute => { s with reader := .restart .clearVideoEof, sync := s.sync.resetAbsolute }
  | .clearVideoEof => { s with reader := .restart .clearAudioEof, video := s.video.clearEof }
  | .clearAudioEof => { s with reader := .restart .setType, audio := s.audio.clearEof }
  | .setType => { s with reader := .top, sync := { s.sync with type := .audio } }

/-- A step of the reader other than `av_read_frame`; `_step` stays 0. -/
def readerStep (cfg : SessionConfig) (s : Session V A) : Option (Session V A) :=
  match s.reader with
  | .setType =>
    some { s with
      reader := .setVideoDisabled
      sync := if cfg.audioOpen then s.sync else { s.sync with type := .video } }
  | .setVideoDisabled =>
    some { s with
      reader := .setAudioDisabled
      sync := { s.sync with video := { s.sync.video with isDisabled := !cfg.videoOpen } } }
  | .setAudioDisabled =>
    some { s with
      reader := .top
      sync := { s.sync with audio := { s.sync.audio with isDisabled := !cfg.audioOpen } } }
  | .top =>
    if s.isAlive then
      if s.isPaused then some s
      else if s.eof then some { s with reader := .checkVideo }
      else some { s with reader := .reading }
    else some { s with reader := .left }
  | .reading => none
  | .writingVideo pkt =>
    (s.video.write (some pkt)).map fun l => { s with reader := .top, video := l }
  | .writingAudio pkt =>
    (s.audio.write (some pkt)).map fun l => { s with reader := .top, audio := l }
  | .markingVideo =>
    (s.video.write none).map fun l => { s with reader := .markingAudio, video := l }
  | .markingAudio => (s.audio.write none).map fun l => { s with reader := .top, audio := l }
  | .checkVideo =>
    if !cfg.videoOpen || s.video.eof then some { s with reader := .checkAudio }
    else some { s with reader := .top }
  | .checkAudio =>
    if (!cfg.audioOpen || s.audio.eof) && cfg.isLoop then
      some { s with reader := .restart .seek }
    else some { s with reader := .top }
  | .restart r => some (s.restartStep r)
  | .left => none

def readFrame (cfg : SessionConfig) (s : Session V A) (r : ReadResult P) :
    Option (Session V A) :=
  match s.reader, r with
  | .reading, .videoPacket pkt =>
    some { s with reader := if cfg.videoOpen then .writingVideo pkt else .top }
  | .reading, .audioPacket pkt =>
    some { s with reader := if cfg.audioOpen then .writingAudio pkt else .top }
  | .reading, .otherPacket => some { s with reader := .top }
  | .reading, .endOfFile => some { s with reader := .markingVideo, eof := true }
  | .reading, .error => some { s with reader := .left }
  | _, _ => none

/-- A step of video's decoder coroutine or display thread, which run once the stream
is open. -/
def onVideo (cfg : SessionConfig) (s : Session V A) (f : Lane V → Option (Lane V)) :
    Option (Session V A) :=
  if cfg.videoOpen then (f s.video).map fun l => { s with video := l } else none

def onAudio (cfg : SessionConfig) (s : Session V A) (f : Lane A → Option (Lane A)) :
    Option (Session V A) :=
  if cfg.audioOpen then (f s.audio).map fun l => { s with audio := l } else none

def step (cfg : SessionConfig) (s : Session V A) : SessionAct P → Option (Session V A)
  | .reader => s.readerStep cfg
  | .readFrame r => s.readFrame cfg r
  | .decodeVideo => s.onVideo cfg (Lane.decode videoRoom)
  | .decodeAudio => s.onAudio cfg (Lane.decode audioRoom)
  | .takeVideo => s.onVideo cfg Lane.take
  | .takeAudio => s.onAudio cfg Lane.take
  | .calVideoDelay now =>
    match s.video.display with
    | .presenting f =>
      let (sync, _) :=
        s.sync.calVideoDelay now (some (f.time cfg.timeBase)) (some (f.length cfg.timeBase))
      some { s with sync := sync }
    | _ => none
  | .calAudioDelay now pts =>
    match s.audio.display with
    | .presenting _ =>
      let (sync, _) := s.sync.calAudioDelay now (some pts) (some 0)
      some { s with sync := sync }
    | _ => none
  | .dropFrame => s.onVideo cfg Lane.release
  | .showFrame now =>
    match s.video.display with
    | .presenting f =>
      { s with sync := s.sync.updateVideoPts now (some (f.time cfg.timeBase)) }.onVideo cfg
        Lane.release
    | _ => none
  | .blocksDone => s.onAudio cfg Lane.release
  | .videoEof => s.onVideo cfg (Lane.raiseEof .polling)
  | .audioEof => s.onAudio cfg (Lane.raiseEof .acked)
  | .audioAbsolute =>
    match s.audio.display with
    | .acked =>
      some { s with
        sync := { s.sync with type := .absolute }
        audio := { s.audio with display := .polling } }
    | _ => none
  | .audioCallback now pts => some { s with sync := s.sync.updateAudioPts now (some pts) }
  | .setIsPaused value => some { s with isPaused := value }
  | .stop => some { s with isAlive := false }

end Session

end VideoPlayerCore
