import VideoPlayerCore.SessionSteps

/-!
# Closing the video side of a session

The reader, video's decoder coroutine and its display thread from the read loop to the
end of `Video::close`, with the two `_isAlive` flags that close clears one after the
other.  Here the display thread waits as the code does: it leaves its wait loop when
`calVideoDelay` is not positive or `_isAlive` is 0.  The clocks of the audio side move
by actions of their own, which may cease at any time.
-/

namespace VideoPlayerCore

variable {P : Type}

/-- Where `Play::_readThread` stands; what it does for other streams is no step here. -/
inductive CloseReader (P : Type)
  | top
  | reading
  | writing (pkt : Option P)
  /-- `Video::close`, before `Decoder::close` clears the decoder's `_isAlive` -/
  | closing
  /-- `_wg.Wait()` of `Decoder::close` -/
  | joiningDecoder
  /-- before `Video::close` clears `_isAlive` -/
  | stopping
  /-- `_wg.Wait()` of `Video::close` -/
  | joiningDisplay
  | closed
  deriving DecidableEq

/-- The stages that the reader has before it. -/
def CloseReader.stagesLeft : CloseReader P → Nat
  | .writing _ => 7
  | .reading => 6
  | .top => 5
  | .closing => 4
  | .joiningDecoder => 3
  | .stopping => 2
  | .joiningDisplay => 1
  | .closed => 0

/-- What a pass of the read loop comes to. -/
inductive LoopPass (P : Type)
  /-- a video packet, or NULL at the end of the file -/
  | write (pkt : Option P)
  | otherPacket
  /-- the restart branch -/
  | restart
  /-- `break` -/
  | error

/-- Where `Video::_displayThread` stands. -/
inductive VideoDisplay
  | top
  | reading
  /-- `_onEof()` -/
  | ending
  /-- before a call of `calVideoDelay` -/
  | calling (f : VideoFrame)
  /-- `while (delay > 0 && _isAlive)` -/
  | waiting (f : VideoFrame) (delay : Pts)
  /-- behind the wait loop -/
  | leaving (f : VideoFrame) (delay : Pts)
  | exited
  deriving DecidableEq

structure VideoSide (V : Codec P VideoFrame) where
  reader : CloseReader P := .top
  /-- `_isAlive` of `Play`, `Decoder` and `Video` -/
  playAlive : Bool := true
  decoderAlive : Bool := true
  videoAlive : Bool := true
  sync : ClockSync
  pipe : Pipe V := {}
  display : VideoDisplay := .top

inductive VideoAct (P : Type)
  | stop
  | reader
  | pass (p : LoopPass P)
  | decoder
  /-- a step of the display thread, at a wall time -/
  | display (now : ℚ)
  | calAudioDelay (now pts : ℚ)
  | updateAudioPts (now pts : ℚ)
  /-- audio's `onEof` -/
  | audioEof

/-- The audio side moves its clock or ends. -/
def VideoAct.byAudio : VideoAct P → Bool
  | .calAudioDelay _ _ | .updateAudioPts _ _ | .audioEof => true
  | _ => false

/-- `calVideoDelay` for a frame. -/
def ClockSync.delayOf (timeBase : ℚ) (sync : ClockSync) (now : ℚ) (f : VideoFrame) :
    ClockSync × Pts :=
  sync.calVideoDelay now (some (f.time timeBase)) (some (f.length timeBase))

/-- The clocks once the frame is dropped or presented. -/
def ClockSync.leave (timeBase : ℚ) (sync : ClockSync) (now : ℚ) (f : VideoFrame)
    (delay : Pts) : ClockSync :=
  if delay.neg then sync else sync.updateVideoPts now (some (f.time timeBase))

namespace VideoSide

variable {V : Codec P VideoFrame}

def start (sync : ClockSync) : VideoSide V := { sync := sync }

def readerStep (s : VideoSide V) : Option (VideoSide V) :=
  match s.reader with
  | .top => some { s with reader := if s.playAlive then .reading else .closing }
  | .reading => none
  | .writing pkt => (s.pipe.write pkt).map fun pipe => { s with reader := .top, pipe := pipe }
  | .closing => some { s with reader := .joiningDecoder, decoderAlive := false }
  | .joiningDecoder =>
    -- behind the wait `Decoder::close` frees the packets that are left
    if s.pipe.decoder matches .exited then
      some { s with reader := .stopping, pipe := { s.pipe with packetQueue := [] } }
    else none
  | .stopping => some { s with reader := .joiningDisplay, videoAlive := false }
  | .joiningDisplay =>
    if s.display = .exited then
      some { s with reader := .closed, pipe := { s.pipe with frameQueue := [] } }
    else none
  | .closed => none

def loopPass (s : VideoSide V) (p : LoopPass P) : Option (VideoSide V) :=
  match s.reader, p with
  | .reading, .write pkt => some { s with reader := .writing pkt }
  | .reading, .otherPacket => some { s with reader := .top }
  | .reading, .restart =>
    some { s with reader := .top, sync := { s.sync.reset with type := .audio } }
  | .reading, .error => some { s with reader := .closing }
  | _, _ => none

def displayStep (timeBase : ℚ) (s : VideoSide V) (now : ℚ) : Option (VideoSide V) :=
  match s.display with
  | .top => some { s with display := if s.videoAlive then .reading else .exited }
  | .reading =>
    match s.pipe.takeFrame with
    | none => some { s with display := .top }
    | some (none, pipe) => some { s with display := .ending, pipe := pipe }
    | some (some f, pipe) => some { s with display := .calling f, pipe := pipe }
  | .ending => some { s with display := .top }
  | .calling f =>
    let (sync, delay) := s.sync.delayOf timeBase now f
    some { s with display := .waiting f delay, sync := sync }
  | .waiting f delay =>
    if delay.pos && s.videoAlive then some { s with display := .calling f }
    else some { s with display := .leaving f delay }
  | .leaving f delay =>
    some { s with display := .top, sync := s.sync.leave timeBase now f delay }
  | .exited => none

def step (timeBase : ℚ) (s : VideoSide V) : VideoAct P → Option (VideoSide V)
  | .stop => some { s with playAlive := false }
  | .reader => s.readerStep
  | .pass p => s.loopPass p
  | .decoder =>
    (s.pipe.decoderStep videoRoom s.decoderAlive).map fun pipe => { s with pipe := pipe }
  | .display now => s.displayStep timeBase now
  | .calAudioDelay now pts =>
    some { s with sync := (s.sync.calAudioDelay now (some pts) (some 0)).1 }
  | .updateAudioPts now pts => some { s with sync := s.sync.updateAudioPts now (some pts) }
  | .audioEof => some { s with sync := { s.sync with type := .absolute } }

end VideoSide

end VideoPlayerCore
