import VideoPlayerCore.Books
import VideoPlayerCore.ReadSteps

/-!
# The frames of the video side

`Video::open`, the coroutine of its decoder call by call, `_displayThread` and `Video::close`,
for any number of sessions one after the other.  Every `AVFrame` has a number: the one that the
coroutine receives into, those that it hands on, and the one that `_present` converts into.

What `calVideoDelay` and the library answer is open, so the display thread may drop a frame,
show it or fail to show it as it likes.
-/

namespace VideoPlayerCore

open Ledgers

variable {P F : Type}

/-- A frame behind `av_frame_move_ref`. -/
structure MovedFrame (F : Type) where
  id : Nat
  frame : F
  deriving DecidableEq

/-- What became of a frame. -/
inductive Fate
  /-- it was late -/
  | dropped
  | shown
  /-- `_present` returned before `_onFrame` -/
  | failed
  /-- it was left in the queue when the session ended -/
  | discarded
  deriving DecidableEq

/-- Where `_displayThread` stands. -/
inductive DisplayLoop (F : Type)
  /-- `while (_isAlive)` -/
  | top
  | reading
  /-- `_onEof()` -/
  | ending
  /-- the calls of `calVideoDelay` -/
  | waiting (f : MovedFrame F)
  /-- `_present(frame)` -/
  | presenting (f : MovedFrame F)
  /-- `av_frame_free(&frame)` -/
  | freeing (f : MovedFrame F)
  | exited
  deriving DecidableEq

/-- The frame in the thread's hands. -/
def DisplayLoop.held : DisplayLoop F → Option (MovedFrame F)
  | .waiting f | .presenting f | .freeing f => some f
  | _ => none

/-- The frame whose fate is open. -/
def DisplayLoop.undecided : DisplayLoop F → Option (MovedFrame F)
  | .waiting f | .presenting f => some f
  | _ => none

/-- What is open in a step of `_displayThread`. -/
inductive DisplayChoice
  | go
  /-- `delay > 0 && _isAlive` -/
  | again
  /-- `delay < 0` -/
  | drop
  | present
  /-- `_onFrame(frame)` -/
  | pass
  /-- the conversion, and whether it reaches `_onFrame` -/
  | convert (shown : Bool)
  /-- `_present` fails before it has a frame to convert to -/
  | giveUp
  deriving DecidableEq

/-- Where `Video::close` stands. -/
inductive VideoClosePc
  | playing
  /-- `_wg.Wait()` of `Decoder::close` -/
  | joiningDecoder
  | drainingPackets
  /-- `_isAlive = 0;` -/
  | stopping
  | joiningDisplay
  | drainingFrames
  /-- `av_frame_free(&_swsFrame)` -/
  | freeing
  /-- before `Video::open`, too -/
  | closed
  deriving DecidableEq

structure VideoWorld (V : Codec P F) where
  decoder : Decoder V := {}
  /-- the `frame` of the coroutine, and its `out` -/
  frame : Option Nat := none
  out : Option Nat := none
  frameQueue : List (Option (MovedFrame F)) := []
  isAlive : Bool := false
  display : DisplayLoop F := .exited
  swsFrame : Option Nat := none
  closing : VideoClosePc := .closed
  book : Book := {}
  /-- of the last session: what was written, the calls of the coroutine, the frames' fates -/
  written : List (Option P) := []
  events : List (DecoderEvent P F) := []
  fates : List (F × Fate) := []

inductive VideoWorldAct (P : Type)
  /-- `Video::open`, and whether the decoder can be opened -/
  | opens (ok : Bool)
  | write (packet : Option P)
  | decoder
  | display (choice : DisplayChoice)
  /-- the next call of `Video::close` -/
  | close

namespace VideoWorld

variable {V : Codec P F}

/-- An `_onFrame` whose `_frameQueue.write` succeeds. -/
def onFrame (s : VideoWorld V) (frame : Option (MovedFrame F)) : Option (VideoWorld V) :=
  if s.frameQueue.length < videoRoom then
    some { s with frameQueue := s.frameQueue ++ [frame], out := none }
  else none

/-- A call of the coroutine; where it leaves, it frees `frame`. -/
def decoderStep (s : VideoWorld V) : Option (VideoWorld V) := do
  let (decoder, events) ← s.decoder.run
  let t := { s with decoder := decoder, events := s.events ++ events }
  match s.decoder.pc, decoder.pc with
  | .top, .exited => some { t with frame := none, book := s.book.freeOpt s.frame }
  | .receiving _, .handing _ _ =>
    some { t with out := some s.book.next, book := (s.book.useOpt s.frame).obtain }
  | .receiving _, _ => some { t with book := s.book.useOpt s.frame }
  | .handing _ f, _ => s.out.bind fun i => t.onFrame (some { id := i, frame := f })
  | .ending, _ => t.onFrame none
  | _, _ => some t

/-- The fate of a frame is decided. -/
def settle (s : VideoWorld V) (f : MovedFrame F) (fate : Fate) : VideoWorld V :=
  { s with display := .freeing f, fates := s.fates ++ [(f.frame, fate)] }

/-- `_swsFrame`, allocated if there is none, is used. -/
def useSwsFrame (s : VideoWorld V) : VideoWorld V :=
  match s.swsFrame with
  | some i => { s with book := s.book.use i }
  | none => { s with swsFrame := some s.book.next, book := s.book.obtain.use s.book.next }

def displayStep (s : VideoWorld V) (c : DisplayChoice) : Option (VideoWorld V) :=
  match s.display, c with
  | .top, .go => some { s with display := if s.isAlive then .reading else .exited }
  | .reading, .go =>
    match s.frameQueue with
    | [] => some { s with display := .top }
    | none :: rest => some { s with frameQueue := rest, display := .ending }
    | some f :: rest =>
      some { s with frameQueue := rest, display := .waiting f, book := s.book.use f.id }
  | .ending, .go => some { s with display := .top }
  | .waiting _, .again => if s.isAlive then some s else none
  | .waiting f, .drop => some (s.settle f .dropped)
  | .waiting f, .present => some { s with display := .presenting f }
  | .presenting f, .pass => some { s.settle f .shown with book := s.book.use f.id }
  | .presenting f, .convert shown =>
    some ({ s with book := s.book.use f.id }.useSwsFrame.settle f
      (if shown then .shown else .failed))
  | .presenting f, .giveUp => some { s.settle f .failed with book := s.book.use f.id }
  | .freeing f, .go => some { s with display := .top, book := s.book.free f.id }
  | _, _ => none

def closeStep (s : VideoWorld V) : Option (VideoWorld V) :=
  match s.closing with
  | .playing => some { s with decoder := s.decoder.stop, closing := .joiningDecoder }
  | .joiningDecoder =>
    match s.decoder.pc with
    | .exited => some { s with closing := .drainingPackets }
    | _ => none
  | .drainingPackets =>
    match s.decoder.drain with
    | some (_, decoder) => some { s with decoder := decoder }
    -- `avcodec_free_context(&_codecContext)`
    | none => some { s with decoder := s.decoder.closed, closing := .stopping }
  | .stopping => some { s with isAlive := false, closing := .joiningDisplay }
  | .joiningDisplay =>
    match s.display with
    | .exited => some { s with closing := .drainingFrames }
    | _ => none
  | .drainingFrames =>
    match s.frameQueue with
    | [] => some { s with closing := .freeing }
    | none :: rest => some { s with frameQueue := rest }
    | some f :: rest =>
      some { s with
        frameQueue := rest, book := s.book.free f.id
        fates := s.fates ++ [(f.frame, .discarded)] }
  | .freeing =>
    some { s with swsFrame := none, book := s.book.freeOpt s.swsFrame, closing := .closed }
  | .closed => none

def step (s : VideoWorld V) : VideoWorldAct P → Option (VideoWorld V)
  | .opens ok =>
    match s.closing with
    | .closed =>
      let s := { s with closing := .playing, written := [], events := [], fates := [] }
      if ok then
        some { s with
          decoder := .opened, frame := some s.book.next, book := s.book.obtain
          isAlive := true, display := .top }
      else some s
    | _ => none
  | .write packet =>
    match s.closing with
    | .playing => (s.decoder.write packet).map fun decoder =>
      { s with decoder := decoder, written := s.written ++ [packet] }
    | _ => none
  | .decoder => s.decoderStep
  | .display c => s.displayStep c
  | .close => s.closeStep

end VideoWorld

end VideoPlayerCore
