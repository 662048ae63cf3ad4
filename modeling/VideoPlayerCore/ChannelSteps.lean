import VideoPlayerCore.RingSteps

/-!
# An audio channel: display thread, audio callback and `reset()`

`Audio::_displayThread` publishes blocks of `_frameAlignBytes` bytes on the
channel's ring buffer; at an EOF marker it waits until `available_read()` is 0
and calls `frameQueue.reset()`.  `Audio::_audioCallback` takes one block per run.
The calls on the ring are those of `RingSteps`; `reset()` is its own three steps.

`published` and `obtained` of the ring count bytes; `blocks` are the published
blocks and `mixed`, `headers` what the callback has mixed and passed to
`updateAudioPts`.
-/

namespace VideoPlayerCore

variable {W : Nat}

/-- Where the display thread is in its EOF branch. -/
inductive EofPhase (W : Nat)
  | none
  | polling
  | loaded (r : BitVec W)
  | drained
  | midReset
  | clearing (i : Nat)
  deriving DecidableEq

/-- What the callback has done with the block it holds. -/
inductive CallbackPhase
  | fresh
  | timed
  | mixed
  deriving DecidableEq

structure ChannelState (W : Nat) where
  q : RingState W UInt8
  eof : EofPhase W
  callback : CallbackPhase
  blocks : List (List UInt8)
  mixed : List (List UInt8)
  headers : List (List UInt8)
  /-- Bytes published up to the last completed `reset()`. -/
  base : Nat

inductive ChannelAct
  | beginWrite
  | loadRead
  | fill (i : Nat) (v : UInt8)
  | endWrite
  | storeWrite
  | eofMarker
  | pollRead
  | pollWrite
  | resetWrite
  | resetRead
  | clear
  | beginRead
  | loadWrite
  | updateAudioPts
  | mix
  | endRead
  | storeRead
  deriving DecidableEq

namespace ChannelState

def start (b : AudioRingBuffer W UInt8) : ChannelState W :=
  { q := .start b, eof := .none, callback := .fresh, blocks := [], mixed := [], headers := [],
    base := 0 }

/-- A step of the display thread outside the EOF branch. -/
def display (s : ChannelState W) (a : RingAct W UInt8) : Option (ChannelState W) :=
  if s.eof = .none then (s.q.step a).map fun q => { s with q := q } else none

/-- `end_write` publishes a block. -/
def storeWrite (s : ChannelState W) : Option (ChannelState W) :=
  match s.q.producer with
  | .ending call slot _ =>
    (s.display .storeWrite).map fun t => { t with blocks := s.blocks ++ [call.elements s.q.ring slot] }
  | _ => none

/-- The EOF branch is entered with no block open. -/
def eofMarker (s : ChannelState W) : Option (ChannelState W) :=
  match s.q.producer, s.eof with
  | .idle, .none => some { s with eof := .polling }
  | _, _ => none

def pollRead (s : ChannelState W) : Option (ChannelState W) :=
  match s.eof with
  | .polling => some { s with eof := .loaded s.q.ring.readPos }
  | _ => none

/-- The second load of `available_read()`, and the test of the `while`. -/
def pollWrite (s : ChannelState W) : Option (ChannelState W) :=
  match s.eof with
  | .loaded r =>
    if (s.q.ring.writePos - r) &&& s.q.ring.cap.mask = 0 then some { s with eof := .drained }
    else some { s with eof := .polling }
  | _ => none

/-- `write_pos_.store(0)` of `reset()`. -/
def resetWrite (s : ChannelState W) : Option (ChannelState W) :=
  match s.eof with
  | .drained => some { s with q := { s.q with ring := s.q.ring.setWrite 0 }, eof := .midReset }
  | _ => none

/-- `read_pos_.store(0)` of `reset()`. -/
def resetRead (s : ChannelState W) : Option (ChannelState W) :=
  match s.eof with
  | .midReset =>
    some { s with
      q := { s.q with ring := s.q.ring.setRead 0 }
      eof := .clearing 0
      base := s.q.published.length }
  | _ => none

/-- The `memset` of `reset()`, byte by byte; after it `_onEof()` and back to the loop. -/
def clear (s : ChannelState W) : Option (ChannelState W) :=
  match s.eof with
  | .clearing i =>
    if i < s.q.ring.slots then
      some { s with q := { s.q with ring := s.q.ring.poke i 0 }, eof := .clearing (i + 1) }
    else some { s with eof := .none }
  | _ => none

/-- A step of the callback on the ring. -/
def onCallback (s : ChannelState W) (a : RingAct W UInt8) : Option (ChannelState W) :=
  (s.q.step a).map fun q => { s with q := q }

/-- The header of the block held goes to `updateAudioPts`. -/
def updateAudioPts (s : ChannelState W) : Option (ChannelState W) :=
  match s.q.consumer, s.callback with
  | .reading call slot _, .fresh =>
    some { s with
      callback := .timed
      headers := s.headers ++ [(s.q.ring.window slot call.frames).take 8] }
  | _, _ => none

def mix (s : ChannelState W) : Option (ChannelState W) :=
  match s.q.consumer, s.callback with
  | .reading call slot _, .timed =>
    some { s with
      callback := .mixed
      mixed := s.mixed ++ [s.q.ring.window slot call.frames] }
  | _, _ => none

def endRead (s : ChannelState W) : Option (ChannelState W) :=
  if s.callback = .mixed then s.onCallback .endRead else none

def storeRead (s : ChannelState W) : Option (ChannelState W) :=
  (s.onCallback .storeRead).map fun t => { t with callback := .fresh }

/-- One step with `_frameAlignBytes = F`. -/
def step (F : BitVec W) (s : ChannelState W) : ChannelAct → Option (ChannelState W)
  | .beginWrite => s.display (.beginWrite (.zeroCopy F))
  | .loadRead => s.display .loadRead
  | .fill i v => s.display (.fill i v)
  | .endWrite => s.display .endWrite
  | .storeWrite => s.storeWrite
  | .eofMarker => s.eofMarker
  | .pollRead => s.pollRead
  | .pollWrite => s.pollWrite
  | .resetWrite => s.resetWrite
  | .resetRead => s.resetRead
  | .clear => s.clear
  | .beginRead => s.onCallback (.beginRead (.zeroCopy F))
  | .loadWrite => s.onCallback .loadWrite
  | .updateAudioPts => s.updateAudioPts
  | .mix => s.mix
  | .endRead => s.endRead
  | .storeRead => s.storeRead

end ChannelState

/-- The `read_pos_` a running `begin_read` has loaded. -/
def ChannelState.loadedRead (s : ChannelState W) : Option (BitVec W) :=
  match s.q.consumer with
  | .loadedRead _ r => some r
  | _ => none

/-- `begin_read` does not decide from positions a `reset()` has torn apart: at its
load of `write_pos_` no reset is between its two stores and none has overwritten
the `read_pos_` it loaded, or else the two loaded positions are equal. -/
def ResetApart (s : ChannelState W) (a : ChannelAct) : Prop :=
  a = .loadWrite → ∀ r ∈ s.loadedRead,
    s.eof = .midReset ∨ r ≠ s.q.ring.readPos → s.q.ring.writePos = r

instance (s : ChannelState W) (a : ChannelAct) : Decidable (ResetApart s a) :=
  -- not the instance that tries every word
  have : Decidable (∀ r ∈ s.loadedRead,
      s.eof = .midReset ∨ r ≠ s.q.ring.readPos → s.q.ring.writePos = r) :=
    Option.decidableForallMem _
  inferInstanceAs (Decidable (a = .loadWrite → _))

/-- The channel of a session: `std::make_shared<Channel>(8 * _frameAlignBytes)`. -/
def IsChannel (F : BitVec W) (b : AudioRingBuffer W UInt8) : Prop :=
  FreshRing b ∧ b.cap.val = 8 * F

/-- The callback mixes the published blocks, each once and in order, and feeds
`updateAudioPts` their headers. -/
def MixesPublished (s : ChannelState W) : Prop :=
  s.mixed <+: s.blocks ∧ s.headers <+: s.blocks.map (List.take 8)

end VideoPlayerCore
