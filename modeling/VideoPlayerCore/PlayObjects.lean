import Mathlib.Logic.Function.Basic
import VideoPlayerCore.AudioDevice
import VideoPlayerCore.Books

/-!
# The objects of a player

What `Play`, its threads and the audio callback point to, from one `Play::start` to the next:
the format context, the codec contexts, the locals of `_readThread` that the `onEof` functions
have by reference, the `ClockSync` and the channels.  The last two are shared, so their books
are kept apart; the video side has its `ClockSync` as a raw pointer.

What the threads do with packets and frames is left out, and how often they do it is open.
`Play::start` has no guard: a start beside a `_readThread` that runs gives two of them the same
members, and is left out here.
-/

namespace VideoPlayerCore

open Ledgers

/-- What `Decoder::open` comes to. -/
inductive DecoderOpening
  /-- there is no codec context -/
  | unallocated
  /-- there is one, but no coroutine -/
  | failed
  | opened
  deriving DecidableEq

/-- The pointers and threads that `Video` and `Audio` both have. -/
structure SideObjects where
  /-- of the decoder -/
  codecContext : Option Nat := none
  decoderAlive : Bool := false
  /-- the coroutine of `Decoder::open` runs -/
  coroutine : Bool := false
  isAlive : Bool := false
  /-- `_displayThread` runs -/
  display : Bool := false
  /-- the format context that `_stream` is in -/
  stream : Option Nat := none
  /-- the locals that `_onEof` refers to -/
  onEof : Option Nat := none
  deriving DecidableEq

/-- Where `Video::close` or `Audio::close` stands. -/
inductive SideClosePc
  /-- `_isAlive = 0;` of the decoder -/
  | stopping
  | joiningDecoder
  /-- `avcodec_free_context(&_codecContext)` -/
  | freeing
  | halting
  | joiningDisplay
  deriving DecidableEq

def SideClosePc.next : SideClosePc → Option SideClosePc
  | .stopping => some .joiningDecoder
  | .joiningDecoder => some .freeing
  | .freeing => some .halting
  | .halting => some .joiningDisplay
  | .joiningDisplay => none

/-- Where `_readThread` stands. -/
inductive PlayPc
  /-- before `start`, too -/
  | returned
  | starting
  /-- `avformat_alloc_context()` -/
  | allocating
  | openingInput
  | findingStreams
  | openingVideo (hasVideo hasAudio : Bool)
  | openingAudio (hasAudio : Bool)
  /-- `while (_isAlive)` -/
  | looping
  | closingVideo (pc : SideClosePc)
  | closingAudio (pc : SideClosePc)
  /-- the message and `_channel.reset()` -/
  | removingChannel
  /-- the locked block of `Audio::close` -/
  | uncounting
  | closingInput
  | returning
  deriving DecidableEq

def ChannelMessage.channel : ChannelMessage → Nat
  | .addChannel c | .removeChannel c => c

structure PlayObjects where
  /-- format contexts, codec contexts and locals -/
  contexts : Book := {}
  clocks : Book := {}
  channels : Book := {}
  /-- `clock` of every channel -/
  clockOf : Nat → Option Nat := fun _ => none
  isAlive : Bool := false
  reader : PlayPc := .returned
  locals : Option Nat := none
  formatContext : Option Nat := none
  synchronize : Option Nat := none
  video : SideObjects := {}
  /-- `_sync` of `Video` -/
  sync : Option Nat := none
  audio : SideObjects := {}
  /-- `_channel` of `Audio` -/
  channel : Option Nat := none
  audioChan : List ChannelMessage := []
  /-- the channel in the `msg` of the callback -/
  message : Option Nat := none
  audioChannels : List Nat := []
  /-- a null pointer was followed -/
  crashed : Bool := false

/-- What a coroutine or a display thread does next. -/
inductive SideWork
  /-- a call with `_codecContext` -/
  | decode
  /-- the coroutine ends -/
  | leaveDecoder
  /-- `_stream->time_base` -/
  | stream
  /-- a call of the clocks -/
  | clock
  /-- `_onEof()` -/
  | eof
  | leaveDisplay
  deriving DecidableEq

inductive PlayObjectAct
  /-- with no `_readThread` running -/
  | start
  | stop
  /-- the reader, where nothing is open -/
  | reader
  | allocContext (ok : Bool)
  /-- `_interruptCb`, not paused -/
  | interrupt
  | openInput (ok : Bool)
  /-- `none` where there is nothing to play -/
  | findStreams (found : Option (Bool × Bool))
  | openVideo (decoder : DecoderOpening)
  /-- and whether there is a device -/
  | openAudio (decoder : DecoderOpening) (device : Bool)
  /-- a pass of the loop -/
  | pass
  /-- the restart branch -/
  | rewind
  | leave (error : Bool)
  /-- the locked block, and whether it clears the channels -/
  | uncount (clears : Bool)
  | video (w : SideWork)
  | audio (w : SideWork)
  /-- the callback reads a message -/
  | pop
  | mix (c : Nat)
  /-- the callback returns -/
  | silence
  deriving DecidableEq

namespace PlayObjects

/-! ## Pointers -/

/-- The `shared_ptr`s to channels. -/
def channelRefs (s : PlayObjects) : List Nat :=
  s.channel.toList ++ (s.message.toList ++
    (s.audioChan.map ChannelMessage.channel ++ s.audioChannels))

/-- The `shared_ptr`s to clocks. -/
def clockRefs (s : PlayObjects) : List Nat :=
  s.synchronize.toList ++ s.channelRefs.filterMap s.clockOf

def useContext (s : PlayObjects) : Option Nat → PlayObjects
  | some i => { s with contexts := s.contexts.use i }
  | none => { s with crashed := true }

def useClock (s : PlayObjects) : Option Nat → PlayObjects
  | some i => { s with clocks := s.clocks.use i }
  | none => { s with crashed := true }

/-- A channel, and its clock. -/
def useChannel (s : PlayObjects) : Option Nat → PlayObjects
  | some c => { s with channels := s.channels.use c }.useClock (s.clockOf c)
  | none => { s with crashed := true }

/-- A `shared_ptr` to `c` is gone; the last one takes the channel's clock with it. -/
def dropChannel (s : PlayObjects) (c : Option Nat) : PlayObjects :=
  match c with
  | none => s
  | some c =>
    { s with
      channels := s.channels.release c s.channelRefs
      clocks :=
        if c ∈ s.channelRefs then s.clocks else s.clocks.releaseOpt (s.clockOf c) s.clockRefs }

/-! ## `Video` and `Audio` -/

/-- `Decoder::open` -/
def openDecoder (side : SideObjects) (contexts : Book) : DecoderOpening → SideObjects × Book
  | .unallocated => ({ side with codecContext := none }, contexts)
  | .failed => ({ side with codecContext := some contexts.next }, contexts.obtain)
  | .opened =>
    ({ side with codecContext := some contexts.next, decoderAlive := true, coroutine := true },
      contexts.obtain)

/-- `Video::open`, the decoder's look at the stream aside -/
def openVideo (s : PlayObjects) (decoder : DecoderOpening) : PlayObjects :=
  let side := { s.video with stream := s.formatContext, onEof := s.locals }
  let (side, contexts) := openDecoder side s.contexts decoder
  let s := { s with contexts := contexts, video := side, sync := s.synchronize }
  if decoder = .opened then { s with video := { side with isAlive := true, display := true } }
  else s

/-- A channel with this `ClockSync`, and its message. -/
def addChannel (s : PlayObjects) : PlayObjects :=
  let c := s.channels.next
  { s with
    channels := s.channels.obtain
    clockOf := Function.update s.clockOf c s.synchronize
    channel := some c
    audioChan := s.audioChan ++ [ChannelMessage.addChannel c] }.dropChannel s.channel

/-- `Audio::open`; without a device there is no channel, but the coroutine goes on. -/
def openAudio (s : PlayObjects) (decoder : DecoderOpening) (device : Bool) : PlayObjects :=
  let side := { s.audio with stream := s.formatContext, onEof := s.locals }
  let (side, contexts) := openDecoder side s.contexts decoder
  let s := { s with contexts := contexts, audio := side }
  if decoder = .opened ∧ device then
    { s.addChannel with audio := { side with isAlive := true, display := true } }
  else s

/-- `Decoder::close`, and the end of the display thread. -/
def closeSide (side : SideObjects) (contexts : Book) :
    SideClosePc → Option (SideObjects × Book)
  | .stopping => some ({ side with decoderAlive := false }, contexts)
  | .joiningDecoder => if side.coroutine then none else some (side, contexts)
  | .freeing => some ({ side with codecContext := none }, contexts.freeOpt side.codecContext)
  | .halting => some ({ side with isAlive := false }, contexts)
  | .joiningDisplay => if side.display then none else some (side, contexts)

/-! ## The reader -/

/-- `std::make_shared<ClockSync>()` -/
def makeSynchronize (s : PlayObjects) : PlayObjects :=
  let old := s.synchronize
  let s := { s with clocks := s.clocks.obtain, synchronize := some s.clocks.next }
  { s with clocks := s.clocks.releaseOpt old s.clockRefs }

/-- The message of `Audio::close`, and `_channel.reset()`. -/
def removeChannel (s : PlayObjects) : PlayObjects :=
  match s.channel with
  | none => s
  | some c =>
    { s with
      audioChan := s.audioChan ++ [ChannelMessage.removeChannel c]
      channel := none }.dropChannel (some c)

def readerStep (s : PlayObjects) : Option PlayObjects :=
  match s.reader with
  | .starting =>
    some { s with
      reader := .allocating, locals := some s.contexts.next
      contexts := s.contexts.obtain }.makeSynchronize
  | .openingVideo false hasAudio => some { s with reader := .openingAudio hasAudio }
  | .openingAudio false => some ({ s with reader := .looping }.useClock s.synchronize)
  | .closingVideo pc => (closeSide s.video s.contexts pc).map fun (side, contexts) =>
    { s with
      reader := pc.next.elim (.closingAudio .stopping) .closingVideo
      video := side, contexts := contexts }
  | .closingAudio pc => (closeSide s.audio s.contexts pc).map fun (side, contexts) =>
    { s with
      reader := pc.next.elim .removingChannel .closingAudio
      audio := side, contexts := contexts }
  | .removingChannel => some { s.removeChannel with reader := .uncounting }
  | .closingInput =>
    some { s with
      reader := .returning, formatContext := none
      contexts := s.contexts.freeOpt s.formatContext }
  | .returning =>
    some { s with
      reader := .returned, locals := none, contexts := s.contexts.freeOpt s.locals }
  | _ => none

/-- `_audioChannels.clear()` -/
def clearChannels : List Nat → PlayObjects → PlayObjects
  | [], s => s
  | c :: rest, s => clearChannels rest ({ s with audioChannels := rest }.dropChannel (some c))

/-! ## The threads -/

def videoWork (s : PlayObjects) : SideWork → Option PlayObjects
  | .decode => if s.video.coroutine then some (s.useContext s.video.codecContext) else none
  | .leaveDecoder =>
    if s.video.coroutine ∧ ¬ s.video.decoderAlive then
      some { s with video := { s.video with coroutine := false } }
    else none
  | .stream => if s.video.display then some (s.useContext s.video.stream) else none
  | .clock => if s.video.display then some (s.useClock s.sync) else none
  | .eof => if s.video.display then some (s.useContext s.video.onEof) else none
  | .leaveDisplay =>
    if s.video.display ∧ ¬ s.video.isAlive then
      some { s with video := { s.video with display := false } }
    else none

/-- `_displayThread` of audio has the clocks from its channel, `_onEof` from the player. -/
def audioWork (s : PlayObjects) : SideWork → Option PlayObjects
  | .decode => if s.audio.coroutine then some (s.useContext s.audio.codecContext) else none
  | .leaveDecoder =>
    if s.audio.coroutine ∧ ¬ s.audio.decoderAlive then
      some { s with audio := { s.audio with coroutine := false } }
    else none
  | .stream => if s.audio.display then some (s.useContext s.audio.stream) else none
  | .clock => if s.audio.display then some (s.useChannel s.channel) else none
  | .eof =>
    if s.audio.display then some ((s.useContext s.audio.onEof).useClock s.synchronize) else none
  | .leaveDisplay =>
    if s.audio.display ∧ ¬ s.audio.isAlive then
      some { s with audio := { s.audio with display := false } }
    else none

/-- A message goes to `msg`, the one before is gone. -/
def pop (s : PlayObjects) : Option PlayObjects :=
  match s.audioChan with
  | [] => none
  | m :: rest =>
    let s := { s with audioChan := rest, message := some m.channel }.dropChannel s.message
    match m with
    | .addChannel c =>
      some (if c ∈ s.audioChannels then s else { s with audioChannels := c :: s.audioChannels })
    | .removeChannel c =>
      some (if c ∈ s.audioChannels then
        { s with audioChannels := s.audioChannels.erase c }.dropChannel (some c) else s)

def step (s : PlayObjects) : PlayObjectAct → Option PlayObjects
  | .start =>
    match s.reader with
    | .returned => some { s with reader := .starting, isAlive := true }
    | _ => none
  | .stop => some { s with isAlive := false }
  | .reader => s.readerStep
  | .allocContext ok =>
    match s.reader with
    | .allocating =>
      if ok then some
        { s with
          reader := .openingInput, formatContext := some s.contexts.next
          contexts := s.contexts.obtain }
      -- the callback is written through the pointer unchecked
      else some { s with reader := .openingInput, formatContext := none, crashed := true }
    | _ => none
  | .interrupt =>
    match s.reader with
    | .openingInput | .findingStreams | .looping => some (s.useClock s.synchronize)
    | _ => none
  | .openInput ok =>
    match s.reader with
    | .openingInput =>
      if ok then some { s.useContext s.formatContext with reader := .findingStreams }
      -- the context is freed and the pointer cleared
      else some
        { s with
          reader := .closingVideo .stopping, formatContext := none
          contexts := s.contexts.freeOpt s.formatContext }
    | _ => none
  | .findStreams found =>
    match s.reader with
    | .findingStreams =>
      some { s.useContext s.formatContext with
        reader := found.elim (.closingVideo .stopping) fun (v, a) => .openingVideo v a }
    | _ => none
  | .openVideo decoder =>
    match s.reader with
    | .openingVideo true hasAudio =>
      some { (s.useContext s.formatContext).openVideo decoder with
        reader := .openingAudio hasAudio }
    | _ => none
  | .openAudio decoder device =>
    match s.reader with
    | .openingAudio true =>
      let s := { (s.useContext s.formatContext).openAudio decoder device with reader := .looping }
      -- the type of the clock, and which clocks are disabled
      some (s.useClock s.synchronize)
    | _ => none
  | .pass =>
    match s.reader with
    | .looping => some ((s.useContext s.formatContext).useContext s.locals)
    | _ => none
  | .rewind =>
    match s.reader with
    | .looping =>
      some (((s.useContext s.formatContext).useContext s.locals).useClock s.synchronize)
    | _ => none
  | .leave error =>
    match s.reader with
    | .looping =>
      if error ∨ ¬ s.isAlive then some { s with reader := .closingVideo .stopping } else none
    | _ => none
  | .uncount clears =>
    match s.reader with
    | .uncounting =>
      let s := { s with reader := .closingInput }
      some (if clears then s.clearChannels s.audioChannels else s)
    | _ => none
  | .video w => s.videoWork w
  | .audio w => s.audioWork w
  | .pop => s.pop
  | .mix c => if c ∈ s.audioChannels then some (s.useChannel (some c)) else none
  | .silence => some ({ s with message := none }.dropChannel s.message)

/-- `avformat_alloc_context` succeeds. -/
def Allocates (_ : PlayObjects) : PlayObjectAct → Prop
  | .allocContext ok => ok = true
  | _ => True

instance (s : PlayObjects) : (a : PlayObjectAct) → Decidable (s.Allocates a)
  | .allocContext ok => inferInstanceAs (Decidable (ok = true))
  | .start | .stop | .reader | .interrupt | .openInput _ | .findStreams _ | .openVideo _
  | .openAudio _ _ | .pass | .rewind | .leave _ | .uncount _ | .video _ | .audio _ | .pop | .mix _
  | .silence => .isTrue trivial

end PlayObjects

end VideoPlayerCore
