import VideoPlayerCore.DecoderSteps
import VideoPlayerCore.Ledgers

/-!
# The packets of a session

`Play::_readThread` from opening the streams to its end, with the coroutines of both decoders
and a stop request at any time.  Packets are numbered in the order of `av_packet_alloc`; the
ledger has every call that allocates, uses or frees one.

What `av_read_frame` answers, whether the session is paused, and when the display threads are
through is open.  `Video::close` and `Audio::close` are the `Decoder::close` in them: the rest
has no packets.
-/

namespace VideoPlayerCore

open Ledgers

variable {F G : Type}

/-! ## Decoder::close -/

namespace Decoder

variable {P : Type} {C : Codec P F}

/-- `_isAlive = 0;` -/
def stop (d : Decoder C) : Decoder C := { d with isAlive := false }

/-- `_packetQueue.read(&packet, 1)` of the drain loop -/
def drain (d : Decoder C) : Option (Option P × Decoder C) :=
  match d.packetQueue with
  | [] => none
  | packet :: rest => some (packet, { d with packetQueue := rest })

end Decoder

/-! ## The machine -/

/-- Where `Decoder::close` stands. -/
inductive ClosePc
  | stop
  /-- `_wg.Wait()` -/
  | wait
  | drain
  deriving DecidableEq

inductive ReadPc
  | opening
  /-- `while (_isAlive)` -/
  | top
  | turn
  /-- `av_read_frame(_formatContext, packet)` -/
  | reading (packet : Nat)
  /-- `_video.write(packet)` -/
  | toVideo (packet : Nat)
  | toAudio (packet : Nat)
  /-- the packet of another stream -/
  | freeing (packet : Nat)
  /-- `AVERROR_EOF`: `av_packet_free(&packet)`, then NULL to both decoders -/
  | endFreeing (packet : Nat)
  | endVideo
  | endAudio
  | closingVideo (pc : ClosePc)
  | closingAudio (pc : ClosePc)
  | returned
  deriving DecidableEq

/-- Which stream `packet->stream_index` is. -/
inductive PacketStream
  | video
  | audio
  | other
  deriving DecidableEq

/-- What `av_read_frame` returns. -/
inductive PacketRead
  | packet (stream : PacketStream)
  | eof
  /-- any other error, `AVERROR_EXIT` of the interrupt callback among them -/
  | error
  deriving DecidableEq

structure ReadWorld (V : Codec Nat F) (A : Codec Nat G) where
  isAlive : Bool := true
  /-- `videoStreamIndex` is not -1 -/
  hasVideo : Bool := false
  hasAudio : Bool := false
  eof : Bool := false
  pc : ReadPc := .opening
  video : Decoder V := {}
  audio : Decoder A := {}
  /-- how many packets were allocated -/
  allocated : Nat := 0
  ledger : List (Entry Nat) := []
  /-- some `av_read_frame` returned an error other than EOF -/
  failed : Bool := false

inductive ReadAct
  /-- the streams cannot be opened, or there is none -/
  | openFails
  /-- what `_video.open` and, in `_audio.open`, the decoder and the device say -/
  | openStreams (video audioDecoder audioDevice : Bool)
  /-- the reader's next call -/
  | go
  | read (result : PacketRead)
  /-- paused, or the streams are not played out: `co_sleep(10)` -/
  | sleep
  /-- all streams are played out, and `_isLoop` -/
  | rewind
  /-- the next call of a decoder coroutine -/
  | video
  | audio
  /-- `Play::stop` sets `_isAlive` -/
  | stop
  deriving DecidableEq

/-- What a call of a decoder coroutine does to packets. -/
def DecoderEvent.entries : DecoderEvent Nat F → List (Entry Nat)
  | .sent pkt _ => pkt.toList.map Entry.use
  | .frame _ => []
  | .freed pkt => [.free pkt]

namespace ReadWorld

variable {V : Codec Nat F} {A : Codec Nat G}

/-- `av_packet_free(&packet)` -/
def free (s : ReadWorld V A) (packet : Option Nat) : ReadWorld V A :=
  { s with ledger := s.ledger ++ packet.toList.map Entry.free }

/-- After `av_read_frame(_formatContext, packet)`. -/
def afterRead (s : ReadWorld V A) (packet : Nat) : PacketRead → ReadWorld V A
  | .packet stream =>
    if stream = .video ∧ s.hasVideo then { s with pc := .toVideo packet }
    else if stream = .audio ∧ s.hasAudio then { s with pc := .toAudio packet }
    else { s with pc := .freeing packet }
  | .eof => { s with eof := true, pc := .endFreeing packet }
  | .error => { s with failed := true, pc := .closingVideo .stop }

/-- The reader's next call, where nothing is left to the environment. -/
def go (s : ReadWorld V A) : Option (ReadWorld V A) :=
  match s.pc with
  | .top => some { s with pc := if s.isAlive then .turn else .closingVideo .stop }
  | .turn =>
    if s.eof then some { s with pc := .top }
    else some
      { s with
        pc := .reading s.allocated, allocated := s.allocated + 1
        ledger := s.ledger ++ [.alloc s.allocated] }
  | .toVideo packet => do
    let video ← s.video.write (some packet)
    return { s with video := video, pc := .top }
  | .toAudio packet => do
    let audio ← s.audio.write (some packet)
    return { s with audio := audio, pc := .top }
  | .freeing packet => some { s.free (some packet) with pc := .top }
  | .endFreeing packet => some { s.free (some packet) with pc := .endVideo }
  | .endVideo => do
    let video ← s.video.write none
    return { s with video := video, pc := .endAudio }
  | .endAudio => do
    let audio ← s.audio.write none
    return { s with audio := audio, pc := .top }
  | .closingVideo .stop => some { s with video := s.video.stop, pc := .closingVideo .wait }
  | .closingVideo .wait =>
    match s.video.pc with
    | .exited => some { s with pc := .closingVideo .drain }
    | _ => none
  | .closingVideo .drain =>
    match s.video.drain with
    | some (packet, video) => some ({ s with video := video }.free packet)
    | none => some { s with pc := .closingAudio .stop }
  | .closingAudio .stop => some { s with audio := s.audio.stop, pc := .closingAudio .wait }
  | .closingAudio .wait =>
    match s.audio.pc with
    | .exited => some { s with pc := .closingAudio .drain }
    | _ => none
  | .closingAudio .drain =>
    match s.audio.drain with
    | some (packet, audio) => some ({ s with audio := audio }.free packet)
    | none => some { s with pc := .returned }
  | _ => none

def step (s : ReadWorld V A) : ReadAct → Option (ReadWorld V A)
  | .openFails =>
    match s.pc with
    | .opening => some { s with pc := .closingVideo .stop }
    | _ => none
  | .openStreams video audioDecoder audioDevice =>
    match s.pc with
    | .opening => some
      { s with
        hasVideo := video, hasAudio := audioDecoder && audioDevice, pc := .top
        video := if video then .opened else {}
        audio := if audioDecoder then .opened else {} }
    | _ => none
  | .go => s.go
  | .read result =>
    match s.pc with
    | .reading packet =>
      some ({ s with ledger := s.ledger ++ [Entry.use packet] }.afterRead packet result)
    | _ => none
  | .sleep =>
    match s.pc with
    | .turn => some { s with pc := .top }
    | _ => none
  | .rewind =>
    match s.pc with
    | .turn => if s.eof then some { s with eof := false, pc := .top } else none
    | _ => none
  | .video => do
    let (video, events) ← s.video.run
    return { s with video := video, ledger := s.ledger ++ events.flatMap DecoderEvent.entries }
  | .audio => do
    let (audio, events) ← s.audio.run
    return { s with audio := audio, ledger := s.ledger ++ events.flatMap DecoderEvent.entries }
  | .stop => some { s with isAlive := false }

end ReadWorld

end VideoPlayerCore
