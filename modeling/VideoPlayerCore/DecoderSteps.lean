import VideoPlayerCore.Machine
import VideoPlayerCore.Pipe

/-!
# The decoder, call by call

The coroutine of `Decoder::open` against an `AVCodecContext` that keeps to its documentation:
`avcodec_send_packet` refuses a packet while output was not received, and after NULL until
`avcodec_flush_buffers`; `avcodec_receive_frame` gives each frame once.  The coroutine does
not look at what `avcodec_send_packet` returns.

`Pipe` has all this in one step.  `Decoder.run` makes one call a step and reports it.
-/

namespace VideoPlayerCore

variable {P F : Type}

/-! ## The codec context -/

structure CodecContext (C : Codec P F) where
  state : C.State := C.fresh
  /-- the output that was not received yet -/
  output : List F := []
  /-- NULL was sent and the buffers were not flushed since -/
  draining : Bool := false

namespace CodecContext

variable {C : Codec P F}

/-- `avcodec_send_packet(context, pkt)`, and whether it takes the packet -/
def sendPacket (x : CodecContext C) (pkt : Option P) : CodecContext C × Bool :=
  if x.output.isEmpty && !x.draining then
    let (output, state) := C.decode x.state pkt
    ({ state := state, output := output, draining := pkt.isNone }, true)
  else (x, false)

/-- `avcodec_receive_frame(context, frame)`; `none` is `EAGAIN` or `EOF`. -/
def receiveFrame (x : CodecContext C) : Option (F × CodecContext C) :=
  match x.output with
  | [] => none
  | f :: output => some (f, { x with output := output })

/-- `avcodec_flush_buffers(context)` -/
def flushBuffers (_ : CodecContext C) : CodecContext C := {}

end CodecContext

/-! ## The coroutine -/

/-- Before which call the coroutine stands, and its `pkt`. -/
inductive CoroutinePc (P F : Type)
  /-- `while (_isAlive)` -/
  | top
  /-- `_packetQueue.read(&pkt, 1)` -/
  | reading
  | sending (pkt : Option P)
  | receiving (pkt : Option P)
  /-- `_onFrame(out)` -/
  | handing (pkt : Option P) (out : F)
  /-- `_onFrame(NULL)` -/
  | ending
  | flushing
  /-- `av_packet_free(&pkt)` -/
  | freeing (pkt : Option P)
  | exited
  deriving DecidableEq

/-- The calls with packets and frames. -/
inductive DecoderEvent (P F : Type)
  | sent (pkt : Option P) (taken : Bool)
  | frame (f : Option F)
  | freed (pkt : P)
  deriving DecidableEq

structure Decoder (C : Codec P F) where
  context : CodecContext C := {}
  packetQueue : List (Option P) := []
  isAlive : Bool := false
  eof : Bool := false
  /-- exited before `open`, too -/
  pc : CoroutinePc P F := .exited

namespace Decoder

variable {C : Codec P F}

/-- `Decoder::open` that succeeds, on a decoder that is closed -/
def opened : Decoder C where
  isAlive := true
  pc := .top

/-- What `Decoder::close` leaves; `_eof` stays until the next `open`. -/
def closed (d : Decoder C) : Decoder C where
  eof := d.eof

/-- A `_packetQueue.write(&packet, 1)` that succeeds; `Decoder::write` retries it. -/
def write (d : Decoder C) (packet : Option P) : Option (Decoder C) :=
  if d.packetQueue.length < packetRoom then
    some { d with packetQueue := d.packetQueue ++ [packet] }
  else none

/-- The next call of the coroutine. -/
def run (d : Decoder C) : Option (Decoder C × List (DecoderEvent P F)) :=
  match d.pc with
  | .top => some ({ d with pc := if d.isAlive then .reading else .exited }, [])
  | .reading =>
    match d.packetQueue with
    | [] => some ({ d with pc := .top }, [])
    | pkt :: rest => some ({ d with packetQueue := rest, pc := .sending pkt }, [])
  | .sending pkt =>
    let (context, taken) := d.context.sendPacket pkt
    some ({ d with context := context, pc := .receiving pkt }, [.sent pkt taken])
  | .receiving pkt =>
    match d.context.receiveFrame with
    | some (f, context) => some ({ d with context := context, pc := .handing pkt f }, [])
    | none =>
      if pkt.isNone then some ({ d with eof := true, pc := .ending }, [])
      else some ({ d with eof := false, pc := .freeing pkt }, [])
  | .handing pkt out => some ({ d with pc := .receiving pkt }, [.frame (some out)])
  | .ending => some ({ d with pc := .flushing }, [.frame none])
  | .flushing => some ({ d with context := d.context.flushBuffers, pc := .freeing none }, [])
  | .freeing pkt => some ({ d with pc := .top }, pkt.toList.map .freed)
  | .exited => none

end Decoder

/-! ## Runs -/

inductive DecoderAct (P : Type)
  | write (packet : Option P)
  | run
  deriving DecidableEq

structure DecoderRun (C : Codec P F) where
  decoder : Decoder C := .opened
  /-- what was written, in order; NULL is `none` -/
  written : List (Option P) := []
  events : List (DecoderEvent P F) := []

namespace DecoderRun

variable {C : Codec P F}

def step (s : DecoderRun C) : DecoderAct P → Option (DecoderRun C)
  | .write packet => do
    let decoder ← s.decoder.write packet
    return { s with decoder := decoder, written := s.written ++ [packet] }
  | .run => do
    let (decoder, events) ← s.decoder.run
    return { s with decoder := decoder, events := s.events ++ events }

end DecoderRun

/-- What `onFrame` was called with. -/
def onFrameCalls (events : List (DecoderEvent P F)) : List (Option F) :=
  events.filterMap fun
    | .frame f => some f
    | _ => none

def freedPackets (events : List (DecoderEvent P F)) : List P :=
  events.filterMap fun
    | .freed pkt => some pkt
    | _ => none

/-- The packets that the codec did not take. -/
def refusedPackets (events : List (DecoderEvent P F)) : List (Option P) :=
  events.filterMap fun
    | .sent pkt false => some pkt
    | _ => none

end VideoPlayerCore
