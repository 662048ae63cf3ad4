import Mathlib.Data.Rat.Floor
import VideoPlayerCore.AudioDevice
import VideoPlayerCore.ClockSync
import VideoPlayerCore.Ledgers
import VideoPlayerCore.Windows
import VideoPlayerCore.Words

/-!
# The frames of `Audio::_displayThread`

A frame of the device's format, rate and channel count is cut into blocks as it is; any
other one goes through `swr_convert` into a frame of the thread's own.  The context and that
frame are made for the first frame that needs them and serve all later ones.

`out` points to the thread's own frame or to the frame just dequeued, and to that one also
behind its `av_frame_free`: a frame to be converted then finds whatever the memory reads as.
`ledger` are the allocations, uses and frees of frames, by an id that every frame gets when the
thread or `close` obtains it; `calls` are the calls of `swr_convert`.
-/

namespace VideoPlayerCore

open Ledgers Words

/-! ## Device and stream -/

/-- `AVSampleFormat` -/
inductive AVSampleFormat
  | u8
  | s16
  | s32
  | flt
  | dbl
  | u8p
  | s16p
  | s32p
  | fltp
  | dblp
  | s64
  | s64p
  deriving DecidableEq

/-- `AV_SAMPLE_FMT_S16` and so on -/
def SampleFormat.av : SampleFormat → AVSampleFormat
  | .s16 => .s16
  | .s32 => .s32
  | .flt => .flt

/-- `_forceFormat`, `_spec` and what is computed from them. -/
structure AudioSetup (W : Nat) where
  forceFormat : SampleFormat
  freq : Nat
  channels : Nat
  samples : Nat
  freq_pos : 0 < freq
  channels_pos : 0 < channels
  samples_pos : 0 < samples
  /-- `av_get_bytes_per_sample` -/
  bytesPerSample : AVSampleFormat → Nat
  bytesPerSample_pos : 0 < bytesPerSample forceFormat.av
  /-- `_frameAlignBytes` -/
  frameAlignBytes : BitVec W
  /-- It is at least `_frameBytes + 8`. -/
  le_frameAlignBytes : samples * (bytesPerSample forceFormat.av * channels) + 8 ≤ frameAlignBytes.toNat
  /-- the capacity of the channel's ring -/
  capacity : Pow2 W
  capacity_eq : capacity.val.toNat = 8 * frameAlignBytes.toNat
  /-- `_stream->time_base` -/
  timeBase : ℚ
  /-- `av_rescale_q` -/
  rescale : Int → ℚ → ℚ → Int
  /-- how a `double` lies in memory -/
  doubleBytes : ℚ → List UInt8
  doubleBytes_length : ∀ x, (doubleBytes x).length = 8
  ofDoubleBytes : List UInt8 → Pts

/-- `AV_NOPTS_VALUE` -/
def noPts : Int := -2 ^ 63

structure AVFrame where
  format : AVSampleFormat
  sampleRate : Nat
  /-- `ch_layout.nb_channels` -/
  channels : Nat
  nbSamples : Nat
  pts : Int
  /-- the memory at `data[0]` -/
  data : Nat → UInt8

/-- The frame that `out` points to. -/
structure OutFrame where
  id : Nat
  format : AVSampleFormat
  channels : Nat
  nbSamples : Int
  /-- the samples that its buffer was allocated for -/
  capacity : Nat
  pts : Int
  data : Nat → UInt8
  /-- `av_frame_free` was called for it; the pointer is left as it was. -/
  freed : Bool := false

/-- What a `SwrContext` is configured for, and has `swr_init` succeeded. -/
structure SwrContext where
  outFormat : AVSampleFormat
  outRate : Nat
  outChannels : Nat
  inFormat : AVSampleFormat
  inRate : Nat
  inChannels : Nat
  initialised : Bool
  deriving DecidableEq

/-- A call of `swr_convert`; `out->nb_samples` is the output count. -/
structure SwrCall where
  context : SwrContext
  out : OutFrame
  frame : AVFrame

/-- What the library answers while a frame is converted. -/
structure SwrAnswers where
  /-- `swr_alloc_set_opts2` gives a context. -/
  alloc : Bool
  /-- `swr_init` succeeds. -/
  init : Bool
  /-- `av_frame_alloc` gives a frame. -/
  frame : Bool
  /-- `av_frame_get_buffer` succeeds. -/
  buffer : Bool
  /-- what `swr_convert` returns -/
  converted : Int
  /-- what is at `out->data[0]` behind it -/
  data : Nat → UInt8
  /-- what the memory of a frame reads as that was freed -/
  stale : OutFrame

namespace AudioSetup

variable {W : Nat} (A : AudioSetup W)

/-- The bytes of a sample of all channels. -/
def bps : Nat := A.bytesPerSample A.forceFormat.av * A.channels

/-- The bytes of the samples of a block, `_frameBytes`. -/
def frameBytes : Nat := A.samples * A.bps

/-- The frame is of the device's format, rate and channel count. -/
def isDirect (f : AVFrame) : Bool :=
  A.forceFormat.av = f.format ∧ A.freq = f.sampleRate ∧ A.channels = f.channels

/-- `(int64_t)frame->nb_samples * _spec.freq / frame->sample_rate + 256`, stored in an `int` -/
def outSamples (f : AVFrame) : Int :=
  (BitVec.ofNat 32 (f.nbSamples * A.freq / f.sampleRate + 256)).toInt

/-- The context of `swr_alloc_set_opts2`; its output layout is `AV_CHANNEL_LAYOUT_STEREO`. -/
def contextFor (f : AVFrame) (initialised : Bool) : SwrContext :=
  { outFormat := A.forceFormat.av
    outRate := A.freq
    outChannels := 2
    inFormat := f.format
    inRate := f.sampleRate
    inChannels := f.channels
    initialised := initialised }

/-- `frame->pts == AV_NOPTS_VALUE ? AV_NOPTS_VALUE : av_rescale_q(..)` -/
def rescalePts (pts : Int) : Int :=
  if pts = noPts then noPts else A.rescale pts A.timeBase (1 / A.freq)

theorem bps_pos : 0 < A.bps := Nat.mul_pos A.bytesPerSample_pos A.channels_pos

theorem frameBytes_pos : 0 < A.frameBytes := Nat.mul_pos A.samples_pos A.bps_pos

theorem frameBytes_le : A.frameBytes + 8 ≤ A.frameAlignBytes.toNat := A.le_frameAlignBytes

theorem isDirect_iff {f : AVFrame} : A.isDirect f = true ↔
    f.format = A.forceFormat.av ∧ f.sampleRate = A.freq ∧ f.channels = A.channels := by
  unfold isDirect
  rw [decide_eq_true_eq]
  constructor
  · rintro ⟨hformat, hrate, hchannels⟩
    exact ⟨hformat.symm, hrate.symm, hchannels.symm⟩
  · rintro ⟨hformat, hrate, hchannels⟩
    exact ⟨hformat.symm, hrate.symm, hchannels.symm⟩

end AudioSetup

/-! ## Conversion -/

/-- `_swrContext` and `out`, with the ids given so far and the logs. -/
structure Resampler where
  swrContext : Option SwrContext := none
  out : Option OutFrame := none
  /-- A frame was used as `out` that was freed: the behaviour is undefined from there on. -/
  usedFreed : Bool := false
  nextId : Nat := 0
  ledger : List (Entry Nat) := []
  calls : List SwrCall := []

/-- `out = frame` -/
def AVFrame.asOut (f : AVFrame) (id : Nat) : OutFrame :=
  { id := id
    format := f.format
    channels := f.channels
    nbSamples := f.nbSamples
    capacity := f.nbSamples
    pts := f.pts
    data := f.data }

/-- `av_frame_free` of the frame `id` -/
def OutFrame.release (o : OutFrame) (id : Nat) : OutFrame :=
  { o with freed := o.freed || o.id == id }

/-- What a use of `out` finds. -/
def OutFrame.find (o stale : OutFrame) : OutFrame :=
  if o.freed then { stale with id := o.id, freed := true } else o

/-- `out->nb_samples = ..` -/
def OutFrame.resize (o : OutFrame) (nbSamples : Int) : OutFrame :=
  { o with nbSamples := nbSamples }

/-- `out` behind `swr_convert`, whose answer is stored in `nb_samples`. -/
def OutFrame.receive (o : OutFrame) (pts : Int) (e : SwrAnswers) : OutFrame :=
  { o with pts := pts, nbSamples := e.converted, data := e.data }

@[simp] theorem OutFrame.release_id (o : OutFrame) (id : Nat) : (o.release id).id = o.id := rfl

@[simp] theorem OutFrame.find_id (o stale : OutFrame) : (o.find stale).id = o.id := by
  unfold find
  split <;> rfl

@[simp] theorem OutFrame.find_freed (o stale : OutFrame) : (o.find stale).freed = o.freed := by
  unfold find
  split
  · next hfreed => exact hfreed.symm
  · rfl

theorem OutFrame.find_of_alive {o : OutFrame} (h : o.freed = false) (stale : OutFrame) :
    o.find stale = o := if_neg (Bool.eq_false_iff.mp h)

@[simp] theorem OutFrame.resize_id (o : OutFrame) (n : Int) : (o.resize n).id = o.id := rfl

@[simp] theorem OutFrame.resize_freed (o : OutFrame) (n : Int) :
    (o.resize n).freed = o.freed := rfl

@[simp] theorem OutFrame.resize_nbSamples (o : OutFrame) (n : Int) :
    (o.resize n).nbSamples = n := rfl

@[simp] theorem OutFrame.receive_id (o : OutFrame) (pts : Int) (e : SwrAnswers) :
    (o.receive pts e).id = o.id := rfl

@[simp] theorem OutFrame.receive_freed (o : OutFrame) (pts : Int) (e : SwrAnswers) :
    (o.receive pts e).freed = o.freed := rfl

namespace Resampler

def log (r : Resampler) (entries : List (Entry Nat)) : Resampler :=
  { r with ledger := r.ledger ++ entries }

/-- A frame is obtained, and gets the next id. -/
def obtain (r : Resampler) : Resampler :=
  { r with nextId := r.nextId + 1, ledger := r.ledger ++ [.alloc r.nextId] }

variable {W : Nat} (A : AudioSetup W) (r : Resampler) (f : AVFrame) (id : Nat) (e : SwrAnswers)

/-- `if (!_swrContext) { .. }`; `none` is `goto end_loop`.  A context that `swr_init` failed
for stays. -/
def openContext : Resampler × Option SwrContext :=
  match r.swrContext with
  | some c => (r, some c)
  | none =>
    if e.alloc then
      let c := A.contextFor f e.init
      ({ r with swrContext := some c }, if e.init then some c else none)
    else (r, none)

/-- The frame of `av_frame_alloc`, with its settings and the buffer of `av_frame_get_buffer`. -/
def newOut : OutFrame :=
  { id := r.nextId
    format := A.forceFormat.av
    channels := A.channels
    nbSamples := A.outSamples f
    capacity := if e.buffer then (A.outSamples f).toNat else 0
    pts := noPts
    data := e.data }

/-- `if (!out) { .. } else { .. }`; `none` is `goto end_loop`.  The buffer of a frame that is
there already is not allocated again. -/
def openOut : Resampler × Option OutFrame :=
  match r.out with
  | some o =>
    let o' := (o.find e.stale).resize (A.outSamples f)
    ({ r with out := some o', usedFreed := r.usedFreed || o.freed }.log [.use o.id], some o')
  | none =>
    if e.frame then
      let o := r.newOut A f e
      ({ r with out := some o }.obtain, if e.buffer then some o else none)
    else (r, none)

/-- `swr_convert` into `out` -/
def convert (c : SwrContext) (o : OutFrame) : Resampler × Option OutFrame :=
  let o' := o.receive (A.rescalePts f.pts) e
  let call : SwrCall := { context := c, out := o, frame := f }
  ({ r with out := some o', calls := r.calls ++ [call] }.log [.use o.id, .use id],
    if e.converted < 0 then none else some o')

/-- The conversion path. -/
def resample : Resampler × Option OutFrame :=
  match r.openContext A f e with
  | (r, none) => (r, none)
  | (r, some c) =>
    match r.openOut A f e with
    | (r, none) => (r, none)
    | (r, some o) => r.convert A f id e c o

/-- From the test of the format up to the block loop; `none` is `goto end_loop`. -/
def prepare : Resampler × Option OutFrame :=
  let r := r.log [.use id]
  if A.isDirect f then
    ({ r with out := some (f.asOut id) }, some (f.asOut id))
  else r.resample A f id e

/-- `av_frame_free(&frame)`; if `out` points to that frame, it goes on to. -/
def release : Resampler :=
  ({ r with out := r.out.map fun o => o.release id } : Resampler).log [.free id]

/-- `av_frame_free(&out)` and `swr_free(&_swrContext)` -/
def free : Resampler :=
  { r with
    out := none
    swrContext := none
    ledger := r.ledger ++ (r.out.map fun o => Entry.free o.id).toList }

variable {A r f id e} {r' : Resampler}

theorem openContext_keeps {c : Option SwrContext} (h : r.openContext A f e = (r', c)) :
    r'.out = r.out ∧ r'.nextId = r.nextId ∧ r'.ledger = r.ledger ∧ r'.calls = r.calls ∧
      r'.usedFreed = r.usedFreed := by
  unfold openContext at h
  split at h
  · cases h
    exact ⟨rfl, rfl, rfl, rfl, rfl⟩
  · split at h
    · cases h
      exact ⟨rfl, rfl, rfl, rfl, rfl⟩
    · cases h
      exact ⟨rfl, rfl, rfl, rfl, rfl⟩

/-- Where a conversion ends: without a context, without `out`, or behind `swr_convert`. -/
theorem resample_cases {out : Option OutFrame} (hs : r.resample A f id e = (r', out)) :
    (r.openContext A f e = (r', none) ∧ out = none) ∨
    (∃ r₁ c, r.openContext A f e = (r₁, some c) ∧ r₁.openOut A f e = (r', none) ∧ out = none) ∨
    ∃ r₁ c r₂ o, r.openContext A f e = (r₁, some c) ∧ r₁.openOut A f e = (r₂, some o) ∧
      r₂.convert A f id e c o = (r', out) := by
  unfold resample at hs
  split at hs
  · next hctx =>
    cases hs
    exact .inl ⟨hctx, rfl⟩
  · next r₁ c hctx =>
    split at hs
    · next hopen =>
      cases hs
      exact .inr (.inl ⟨r₁, c, hctx, hopen, rfl⟩)
    · next r₂ o hopen => exact .inr (.inr ⟨r₁, c, r₂, o, hctx, hopen, hs⟩)

/-- The frame that comes out of a conversion. -/
theorem resample_some {o : OutFrame} (hs : r.resample A f id e = (r', some o)) :
    r'.out = some o ∧ o.pts = A.rescalePts f.pts := by
  obtain ⟨-, hnone⟩ | ⟨_, _, -, -, hnone⟩ | ⟨_, _, _, _, -, -, hconvert⟩ := resample_cases hs
  · cases hnone
  · cases hnone
  · unfold convert at hconvert
    obtain ⟨rfl, ho⟩ := Prod.mk.inj hconvert
    split at ho
    · cases ho
    · obtain rfl := Option.some.inj ho
      exact ⟨rfl, rfl⟩

theorem prepare_converted (hf : A.isDirect f = false) :
    r.prepare A f id e = (r.log [.use id]).resample A f id e := by
  unfold prepare
  dsimp only
  rw [hf]
  rfl

theorem prepare_direct (hf : A.isDirect f = true) :
    r.prepare A f id e =
      ({ r.log [.use id] with out := some (f.asOut id) }, some (f.asOut id)) := by
  unfold prepare
  dsimp only
  rw [if_pos hf]

end Resampler

/-! ## A device -/

/-- `av_get_bytes_per_sample` of libavutil -/
def libavBytesPerSample : AVSampleFormat → Nat
  | .u8 | .u8p => 1
  | .s16 | .s16p => 2
  | .s32 | .s32p | .flt | .fltp => 4
  | .dbl | .dblp | .s64 | .s64p => 8

/-- `av_rescale_q` of libavutil: to the nearest, halves away from zero. -/
def libavRescale (a : Int) (b c : ℚ) : Int :=
  if 0 ≤ a * b / c then ⌊a * b / c + 1 / 2⌋ else ⌈a * b / c - 1 / 2⌉

/-- The binary64 pattern of a normal number, its last bits cut off. -/
def binary64 (x : ℚ) : Nat :=
  let magnitude := x.num.natAbs * 2 ^ 1074 / x.den
  let exponent := magnitude.log2 - 51
  if x = 0 then 0
  else (if x < 0 then 2 ^ 63 else 0) + (exponent - 1) * 2 ^ 52 + magnitude / 2 ^ (exponent - 1)

def ofBinary64 (pattern : Nat) : Pts :=
  let exponent := pattern / 2 ^ 52 % 2 ^ 11
  let magnitude : ℚ := (2 ^ 52 + pattern % 2 ^ 52 : Nat) * 2 ^ exponent / 2 ^ 1075
  if exponent = 2 ^ 11 - 1 then none
  else if exponent = 0 then some 0
  else some (if pattern < 2 ^ 63 then magnitude else -magnitude)

/-- Two channels of 16 bits at 8 kHz, in blocks of two samples. -/
def smallDevice (timeBase : ℚ) : AudioSetup 64 where
  forceFormat := .s16
  freq := 8000
  channels := 2
  samples := 2
  freq_pos := by decide
  channels_pos := by decide
  samples_pos := by decide
  bytesPerSample := libavBytesPerSample
  bytesPerSample_pos := by decide
  frameAlignBytes := 16
  le_frameAlignBytes := by decide
  capacity := ⟨128, by decide, by decide⟩
  capacity_eq := by decide
  timeBase := timeBase
  rescale := libavRescale
  doubleBytes := fun x => (List.range 8).map fun i => UInt8.ofNat (binary64 x / 256 ^ i)
  doubleBytes_length := fun _ => rfl
  ofDoubleBytes := fun bytes => ofBinary64 (bytes.foldr (fun b n => b.toNat + 256 * n) 0)

end VideoPlayerCore
