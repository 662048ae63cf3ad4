import Mathlib.Data.List.ReduceOption
import Mathlib.Tactic.Linarith
import Mathlib.Tactic.Ring
import VideoPlayerCore.PlaybackSteps

/-!
# What the clocks say about the packets that were delivered

Every frame that was delivered is in its place between the reader and the display
thread.  The samples of all audio frames that the display thread has taken make one
sequence of times; the blocks cut it into pieces of `_spec.samples`, and audio's clock
stands at the beginning of the block that was played last.

    sync.audio.startPts   = times[0]?
    sync.audio.currentPts = times[(played - 1) * samples]?        (AudioInv)
    sync.video.startPts   = time of the first video frame         (VideoInv)
-/

namespace VideoPlayerCore

open Machine

/-! ## Sample times -/

/-- The times of consecutive samples. -/
def sampleRun (freq : ℚ) (pts : Int) (samples : Nat) : List ℚ :=
  (List.range samples).map fun i : Nat => ((pts + (i : Int) : Int) : ℚ) / freq

def sampleTimes (freq : ℚ) (frames : List AudioFrame) : List ℚ :=
  frames.flatMap fun f => sampleRun freq f.pts f.samples

@[simp] theorem length_sampleRun (freq : ℚ) (pts : Int) (samples : Nat) :
    (sampleRun freq pts samples).length = samples := by
  simp [sampleRun]

theorem sampleRun_drop (freq : ℚ) (pts : Int) (samples k : Nat) :
    (sampleRun freq pts samples).drop k = sampleRun freq (pts + k) (samples - k) := by
  refine List.ext_getElem (by simp) fun i h₁ h₂ => ?_
  simp only [sampleRun, List.getElem_drop, List.getElem_map, List.getElem_range]
  push_cast
  ring

theorem sampleRun_head {freq : ℚ} {pts : Int} {samples : Nat} (h : samples ≠ 0) :
    (sampleRun freq pts samples)[0]? = some (pts / freq) := by
  unfold sampleRun
  rw [List.getElem?_map, List.getElem?_range (by omega)]
  simp

theorem sampleTimes_append (freq : ℚ) (a b : List AudioFrame) :
    sampleTimes freq (a ++ b) = sampleTimes freq a ++ sampleTimes freq b :=
  List.flatMap_append

theorem sampleTimes_singleton (freq : ℚ) (f : AudioFrame) :
    sampleTimes freq [f] = sampleRun freq f.pts f.samples := by
  simp [sampleTimes]

/-! ## The direct codec -/

section
variable {F : Type}

theorem directCodec_outputs (st : (directCodec F).State) (fed : List (Option F)) :
    (directCodec F).outputs st fed = fed := by
  induction fed generalizing st with
  | nil => rfl
  | cons pkt fed ih =>
    cases pkt with
    | none => exact congrArg (none :: ·) (ih _)
    | some f => exact congrArg (some f :: ·) (ih _)

variable {p q : Pipe (directCodec F)} {fed : List (Option F)} {taken : List (Option F)}

/-- All that was fed is on its way. -/
theorem Pipe.Carries.conserved (h : p.Carries fed taken) :
    taken ++ p.frameQueue ++ p.pending ++ p.packetQueue = fed := by
  obtain ⟨consumed, hfed, -, hout⟩ := h
  rw [hout, directCodec_outputs, hfed]

/-- The bounds of the queues, and a decoder with at most one frame in hand. -/
structure Pipe.Fits (p : Pipe (directCodec F)) (room : Nat) : Prop where
  packetQueue : p.packetQueue.length ≤ packetRoom
  frameQueue : p.frameQueue.length ≤ room
  pending : p.pending.length ≤ 1
  alive : p.decoder ≠ .exited

theorem Pipe.Fits.write {room : Nat} {pkt : Option F} (h : p.Fits room)
    (hs : p.write pkt = some q) : q.Fits room := by
  unfold Pipe.write at hs
  split at hs
  · next hroom =>
    cases hs
    refine ⟨?_, h.frameQueue, h.pending, h.alive⟩
    rw [List.length_append]
    exact hroom
  · cases hs

theorem Pipe.Fits.takeFrame {room : Nat} {item : Option F} (h : p.Fits room)
    (hs : p.takeFrame = some (item, q)) : q.Fits room := by
  obtain ⟨packetQueue, decoder, codec, frameQueue⟩ := p
  unfold Pipe.takeFrame at hs
  split at hs
  · cases hs
  · next first rest hq =>
    obtain ⟨-, rfl⟩ := Prod.mk.inj (Option.some.inj hs)
    have hlen := h.frameQueue
    rw [hq, List.length_cons] at hlen
    exact ⟨h.packetQueue, Nat.le_of_succ_le hlen, h.pending, h.alive⟩

theorem Pipe.Fits.onFrame {room : Nat} {item : Option F} {next : DecoderPc F} (h : p.Fits room)
    (hs : p.onFrame room item next = some q) (hnext : next ≠ .exited)
    (hpending : q.pending.length ≤ 1) : q.Fits room := by
  unfold Pipe.onFrame at hs
  split at hs
  · next hroom =>
    cases hs
    refine ⟨h.packetQueue, ?_, hpending, hnext⟩
    rw [List.length_append]
    exact hroom
  · cases hs

theorem Pipe.Fits.decoderStep {room : Nat} (h : p.Fits room)
    (hs : p.decoderStep room true = some q) : q.Fits room := by
  obtain ⟨packetQueue, decoder, codec, frameQueue⟩ := p
  have hpending := h.pending
  cases decoder with
  | top =>
    obtain rfl := Option.some.inj hs
    exact ⟨h.packetQueue, h.frameQueue, Nat.zero_le 1, by simp⟩
  | reading =>
    cases packetQueue with
    | nil =>
      obtain rfl := Option.some.inj hs
      exact ⟨h.packetQueue, h.frameQueue, Nat.zero_le 1, by simp⟩
    | cons pkt rest =>
      obtain rfl := Option.some.inj hs
      refine ⟨Nat.le_of_succ_le h.packetQueue, h.frameQueue, ?_, by simp⟩
      cases pkt <;> exact Nat.le_refl 1
  | emitting eof frames =>
    cases frames with
    | nil =>
      cases eof with
      | false =>
        obtain rfl := Option.some.inj hs
        exact ⟨h.packetQueue, h.frameQueue, Nat.zero_le 1, by simp⟩
      | true =>
        refine h.onFrame hs (by simp) ?_
        simp only [Pipe.decoderStep, Pipe.onFrame] at hs
        split at hs <;> cases hs
        exact Nat.zero_le 1
    | cons f frames =>
      refine h.onFrame hs (by simp) ?_
      simp only [Pipe.decoderStep, Pipe.onFrame] at hs
      split at hs <;> cases hs
      simp only [Pipe.pending, List.map_cons, List.cons_append, List.length_cons] at hpending ⊢
      omega
  | flushing =>
    obtain rfl := Option.some.inj hs
    exact ⟨h.packetQueue, h.frameQueue, Nat.zero_le 1, by simp⟩
  | exited => cases hs

/-- A decoder that cannot move has one frame, and the frame queue is full. -/
theorem Pipe.Fits.jammed {room : Nat} (h : p.Fits room)
    (hs : p.decoderStep room true = none) : p.frameQueue.length = room ∧ p.pending.length = 1 := by
  obtain ⟨packetQueue, decoder, codec, frameQueue⟩ := p
  have hfull := h.frameQueue
  have hpending := h.pending
  cases decoder with
  | top => cases hs
  | reading => cases packetQueue <;> cases hs
  | emitting eof frames =>
    cases frames with
    | nil =>
      cases eof with
      | false => cases hs
      | true =>
        simp only [Pipe.decoderStep, Pipe.onFrame] at hs
        split at hs
        · cases hs
        · next hroom => exact ⟨by dsimp only at hfull hroom ⊢; omega, rfl⟩
    | cons f frames =>
      simp only [Pipe.decoderStep, Pipe.onFrame] at hs
      split at hs
      · cases hs
      · next hroom =>
        refine ⟨by dsimp only at hfull hroom ⊢; omega, ?_⟩
        simp only [Pipe.pending, List.map_cons, List.cons_append, List.length_cons] at hpending ⊢
        omega
  | flushing => cases hs
  | exited => exact absurd rfl h.alive

end

/-! ## The video display thread -/

/-- The frame that the display thread has in hand. -/
def VideoDisplay.frame? : VideoDisplay → Option VideoFrame
  | .calling f | .waiting f _ | .leaving f _ => some f
  | _ => none

/-- Video's clock starts with the first frame, at the first call for it. -/
structure VideoInv (cfg : PlaybackConfig) (frames : List VideoFrame) (display : VideoDisplay)
    (start : Pts) : Prop where
  held : ∀ f, display.frame? = some f → frames.getLast? = some f
  started : start = none ∧ (frames = [] ∨ ∃ f, display = .calling f ∧ frames = [f]) ∨
    ∃ first, frames.head? = some first ∧ start = some (first.time cfg.timeBase)

/-! ## The audio display thread -/

/-- The rest of the frame that is cut. -/
def AudioDisplay.left? : AudioDisplay → Option (Int × Nat)
  | .cutting pts avail | .starting pts avail | .filling pts avail => some (pts, avail)
  | _ => none

def AudioDisplay.left (freq : ℚ) (display : AudioDisplay) : List ℚ :=
  match display.left? with
  | some (pts, avail) => sampleRun freq pts avail
  | none => []

/-- A block is begun with the next sample. -/
def AudioDisplay.begun : AudioDisplay → Bool
  | .starting _ _ | .filling _ _ => true
  | _ => false

def AudioDisplay.fills : AudioDisplay → Bool
  | .filling _ _ => true
  | _ => false

/-- `n` samples of the frames are in blocks, `played` blocks are played. -/
structure AudioInv (cfg : PlaybackConfig) (frames : List AudioFrame) (n played : Nat)
    (s : Playback) : Prop where
  bound : n ≤ (sampleTimes cfg.freq frames).length
  rest : (sampleTimes cfg.freq frames).drop n = s.audioDisplay.left cfg.freq
  held : ∀ r, s.audioDisplay.left? = some r →
    ∃ before f, frames = before ++ [f] ∧ (sampleTimes cfg.freq before).length ≤ n
  busy : s.audioDisplay.begun = true → s.audioDisplay.left cfg.freq ≠ []
  written : s.writtenSamples = n % cfg.samples
  fresh : s.audioDisplay.begun = true → s.audioDisplay.fills = false → s.writtenSamples = 0
  header : s.writtenSamples ≠ 0 ∨ s.audioDisplay.begun = true →
    (sampleTimes cfg.freq frames)[n / cfg.samples * cfg.samples]? = some s.header
  count : played + s.blocks.length = n / cfg.samples
  blocks : ∀ i b, s.blocks[i]? = some b →
    (sampleTimes cfg.freq frames)[(played + i) * cfg.samples]? = some b
  clock : s.sync.audio.startPts = none ∧ n = 0 ∧ s.audioDisplay.fills = false ∨
    ∃ a c, s.sync.audio.startPts = some a ∧ s.sync.audio.currentPts = some c ∧
      (sampleTimes cfg.freq frames)[0]? = some a ∧
      (sampleTimes cfg.freq frames)[(played - 1) * cfg.samples]? = some c
  video : n ≠ 0 ∨ s.audioDisplay.fills = true → s.sync.video.startPts ≠ none

/-! ## The whole -/

def PlaybackReader.hand : PlaybackReader → List Item
  | .reading => []
  | .writing item => [item]

/-- The reader has written `delivered`; the display threads have taken these. -/
structure Playback.Inv (cfg : PlaybackConfig) (file : MediaFile) (delivered : List Item)
    (videoTaken : List (Option VideoFrame)) (audioTaken : List (Option AudioFrame))
    (s : Playback) : Prop where
  items : file.items = delivered ++ s.reader.hand ++ s.rest
  videoPipe : s.video.Carries (delivered.filterMap Item.video?) videoTaken
  audioPipe : s.audio.Carries (delivered.filterMap Item.audio?) audioTaken
  videoFits : s.video.Fits videoRoom
  audioFits : s.audio.Fits audioRoom
  videoEnabled : s.sync.video.isDisabled = false
  audioEnabled : s.sync.audio.isDisabled = false
  video : VideoInv cfg videoTaken.reduceOption s.videoDisplay s.sync.video.startPts
  audio : none ∈ audioTaken ∧ s.audioDisplay.left? = none ∨
    none ∉ audioTaken ∧ s.audioDisplay ≠ .ending ∧ s.sync.type = .audio ∧
      ∃ n played, AudioInv cfg audioTaken.reduceOption n played s
  /-- Behind NULL comes the acknowledgement. -/
  videoEnds : none ∈ videoTaken → s.videoDisplay = .ending ∨ s.videoEof = true
  audioEnds : none ∈ audioTaken →
    s.audioDisplay = .ending ∨ s.audioEof = true ∧ s.sync.type = .absolute
  sounded : none ∈ audioTaken → sampleTimes cfg.freq audioTaken.reduceOption ≠ [] →
    s.sync.audio.startPts ≠ none
  /-- Each call on the clocks starts this one. -/
  absolute : s.sync.audio.startPts ≠ none → s.sync.absolute.startPts ≠ none

end VideoPlayerCore
