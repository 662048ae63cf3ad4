import VideoPlayerCore.AudioBlocks
import VideoPlayerCore.ClockOrigin
import VideoPlayerCore.Pipe

/-!
# `Audio::_displayThread`

The thread takes frames from `_frameQueue`, converts them where needed and cuts them into
blocks; at an EOF marker it waits until the blocks are played and resets the ring.  Beside it
run the decoder's callback, `Audio::_audioCallback`, `Audio::close`, and whoever else
uses the clocks.

`inputs` are the frames that the thread has taken, with the answers of the library for each;
`headers` are the headers that it has stored.
-/

namespace VideoPlayerCore

open Machine Windows

variable {W : Nat}

/-- A frame behind `_frameQueue.read`. -/
structure Dequeued where
  id : Nat
  frame : AVFrame

/-- Where `Audio::_displayThread` stands. -/
inductive DisplayPc
  /-- `while (_isAlive)` -/
  | top
  | reading
  /-- behind `if (!frame)` -/
  | flushing
  /-- `while (available_read())` -/
  | polling
  /-- the three stores of `reset()` -/
  | resetWrite
  | resetRead
  | clearing
  /-- before the test of the format -/
  | converting (d : Dequeued)
  /-- `while (avail)` -/
  | cutting (d : Dequeued) (rest : Rest)
  /-- before a call of `calAudioDelay` -/
  | starting (d : Dequeued) (rest : Rest)
  /-- before the `memcpy` -/
  | filling (d : Dequeued) (rest : Rest)
  | endLoop (d : Dequeued)
  /-- behind the loop -/
  | leaving
  | exited

/-- The frame that is cut, and the rest of it. -/
def DisplayPc.job : DisplayPc → Option (Dequeued × Rest)
  | .cutting d rest | .starting d rest | .filling d rest => some (d, rest)
  | _ => none

/-- The frame of the pass that the thread is in. -/
def DisplayPc.held : DisplayPc → List Nat
  | .converting d | .cutting d _ | .starting d _ | .filling d _ | .endLoop d => [d.id]
  | _ => []

/-- Where `Audio::_audioCallback` stands with the channel. -/
inductive CallbackPc (W : Nat)
  | idle
  /-- in `begin_read`, with `read_pos_` loaded -/
  | loaded (r : BitVec W)
  | mixing (slot : Nat)
  /-- in `end_read`, with `read_pos_` loaded -/
  | ending (r : BitVec W)
  deriving DecidableEq

/-- Where `Audio::close` stands. -/
inductive AudioClosePc
  | playing
  /-- behind `_decoder.close()` -/
  | decoderClosed
  /-- `_wg.Wait()` -/
  | waiting
  /-- `while (_frameQueue.read(&frame, 1))` -/
  | draining
  | closed
  deriving DecidableEq

/-- `_wg.Wait()` has returned. -/
def AudioClosePc.waited : AudioClosePc → Bool
  | .playing | .decoderClosed | .waiting => false
  | .draining | .closed => true

/-- The first sample of a block, as number `index` of a frame, and the header of the block. -/
structure BlockHeader where
  frame : AVFrame
  index : Nat
  value : ℚ

structure AudioThread (W : Nat) where
  blocks : BlockWriter W
  sync : ClockSync
  volume : Int
  /-- `_channel->volume` -/
  channelVolume : Int
  frameQueue : List (Option AVFrame) := []
  isAlive : Bool := true
  closing : AudioClosePc := .playing
  callback : CallbackPc W := .idle
  pc : DisplayPc := .top
  resampler : Resampler := {}
  inputs : List (AVFrame × SwrAnswers) := []
  headers : List BlockHeader := []

inductive AudioThreadAct
  /-- a step of `_displayThread` -/
  | display (now : ℚ) (answers : SwrAnswers)
  /-- a step of `_audioCallback` -/
  | callback (now : ℚ)
  /-- a step of `close` -/
  | close
  /-- The decoder has a frame, or NULL at the end of the stream. -/
  | decoder (frame : Option AVFrame)
  | setVolume (value : Int)
  /-- a call by the video thread -/
  | clock (call : ClockCall)
  /-- The reader starts again. -/
  | restart

/-- The channel's ring, as `std::make_shared<Channel>(8 * _frameAlignBytes)` leaves it. -/
def AudioSetup.channel (A : AudioSetup W) (memory : Nat → UInt8) : AudioRingBuffer W UInt8 :=
  { writePos := 0, readPos := 0, cap := A.capacity, buf := memory }

theorem AudioSetup.channel_constructed (A : AudioSetup W) (memory : Nat → UInt8) :
    DynamicAudioRingBuffer A.capacity.val (some memory) = .ok (A.channel memory) :=
  DynamicAudioRingBuffer_pow2 A.capacity memory

/-- Frames that the thread has taken went through the conversion path. -/
def Converted (A : AudioSetup W) (inputs : List (AVFrame × SwrAnswers)) : Prop :=
  ∀ x ∈ inputs, A.isDirect x.1 = false

instance (A : AudioSetup W) (inputs : List (AVFrame × SwrAnswers)) :
    Decidable (Converted A inputs) :=
  inferInstanceAs (Decidable (∀ x ∈ inputs, A.isDirect x.1 = false))

theorem converted_concat {A : AudioSetup W} {inputs : List (AVFrame × SwrAnswers)}
    {x : AVFrame × SwrAnswers} :
    Converted A (inputs ++ [x]) ↔ Converted A inputs ∧ A.isDirect x.1 = false := by
  unfold Converted
  rw [List.forall_mem_append, List.forall_mem_singleton]

namespace AudioThread

variable (A : AudioSetup W) (s : AudioThread W)

def start (memory : Nat → UInt8) (sync : ClockSync) (volume channelVolume : Int) : AudioThread W :=
  { blocks := { ring := A.channel memory }, sync := sync, volume := volume
    channelVolume := channelVolume }

/-- `_frameQueue.read` -/
def takeFrame : AudioThread W :=
  match s.frameQueue with
  | [] => { s with pc := .top }
  | none :: queue => { s with pc := .flushing, frameQueue := queue }
  | some f :: queue =>
    { s with
      pc := .converting { id := s.resampler.nextId, frame := f }
      frameQueue := queue
      resampler := s.resampler.obtain }

/-- `bps`, `avail`, `data` and `pts` of the frame that is cut. -/
def restOf (o : OutFrame) : Rest :=
  let bps := A.bytesPerSample o.format * o.channels
  { owner := o.id
    bps := bps
    data := read o.data 0 (o.nbSamples.toNat * bps)
    pts := o.pts
    avail := o.nbSamples.toNat }

/-- From the test of the format up to the block loop. -/
def prepare (d : Dequeued) (e : SwrAnswers) : AudioThread W :=
  let (r, out) := s.resampler.prepare A d.frame d.id e
  let s := { s with resampler := r, inputs := s.inputs ++ [(d.frame, e)] }
  match out with
  | none => { s with pc := .endLoop d }
  | some o =>
    let rest := restOf A o
    { s with
      pc := .cutting d rest
      channelVolume := s.volume
      resampler := r.log [.use o.id]
      blocks := s.blocks.accept rest.data }

/-- The top of the body of `while (avail)`; without room in the ring it sleeps. -/
def cut (d : Dequeued) (rest : Rest) : AudioThread W :=
  if rest.avail = 0 then { s with pc := .endLoop d }
  else if s.blocks.writtenSamples = 0 then
    let header : ℚ := rest.pts / A.freq
    match s.blocks.beginWrite A header with
    | none => s
    | some b =>
      { s with
        pc := .starting d rest
        blocks := b
        headers := s.headers ++ [{ frame := d.frame, index := rest.done, value := header }] }
  else { s with pc := .filling d rest }

/-- A pass of `while ((delay = calAudioDelay(..)) > 0 && _isAlive)` -/
def delay (d : Dequeued) (rest : Rest) (now : ℚ) : AudioThread W :=
  let header := A.ofDoubleBytes (read s.blocks.ring.buf s.blocks.buf 8)
  let (sync, delay) := s.sync.calAudioDelay now header (some 0)
  { s with
    sync := sync
    pc := if delay.pos && s.isAlive then .starting d rest else .filling d rest }

/-- The `memcpy` and the rest of the body. -/
def fill (d : Dequeued) (rest : Rest) : AudioThread W :=
  { s with
    pc := .cutting d (rest.advance (s.blocks.fillOf A rest))
    blocks := s.blocks.fill A rest
    resampler := s.resampler.log [.use rest.owner] }

def display (now : ℚ) (e : SwrAnswers) : Option (AudioThread W) :=
  match s.pc with
  | .top => some { s with pc := if s.isAlive then .reading else .leaving }
  | .reading => some s.takeFrame
  | .flushing => some { s with pc := .polling, blocks := s.blocks.flush A }
  | .polling =>
    some { s with pc := if s.blocks.ring.availableRead = 0 then .resetWrite else .polling }
  | .resetWrite => some { s with pc := .resetRead, blocks := s.blocks.resetWrite }
  | .resetRead => some { s with pc := .clearing, blocks := s.blocks.resetRead }
  -- behind the `memset` comes `_onEof()`
  | .clearing =>
    some { s with pc := .top, blocks := s.blocks.clear, sync := { s.sync with type := .absolute } }
  | .converting d => some (s.prepare A d e)
  | .cutting d rest => some (s.cut A d rest)
  | .starting d rest => some (s.delay A d rest now)
  | .filling d rest => some (s.fill A d rest)
  | .endLoop d => some { s with pc := .top, resampler := s.resampler.release d.id }
  | .leaving => some { s with pc := .exited, resampler := s.resampler.free }
  | .exited => none

def setRing (ring : AudioRingBuffer W UInt8) : AudioThread W :=
  { s with blocks := { s.blocks with ring := ring } }

def audioCallback (now : ℚ) : AudioThread W :=
  let ring := s.blocks.ring
  match s.callback with
  | .idle => { s with callback := .loaded ring.readPos }
  | .loaded r =>
    match ring.beginRead r ring.writePos A.frameAlignBytes with
    | none => { s with callback := .idle }
    | some slot => { s with callback := .mixing slot }
  | .mixing slot =>
    let pts := A.ofDoubleBytes (read ring.buf slot 8)
    { s with callback := .ending ring.readPos, sync := s.sync.updateAudioPts now pts }
  | .ending r =>
    { s.setRing (ring.setRead (ring.endRead r A.frameAlignBytes)) with callback := .idle }

def close : Option (AudioThread W) :=
  match s.closing with
  | .playing => some { s with closing := .decoderClosed }
  | .decoderClosed => some { s with closing := .waiting, isAlive := false }
  | .waiting =>
    match s.pc with
    | .exited => some { s with closing := .draining }
    | _ => none
  | .draining =>
    match s.frameQueue with
    | [] => some { s with closing := .closed }
    | none :: queue => some { s with frameQueue := queue }
    | some _ :: queue =>
      some { s with
        frameQueue := queue
        resampler := s.resampler.obtain.log [.free s.resampler.nextId] }
  | .closed => none

/-- `_frameQueue.write` from the decoder's callback -/
def decoder (frame : Option AVFrame) : Option (AudioThread W) :=
  if s.closing = .playing ∧ s.frameQueue.length < audioRoom then
    some { s with frameQueue := s.frameQueue ++ [frame] }
  else none

def step : AudioThreadAct → Option (AudioThread W)
  | .display now e => s.display A now e
  | .callback now => some (s.audioCallback A now)
  | .close => s.close
  | .decoder frame => s.decoder frame
  | .setVolume value => some { s with volume := value }
  | .clock call => some { s with sync := call.apply s.sync }
  | .restart => some { s with sync := { s.sync.reset with type := .audio } }

/-! ## What a step does

The steps that leave the thread's own things alone are one case (`aside`). -/

/-- Where `_audioCallback` gets to without a store. -/
inductive CallbackTo : CallbackPc W → Prop
  | keep : CallbackTo s.callback
  | load : s.callback = .idle → CallbackTo (.loaded s.blocks.ring.readPos)
  | refuse (r : BitVec W) : s.callback = .loaded r → CallbackTo .idle
  | grant (r : BitVec W) (slot : Nat) :
      s.callback = .loaded r →
      s.blocks.ring.beginRead r s.blocks.ring.writePos A.frameAlignBytes = some slot →
      CallbackTo (.mixing slot)
  | mix (slot : Nat) : s.callback = .mixing slot → CallbackTo (.ending s.blocks.ring.readPos)

/-- The state before and behind a step. -/
inductive Moves : AudioThread W → Prop
  | aside (sync : ClockSync) (volume : Int) (queue : List (Option AVFrame)) (isAlive : Bool)
      (closing : AudioClosePc) (callback : CallbackPc W) :
      (closing.waited = true → s.closing.waited = true ∨ s.pc = .exited) →
      s.CallbackTo A callback →
      Moves { s with
        sync := sync, volume := volume, frameQueue := queue, isAlive := isAlive
        closing := closing, callback := callback }
  | consume (r : BitVec W) :
      s.callback = .ending r →
      Moves { s.setRing (s.blocks.ring.setRead (s.blocks.ring.endRead r A.frameAlignBytes)) with
        callback := .idle }
  | drain (queue : List (Option AVFrame)) :
      s.closing = .draining →
      Moves { s with
        frameQueue := queue
        resampler := s.resampler.obtain.log [.free s.resampler.nextId] }
  | begin : s.pc = .top → s.isAlive = true → Moves { s with pc := .reading }
  | leave : s.pc = .top → s.isAlive = false → Moves { s with pc := .leaving }
  | idle : s.pc = .reading → Moves { s with pc := .top }
  | marker (queue : List (Option AVFrame)) :
      s.pc = .reading → s.frameQueue = none :: queue →
      Moves { s with pc := .flushing, frameQueue := queue }
  | take (f : AVFrame) (queue : List (Option AVFrame)) :
      s.pc = .reading → s.frameQueue = some f :: queue →
      Moves { s with
        pc := .converting { id := s.resampler.nextId, frame := f }
        frameQueue := queue
        resampler := s.resampler.obtain }
  | flush : s.pc = .flushing → Moves { s with pc := .polling, blocks := s.blocks.flush A }
  | poll : s.pc = .polling → Moves s
  | drained : s.pc = .polling → Moves { s with pc := .resetWrite }
  | resetWrite : s.pc = .resetWrite →
      Moves { s with pc := .resetRead, blocks := s.blocks.resetWrite }
  | resetRead : s.pc = .resetRead →
      Moves { s with pc := .clearing, blocks := s.blocks.resetRead }
  | clear (sync : ClockSync) : s.pc = .clearing →
      Moves { s with pc := .top, blocks := s.blocks.clear, sync := sync }
  | skip (d : Dequeued) (e : SwrAnswers) (r : Resampler) :
      s.pc = .converting d → s.resampler.prepare A d.frame d.id e = (r, none) →
      Moves { s with pc := .endLoop d, resampler := r, inputs := s.inputs ++ [(d.frame, e)] }
  | prepare (d : Dequeued) (e : SwrAnswers) (r : Resampler) (o : OutFrame) :
      s.pc = .converting d → s.resampler.prepare A d.frame d.id e = (r, some o) →
      Moves { s with
        pc := .cutting d (restOf A o)
        channelVolume := s.volume
        resampler := r.log [.use o.id]
        blocks := s.blocks.accept (restOf A o).data
        inputs := s.inputs ++ [(d.frame, e)] }
  | done (d : Dequeued) (rest : Rest) :
      s.pc = .cutting d rest → rest.avail = 0 → Moves { s with pc := .endLoop d }
  | sleep (d : Dequeued) (rest : Rest) :
      s.pc = .cutting d rest → Moves s
  | beginWrite (d : Dequeued) (rest : Rest) (b : BlockWriter W) :
      s.pc = .cutting d rest → rest.avail ≠ 0 → s.blocks.writtenSamples = 0 →
      s.blocks.beginWrite A (rest.pts / A.freq) = some b →
      Moves { s with
        pc := .starting d rest
        blocks := b
        headers := s.headers ++
          [{ frame := d.frame, index := rest.done, value := rest.pts / A.freq }] }
  | resume (d : Dequeued) (rest : Rest) :
      s.pc = .cutting d rest → rest.avail ≠ 0 → s.blocks.writtenSamples ≠ 0 →
      Moves { s with pc := .filling d rest }
  | wait (d : Dequeued) (rest : Rest) (sync : ClockSync) :
      s.pc = .starting d rest → Moves { s with sync := sync, pc := .starting d rest }
  | play (d : Dequeued) (rest : Rest) (sync : ClockSync) :
      s.pc = .starting d rest → Moves { s with sync := sync, pc := .filling d rest }
  | fill (d : Dequeued) (rest : Rest) :
      s.pc = .filling d rest → Moves (s.fill A d rest)
  | endLoop (d : Dequeued) :
      s.pc = .endLoop d →
      Moves { s with pc := .top, resampler := s.resampler.release d.id }
  | exit :
      s.pc = .leaving → Moves { s with pc := .exited, resampler := s.resampler.free }

variable {A s} {t : AudioThread W}

theorem display_moves {now : ℚ} {e : SwrAnswers} (h : s.display A now e = some t) :
    s.Moves A t := by
  unfold display at h
  split at h
  · next hpc =>
    obtain rfl := Option.some.inj h
    by_cases halive : s.isAlive = true
    · rw [if_pos halive]
      exact .begin hpc halive
    · rw [if_neg halive]
      exact .leave hpc (Bool.eq_false_iff.mpr halive)
  · next hpc =>
    obtain rfl := Option.some.inj h
    unfold takeFrame
    split
    · exact .idle hpc
    · next queue hqueue => exact .marker queue hpc hqueue
    · next f queue hqueue => exact .take f queue hpc hqueue
  · next hpc =>
    obtain rfl := Option.some.inj h
    exact .flush hpc
  · next hpc =>
    obtain rfl := Option.some.inj h
    by_cases hempty : s.blocks.ring.availableRead = 0
    · rw [if_pos hempty]
      exact .drained hpc
    · rw [if_neg hempty, ← hpc]
      exact .poll hpc
  · next hpc =>
    obtain rfl := Option.some.inj h
    exact .resetWrite hpc
  · next hpc =>
    obtain rfl := Option.some.inj h
    exact .resetRead hpc
  · next hpc =>
    obtain rfl := Option.some.inj h
    exact .clear _ hpc
  · next d hpc =>
    obtain rfl := Option.some.inj h
    unfold AudioThread.prepare
    cases hprepare : s.resampler.prepare A d.frame d.id e with
    | mk r out =>
      cases out with
      | none => exact .skip d e r hpc hprepare
      | some o => exact .prepare d e r o hpc hprepare
  · next d rest hpc =>
    obtain rfl := Option.some.inj h
    unfold cut
    by_cases havail : rest.avail = 0
    · rw [if_pos havail]
      exact .done d rest hpc havail
    · rw [if_neg havail]
      by_cases hwritten : s.blocks.writtenSamples = 0
      · rw [if_pos hwritten]
        dsimp only
        split
        · exact .sleep d rest hpc
        · next b hbegin => exact .beginWrite d rest b hpc havail hwritten hbegin
      · rw [if_neg hwritten]
        exact .resume d rest hpc havail hwritten
  · next d rest hpc =>
    obtain rfl := Option.some.inj h
    unfold delay
    dsimp only
    split
    · exact .wait d rest _ hpc
    · exact .play d rest _ hpc
  · next d rest hpc =>
    obtain rfl := Option.some.inj h
    exact .fill d rest hpc
  · next d hpc =>
    obtain rfl := Option.some.inj h
    exact .endLoop d hpc
  · next hpc =>
    obtain rfl := Option.some.inj h
    exact .exit hpc
  · cases h

theorem audioCallback_moves (now : ℚ) : s.Moves A (s.audioCallback A now) := by
  unfold audioCallback
  dsimp only
  split
  · next hidle => exact .aside s.sync s.volume s.frameQueue s.isAlive s.closing _ .inl (.load hidle)
  · next r hloaded =>
    split
    · exact .aside s.sync s.volume s.frameQueue s.isAlive s.closing _ .inl (.refuse r hloaded)
    · next slot hread =>
      exact .aside s.sync s.volume s.frameQueue s.isAlive s.closing _ .inl
        (.grant r slot hloaded hread)
  · next slot hmixing =>
    exact .aside _ s.volume s.frameQueue s.isAlive s.closing _ .inl (.mix slot hmixing)
  · next r hending => exact .consume r hending

theorem close_moves (h : s.close = some t) : s.Moves A t := by
  unfold close at h
  split at h
  · obtain rfl := Option.some.inj h
    exact .aside s.sync s.volume s.frameQueue s.isAlive _ s.callback nofun .keep
  · obtain rfl := Option.some.inj h
    exact .aside s.sync s.volume s.frameQueue _ _ s.callback nofun .keep
  · split at h
    · next hexited =>
      obtain rfl := Option.some.inj h
      exact .aside s.sync s.volume s.frameQueue s.isAlive _ s.callback (fun _ => .inr hexited)
        .keep
    · cases h
  · next hdraining =>
    have hwaited : s.closing.waited = true := by rw [hdraining]; rfl
    split at h
    · obtain rfl := Option.some.inj h
      exact .aside s.sync s.volume s.frameQueue s.isAlive _ s.callback (fun _ => .inl hwaited)
        .keep
    · next queue _ =>
      obtain rfl := Option.some.inj h
      exact .aside s.sync s.volume queue s.isAlive s.closing s.callback .inl .keep
    · next queue _ =>
      obtain rfl := Option.some.inj h
      exact .drain queue hdraining
  · cases h

theorem step_moves {a : AudioThreadAct} (h : s.step A a = some t) : s.Moves A t := by
  cases a with
  | display now e => exact display_moves h
  | callback now =>
    obtain rfl := Option.some.inj h
    exact audioCallback_moves now
  | close => exact close_moves h
  | decoder frame =>
    simp only [step, decoder] at h
    split at h
    · obtain rfl := Option.some.inj h
      exact .aside s.sync s.volume _ s.isAlive s.closing s.callback .inl .keep
    · cases h
  | setVolume value =>
    obtain rfl := Option.some.inj h
    exact .aside s.sync value s.frameQueue s.isAlive s.closing s.callback .inl .keep
  | clock call =>
    obtain rfl := Option.some.inj h
    exact .aside _ s.volume s.frameQueue s.isAlive s.closing s.callback .inl .keep
  | restart =>
    obtain rfl := Option.some.inj h
    exact .aside _ s.volume s.frameQueue s.isAlive s.closing s.callback .inl .keep

theorem audioCallback_beside (now : ℚ) :
    (s.audioCallback A now).pc = s.pc ∧ (s.audioCallback A now).headers = s.headers ∧
      (s.audioCallback A now).inputs = s.inputs ∧
      (s.audioCallback A now).frameQueue = s.frameQueue := by
  unfold audioCallback
  dsimp only
  split
  · exact ⟨rfl, rfl, rfl, rfl⟩
  · split
    · exact ⟨rfl, rfl, rfl, rfl⟩
    · exact ⟨rfl, rfl, rfl, rfl⟩
  · exact ⟨rfl, rfl, rfl, rfl⟩
  · exact ⟨rfl, rfl, rfl, rfl⟩

theorem close_beside (h : s.close = some t) :
    t.pc = s.pc ∧ t.headers = s.headers ∧ t.inputs = s.inputs ∧
      t.frameQueue ⊆ s.frameQueue := by
  unfold close at h
  split at h
  case h_3 =>
    split at h
    · obtain rfl := Option.some.inj h
      exact ⟨rfl, rfl, rfl, fun _ hx => hx⟩
    · cases h
  case h_4 =>
    split at h
    · obtain rfl := Option.some.inj h
      exact ⟨rfl, rfl, rfl, fun _ hx => hx⟩
    · next queue hqueue =>
      obtain rfl := Option.some.inj h
      rw [hqueue]
      exact ⟨rfl, rfl, rfl, List.subset_cons_self _ _⟩
    · next queue hqueue =>
      obtain rfl := Option.some.inj h
      rw [hqueue]
      exact ⟨rfl, rfl, rfl, List.subset_cons_self _ _⟩
  case h_5 => cases h
  all_goals
    obtain rfl := Option.some.inj h
    exact ⟨rfl, rfl, rfl, fun _ hx => hx⟩

/-- The others neither move the thread nor store headers, nor do they take frames. -/
theorem step_beside {a : AudioThreadAct} (hs : s.step A a = some t)
    (hother : ∀ now e, a ≠ .display now e) :
    t.pc = s.pc ∧ t.headers = s.headers ∧ t.inputs = s.inputs := by
  cases a with
  | display now e => exact absurd rfl (hother now e)
  | callback now =>
    obtain rfl := Option.some.inj hs
    obtain ⟨hpc, hheaders, hinputs, -⟩ := audioCallback_beside (A := A) (s := s) now
    exact ⟨hpc, hheaders, hinputs⟩
  | close =>
    obtain ⟨hpc, hheaders, hinputs, -⟩ := close_beside hs
    exact ⟨hpc, hheaders, hinputs⟩
  | decoder frame =>
    simp only [step, decoder] at hs
    split at hs
    · obtain rfl := Option.some.inj hs
      exact ⟨rfl, rfl, rfl⟩
    · cases hs
  | setVolume value =>
    obtain rfl := Option.some.inj hs
    exact ⟨rfl, rfl, rfl⟩
  | clock call =>
    obtain rfl := Option.some.inj hs
    exact ⟨rfl, rfl, rfl⟩
  | restart =>
    obtain rfl := Option.some.inj hs
    exact ⟨rfl, rfl, rfl⟩

theorem Moves.inputs_grow (h : s.Moves A t) : s.inputs <+: t.inputs := by
  cases h with
  | skip | prepare => exact List.prefix_append _ _
  | _ => exact List.prefix_rfl

end AudioThread

/-! ## Runs of one frame -/

/-- Clocks without a video stream. -/
def audioOnly : ClockSync := { type := .audio, video := { isDisabled := true } }

/-- A frame with two channels. -/
def stereoFrame (format : AVSampleFormat) (sampleRate nbSamples : Nat) (pts : Int) : AVFrame :=
  { format := format, sampleRate := sampleRate, channels := 2, nbSamples := nbSamples, pts := pts
    data := fun _ => 1 }

/-- What `av_frame_free` leaves. -/
def emptyFrame : OutFrame :=
  { id := 0, format := .u8, channels := 0, nbSamples := 0, capacity := 0, pts := noPts
    data := fun _ => 0 }

/-- The library does what it is asked and gives `converted` samples. -/
def goodAnswers (converted : Int) (data : Nat → UInt8) : SwrAnswers :=
  { alloc := true, init := true, frame := true, buffer := true, converted := converted
    data := data, stale := emptyFrame }

/-- `n` steps of `_displayThread` with the same answers. -/
def displaySteps (n : Nat) (e : SwrAnswers) : List AudioThreadAct :=
  List.replicate n (.display 0 e)

end VideoPlayerCore
