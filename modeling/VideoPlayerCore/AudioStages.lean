import VideoPlayerCore.AudioConvert

/-!
# The blocks along a run

Between its resets `Audio::_displayThread` keeps the law of the stream (`BlockWriter.Inv`),
whatever the callback and the clocks do meanwhile, as long as it converts into no frame that
was freed:

    Reach → OutAlive → Stage of the place where the thread stands         (stage_of_reach)
-/

namespace VideoPlayerCore

open BlockWriter Machine Windows

variable {W : Nat} {A : AudioSetup W}

namespace BlockWriter

/-- Behind `flush`, until `reset()` is through. -/
structure Emptied (A : AudioSetup W) (b : BlockWriter W) : Prop where
  cap : b.ring.cap = A.capacity
  samples : b.samples = []
  payloads : b.payloads = []
  written : b.writtenSamples = 0

end BlockWriter

/-- What holds of the blocks where the thread stands. -/
def Stage (A : AudioSetup W) (b : BlockWriter W) : DisplayPc → Prop
  | .polling | .resetWrite => Emptied A b
  | .resetRead | .clearing => Emptied A b ∧ b.ring.writePos = 0
  | .cutting _ rest => Inv A b rest.data ∧ rest.Fits A
  | .starting _ rest =>
    (Inv A b rest.data ∧ rest.Fits A) ∧ b.buf = b.ring.writePos.toNat ∧ rest.avail ≠ 0 ∧
      b.writtenSamples = 0
  | .filling _ rest =>
    (Inv A b rest.data ∧ rest.Fits A) ∧ b.buf = b.ring.writePos.toNat ∧ rest.avail ≠ 0
  | .top | .reading | .flushing | .converting _ | .endLoop _ | .leaving | .exited => Inv A b []

namespace BlockWriter

variable {b : BlockWriter W} {bytes : List UInt8}

/-- The callback's store of `read_pos_`. -/
def consume (b : BlockWriter W) (r : BitVec W) : BlockWriter W :=
  { b with ring := b.ring.setRead r }

theorem Inv.consume (h : Inv A b bytes) (r : BitVec W) : Inv A (b.consume r) bytes :=
  ⟨⟨h.cap, h.writePos, h.cut, h.buf, h.stream⟩, h.written_lt⟩

theorem Emptied.consume (h : Emptied A b) (r : BitVec W) : Emptied A (b.consume r) :=
  ⟨h.cap, h.samples, h.payloads, h.written⟩

theorem Stage.consume {pc : DisplayPc} (h : Stage A b pc) (r : BitVec W) :
    Stage A (b.consume r) pc := by
  cases pc with
  | polling | resetWrite => exact Emptied.consume h r
  | resetRead | clearing => exact ⟨Emptied.consume h.1 r, h.2⟩
  | cutting d rest => exact ⟨Inv.consume h.1 r, h.2⟩
  | starting d rest => exact ⟨⟨Inv.consume h.1.1 r, h.1.2⟩, h.2⟩
  | filling d rest => exact ⟨⟨Inv.consume h.1.1 r, h.1.2⟩, h.2⟩
  | top | reading | flushing | converting | endLoop | leaving | exited => exact Inv.consume h r

theorem Inv.flush (h : Inv A b bytes) : Emptied A (b.flush A) := by
  unfold BlockWriter.flush
  dsimp only
  by_cases hnone : b.writtenSamples = 0
  · rw [if_pos hnone]
    exact ⟨h.cap, rfl, rfl, hnone⟩
  · rw [if_neg hnone]
    exact ⟨h.cap, rfl, rfl, rfl⟩

theorem Emptied.clear (h : Emptied A b) (hpos : b.ring.writePos = 0) : Inv A b.clear [] := by
  obtain ⟨hcap, hsamples, hpayloads, hwritten⟩ := h
  have hlt : b.clear.writtenSamples < A.samples := by
    show b.writtenSamples < A.samples
    rw [hwritten]
    exact A.samples_pos
  refine ⟨⟨hcap, ?_, ?_, fun hne => absurd hwritten hne, ?_⟩, hlt⟩
  · show b.ring.writePos.toNat = A.slot b.payloads.length
    rw [hpos, hpayloads]
    simp [AudioSetup.slot]
  · show Chunks.Cut A.frameBytes b.payloads
    rw [hpayloads]
    exact fun _ hx => absurd hx List.not_mem_nil
  · show b.payloads.flatten ++ read _ _ (b.writtenSamples * A.bps) ++ [] = b.samples
    rw [hpayloads, hwritten, hsamples, Nat.zero_mul, read_zero]
    rfl

theorem inv_start (A : AudioSetup W) (memory : Nat → UInt8) :
    Inv A { ring := A.channel memory } [] := by
  refine ⟨⟨rfl, ?_, nofun, fun hne => absurd rfl hne, ?_⟩, A.samples_pos⟩
  · simp [AudioSetup.channel, AudioSetup.slot]
  · show [].flatten ++ read _ _ (0 * A.bps) ++ [] = []
    rw [Nat.zero_mul, read_zero]
    rfl

end BlockWriter

theorem Resampler.prepare_some {r r' : Resampler} {f : AVFrame} {id : Nat} {e : SwrAnswers}
    {o : OutFrame} (hs : r.prepare A f id e = (r', some o)) : r'.out = some o := by
  cases hf : A.isDirect f with
  | true =>
    rw [prepare_direct hf] at hs
    cases hs
    rfl
  | false =>
    rw [prepare_converted hf] at hs
    exact (resample_some hs).1

namespace AudioThread

variable {s t : AudioThread W}

theorem restOf_fits {o : OutFrame} (h : o.format = A.forceFormat.av ∧ o.channels = A.channels) :
    (restOf A o).Fits A := by
  have hbps : (restOf A o).bps = A.bps := by
    show A.bytesPerSample o.format * o.channels = A.bps
    rw [h.1, h.2]
    rfl
  refine ⟨hbps, ?_⟩
  rw [← hbps]
  exact length_read

/-- The frame that goes into the block loop is of the device's format. -/
theorem Converting.fits {d : Dequeued} {e : SwrAnswers} {r : Resampler} {o : OutFrame}
    (h : Converting A s) (hpc : s.pc = .converting d)
    (hs : s.resampler.prepare A d.frame d.id e = (r, some o))
    (halive : OutAlive A (s.inputs ++ [(d.frame, e)])) : (restOf A o).Fits A := by
  have hout := (h.input hpc hs).1.out
  rw [Resampler.prepare_some hs] at hout
  exact restOf_fits (hout.device halive o rfl)

theorem Stage.step (hconv : Converting A s) (halive : OutAlive A t.inputs)
    (h : Stage A s.blocks s.pc) (hs : s.Moves A t) : Stage A t.blocks t.pc := by
  cases hs with
  | aside | drain | poll | sleep => exact h
  | consume r => exact BlockWriter.Stage.consume h _
  | begin hpc | leave hpc | idle hpc | marker _ hpc | take _ _ hpc | skip _ _ _ hpc
  | endLoop _ hpc | exit hpc | drained hpc =>
    rw [hpc] at h
    exact h
  | flush hpc =>
    rw [hpc] at h
    exact Inv.flush h
  | resetWrite hpc =>
    rw [hpc] at h
    exact ⟨⟨h.cap, h.samples, h.payloads, h.written⟩, rfl⟩
  | resetRead hpc =>
    rw [hpc] at h
    exact ⟨h.1.consume 0, h.2⟩
  | clear _ hpc =>
    rw [hpc] at h
    exact h.1.clear h.2
  | prepare d e r o hpc hprepare =>
    have hfits := hconv.fits hpc hprepare halive
    rw [hpc] at h
    have hinv : Inv A s.blocks [] := h
    exact ⟨⟨hinv.toStream.accept, hinv.written_lt⟩, hfits⟩
  | done d rest hpc havail =>
    rw [hpc] at h
    have hnil : rest.data = [] := by
      rw [← List.length_eq_zero_iff, h.2.length, havail, Nat.zero_mul]
    have hinv := h.1
    rw [hnil] at hinv
    exact hinv
  | beginWrite d rest b hpc havail hwritten hbegin =>
    rw [hpc] at h
    obtain ⟨hstream, hbuf, hnone⟩ := h.1.toStream.beginWrite hwritten hbegin
    refine ⟨⟨⟨hstream, ?_⟩, h.2⟩, hbuf, havail, hnone⟩
    rw [hnone]
    exact A.samples_pos
  | resume d rest hpc havail hwritten =>
    rw [hpc] at h
    exact ⟨h, h.1.buf hwritten, havail⟩
  | wait d rest _ hpc =>
    rw [hpc] at h
    exact h
  | play d rest _ hpc =>
    rw [hpc] at h
    exact ⟨h.1, h.2.1, h.2.2.1⟩
  | fill d rest hpc =>
    rw [hpc] at h
    exact ⟨h.1.1.fill h.1.2 h.2.1, fits_advance h.1.2⟩

/-- Every reachable state, whatever EOF markers and closes there were. -/
theorem stage_of_reach {memory : Nat → UInt8} {sync : ClockSync} {volume channelVolume : Int}
    {s : AudioThread W} (h : Reach (step A) (start A memory sync volume channelVolume) s)
    (halive : OutAlive A s.inputs) : Stage A s.blocks s.pc := by
  have hinv : Converting A s ∧ (OutAlive A s.inputs → Stage A s.blocks s.pc) := by
    refine Reach.invariant
      (I := fun s => Converting A s ∧ (OutAlive A s.inputs → Stage A s.blocks s.pc)) h
      ⟨converting_start A memory sync volume channelVolume, fun _ => inv_start A memory⟩ ?_
    rintro t a u ⟨hconv, hstage⟩ hs
    have hmoves := step_moves hs
    exact ⟨hconv.step hmoves, fun hall =>
      Stage.step hconv hall (hstage (hall.of_prefix hmoves.inputs_grow)) hmoves⟩
  exact hinv.2 halive

end AudioThread

end VideoPlayerCore
