import VideoPlayerCore.AudioStages

/-!
# The last block of a stream

At an EOF marker the open block is published as it is: behind the last sample it still holds
what was in that slot of the ring before, and that is the block published eight blocks
earlier.  Only in the first eight blocks of an iteration it is the memory as it was
allocated, or as the last `reset()` cleared it.

    a block that is not begun, or not filled so far, holds what the slot held before
                                                                           (Old.old)
    the blocks of an iteration are its samples, then silence, and no freed frame was used
      ↔ the last block is full, or its slot was silent from there on, and no frame was converted
        behind a direct one                                                (padding_silent)
-/

namespace VideoPlayerCore

open BlockWriter Chunks Machine Windows

variable {W : Nat} {A : AudioSetup W}

/-- The ring's memory at the begin of iteration number `k`. -/
def initialMemory (memory : Nat → UInt8) (k : Nat) : Nat → UInt8 :=
  if k = 0 then memory else fun _ => 0

namespace AudioSetup

variable (A : AudioSetup W)

/-- The address of byte `j` of the payload of block number `n`. -/
def byteAt (n j : Nat) : Nat := A.slot n + 8 + j

/-- What is there before the block is filled. -/
def leftover (init : Nat → UInt8) (samples : List UInt8) (n j : Nat) : UInt8 :=
  if n < 8 then init (A.byteAt n j) else samples[(n - 8) * A.frameBytes + j]?.getD 0

/-- The payload of one block lies apart from the next eight blocks. -/
theorem byteAt_apart {n m j : Nat} (hlt : n < m) (hnear : m < n + 8) (hj : j < A.frameBytes) :
    A.byteAt m j < A.slot n ∨ A.slot n + A.frameAlignBytes.toNat ≤ A.byteAt m j := by
  have hbytes := A.frameBytes_le
  unfold byteAt
  rcases A.slot_apart hlt hnear with h | h
  · right
    omega
  · left
    omega

theorem leftover_append {init : Nat → UInt8} {samples data : List UInt8} {n j : Nat}
    (h : 8 ≤ n → (n - 8) * A.frameBytes + j < samples.length) :
    A.leftover init (samples ++ data) n j = A.leftover init samples n j := by
  unfold leftover
  split
  · rfl
  · next hge =>
    rw [List.getElem?_append_left (h (by omega))]

end AudioSetup

namespace BlockWriter

variable {b b' : BlockWriter W} {bytes : List UInt8} {rest : Rest} {init : Nat → UInt8}

/-- Where nothing is copied yet, the next eight blocks hold what was there before. -/
def Old (A : AudioSetup W) (init : Nat → UInt8) (b : BlockWriter W) : Prop :=
  ∀ m j, b.payloads.length ≤ m → m < b.payloads.length + 8 → j < A.frameBytes →
    (m = b.payloads.length → b.writtenSamples * A.bps ≤ j) →
    b.ring.buf (A.byteAt m j) = A.leftover init b.samples m j

/-- What was published eight blocks before is among the samples. -/
theorem Stream.index_lt (h : Stream A b bytes) {m j : Nat} (hm : m < b.payloads.length + 8)
    (hj : j < A.frameBytes) (hge : 8 ≤ m) : (m - 8) * A.frameBytes + j < b.samples.length := by
  have hlen := h.cut.length_flatten
  have hle : b.payloads.flatten.length ≤ b.samples.length := by
    rw [← h.stream, List.append_assoc, List.length_append]
    exact Nat.le_add_right _ _
  have hblocks : (m - 8 + 1) * A.frameBytes ≤ b.payloads.length * A.frameBytes :=
    Nat.mul_le_mul_right _ (by omega)
  rw [Nat.succ_mul] at hblocks
  rw [hlen, Nat.mul_comm] at hle
  omega

theorem Old.accept (hold : Old A init b) (h : Stream A b []) : Old A init (b.accept bytes) := by
  intro m j hlo hhi hj hfilled
  show b.ring.buf _ = A.leftover init (b.samples ++ bytes) m j
  rw [A.leftover_append (h.index_lt hhi hj)]
  exact hold m j hlo hhi hj hfilled

/-- A store into the open block, in front of what is not filled. -/
theorem Old.setMemory (hold : Old A init b) (h : Stream A b bytes) {i : Nat} {data : List UInt8}
    {written : Nat} (hlo : b.ring.writePos.toNat ≤ i)
    (hhi : i + data.length ≤ b.ring.writePos.toNat + 8 + written * A.bps)
    (hgrow : b.writtenSamples ≤ written) (hfull : written ≤ A.samples) {m j : Nat}
    (hm : b.payloads.length ≤ m) (hm' : m < b.payloads.length + 8) (hj : j < A.frameBytes)
    (hfilled : m = b.payloads.length → written * A.bps ≤ j) :
    write b.ring.buf i data (A.byteAt m j) = A.leftover init b.samples m j := by
  have hbytes := A.frameBytes_le
  have hslot := h.writePos
  have hle : written * A.bps ≤ A.frameBytes := Nat.mul_le_mul_right _ hfull
  have hbefore : b.writtenSamples * A.bps ≤ written * A.bps := Nat.mul_le_mul_right _ hgrow
  have hapart : A.byteAt m j < i ∨ i + data.length ≤ A.byteAt m j := by
    by_cases hsame : m = b.payloads.length
    · have hbehind := hfilled hsame
      right
      unfold AudioSetup.byteAt
      rw [hsame, ← hslot]
      omega
    · rcases A.byteAt_apart (n := b.payloads.length) (by omega) hm' hj with hlt | hge
      · left
        omega
      · right
        omega
  rw [write_of_apart hapart]
  exact hold m j hm hm' hj fun hsame => hbefore.trans (hfilled hsame)

theorem Old.beginWrite {header : ℚ} (hold : Old A init b) (h : Stream A b bytes)
    (hnone : b.writtenSamples = 0) (hs : b.beginWrite A header = some b') : Old A init b' := by
  obtain rfl := beginWrite_eq hs
  intro m j hlo hhi hj hfilled
  have hlen := A.doubleBytes_length header
  exact hold.setMemory h (Nat.le_refl _) (by rw [hlen]; exact Nat.le_add_right _ _) (Nat.le_refl _)
    (by rw [hnone]; exact Nat.zero_le _) hlo hhi hj hfilled

theorem Old.copy (hold : Old A init b) (h : Inv A b rest.data) (hfits : rest.Fits A)
    (hbuf : b.buf = b.ring.writePos.toNat) : Old A init (b.copy A rest) := by
  have hle : (b.copy A rest).writtenSamples ≤ A.samples := copy_writtenSamples_le h.written_lt
  intro m j hlo hhi hj hfilled
  refine hold.setMemory h.toStream ?_ ?_ (Nat.le_add_right _ _) hle hlo hhi hj hfilled
  · rw [hbuf, Nat.add_assoc]
    exact Nat.le_add_right _ _
  · rw [length_taken hfits, hbuf, hfits.bps, Nat.add_assoc _ (b.writtenSamples * A.bps),
      ← Nat.add_mul]

/-- The block that is published is what the slot holds for the block eight blocks later. -/
theorem Old.endWrite (hold : Old A init b) (h : Stream A b bytes)
    (hfull : b.writtenSamples = A.samples) : Old A init (b.endWrite A) := by
  intro m j hlo hhi hj _
  rw [length_endWrite] at hlo hhi
  show b.ring.buf (A.byteAt m j) = A.leftover init b.samples m j
  by_cases hlast : m = b.payloads.length + 8
  · have hstream := h.stream
    have hslot := h.writePos
    have hflat := h.cut.length_flatten
    have hread : (read b.ring.buf (b.ring.writePos.toNat + 8) A.frameBytes)[j]? =
        some (b.ring.buf (b.ring.writePos.toNat + 8 + j)) := by
      rw [List.getElem?_eq_getElem (by rw [length_read]; exact hj), getElem_read]
    have hfullread : read b.ring.buf (b.ring.writePos.toNat + 8) (b.writtenSamples * A.bps) =
        read b.ring.buf (b.ring.writePos.toNat + 8) A.frameBytes := by
      rw [hfull]
      rfl
    have hindex : b.samples[b.payloads.length * A.frameBytes + j]? =
        some (b.ring.buf (b.ring.writePos.toNat + 8 + j)) := by
      rw [← hstream, hfullread, List.append_assoc, List.getElem?_append_right (by
        rw [hflat, Nat.mul_comm]; exact Nat.le_add_right _ _), hflat, Nat.mul_comm,
        Nat.add_sub_cancel_left, List.getElem?_append_left (by rw [length_read]; exact hj), hread]
    unfold AudioSetup.leftover AudioSetup.byteAt
    rw [hlast, if_neg (by omega), Nat.add_sub_cancel, A.slot_add_eight, ← hslot, hindex]
    rfl
  · exact hold m j (by omega) (by omega) hj fun hsame => absurd hsame (by omega)

theorem Old.fill (hold : Old A init b) (h : Inv A b rest.data) (hfits : rest.Fits A)
    (hbuf : b.buf = b.ring.writePos.toNat) : Old A init (b.fill A rest) := by
  have hcopy := hold.copy h hfits hbuf
  unfold BlockWriter.fill
  dsimp only
  by_cases hfull : (b.copy A rest).writtenSamples = A.samples
  · rw [if_pos hfull]
    exact hcopy.endWrite (h.toStream.copy hfits hbuf) hfull
  · rw [if_neg hfull]
    exact hcopy

/-- Behind `reset()` the whole ring is silent. -/
theorem Emptied.clear_old (h : Emptied A b) : Old A (fun _ => 0) b.clear := by
  intro m j hlo hhi hj _
  have hnone : b.clear.payloads.length = 0 := by
    show b.payloads.length = 0
    rw [h.payloads]
    rfl
  have hbytes := A.frameBytes_le
  have hslot := A.slot_le m
  have hin : A.byteAt m j < b.ring.slots := by
    show A.slot m + 8 + j < b.ring.cap.val.toNat
    rw [h.cap]
    omega
  show (if A.byteAt m j < b.ring.slots then 0 else b.ring.buf (A.byteAt m j)) = _
  unfold AudioSetup.leftover
  rw [if_pos hin, if_pos (by omega)]

end BlockWriter

/-! ## The end of an iteration -/

/-- The blocks hold the samples, and only silence behind them. -/
def Iteration.Padded (it : Iteration) : Prop :=
  ∃ n, it.payloads.flatten = it.samples ++ List.replicate n 0

/-- The last block of iteration number `k` is full, or behind the samples its slot held
silence before: the block eight blocks earlier was silent there, or in the first eight blocks
the memory was. -/
def TailSilent (A : AudioSetup W) (memory : Nat → UInt8) (k : Nat) (samples : List UInt8) : Prop :=
  samples.length % A.frameBytes = 0 ∨
    ∀ j, samples.length % A.frameBytes ≤ j → j < A.frameBytes →
      A.leftover (initialMemory memory k) samples (samples.length / A.frameBytes) j = 0

/-- Silence behind the samples is silence in the rest of the last block. -/
theorem padded_iff {samples tail : List UInt8} :
    (∃ n, samples ++ tail = samples ++ List.replicate n 0) ↔ ∀ x ∈ tail, x = 0 := by
  constructor
  · rintro ⟨n, heq⟩ x hx
    rw [List.append_cancel_left heq] at hx
    exact List.eq_of_mem_replicate hx
  · intro hall
    exact ⟨tail.length, by rw [← List.eq_replicate_iff.mpr ⟨rfl, hall⟩]⟩

namespace BlockWriter

variable {b : BlockWriter W} {init : Nat → UInt8}

/-- How far the samples fill the open block. -/
theorem Inv.samples_length (h : Inv A b []) :
    b.samples.length / A.frameBytes = b.payloads.length ∧
      b.samples.length % A.frameBytes = b.writtenSamples * A.bps := by
  have hlen : b.samples.length =
      b.writtenSamples * A.bps + A.frameBytes * b.payloads.length := by
    rw [← h.stream, List.append_nil, List.length_append, length_read, h.cut.length_flatten,
      Nat.add_comm]
  have hlt : b.writtenSamples * A.bps < A.frameBytes :=
    Nat.mul_lt_mul_of_pos_right h.written_lt A.bps_pos
  rw [hlen]
  refine ⟨?_, ?_⟩
  · rw [Nat.add_mul_div_left _ _ A.frameBytes_pos, Nat.div_eq_of_lt hlt, Nat.zero_add]
  · rw [Nat.add_mul_mod_self_left, Nat.mod_eq_of_lt hlt]

/-- The open block, as the EOF branch publishes it. -/
theorem Inv.flush_payloads (h : Inv A b []) :
    (b.payloads ++ [read b.ring.buf (b.ring.writePos.toNat + 8) A.frameBytes]).flatten =
      b.samples ++ read b.ring.buf (b.ring.writePos.toNat + 8 + b.writtenSamples * A.bps)
        (A.frameBytes - b.writtenSamples * A.bps) := by
  have hle : b.writtenSamples * A.bps ≤ A.frameBytes := Nat.mul_le_mul_right _ h.written_lt.le
  have hsplit : read b.ring.buf (b.ring.writePos.toNat + 8) A.frameBytes =
      read b.ring.buf (b.ring.writePos.toNat + 8) (b.writtenSamples * A.bps) ++
        read b.ring.buf (b.ring.writePos.toNat + 8 + b.writtenSamples * A.bps)
          (A.frameBytes - b.writtenSamples * A.bps) := by
    rw [← read_add, Nat.add_sub_cancel' hle]
  rw [List.flatten_append, List.flatten_singleton, hsplit, ← List.append_assoc, ← h.stream,
    List.append_nil]

/-- The iteration that an EOF marker ends. -/
def closedIteration (A : AudioSetup W) (b : BlockWriter W) : Iteration :=
  { samples := b.samples
    payloads := (if b.writtenSamples = 0 then b else b.endWrite A).payloads }

theorem flush_ended : (b.flush A).ended = b.ended ++ [closedIteration A b] := by
  unfold BlockWriter.flush closedIteration
  dsimp only
  split
  · rfl
  · rfl

/-- The last block is padded with what its slot held before. -/
theorem Old.padded_iff {memory : Nat → UInt8} {k : Nat}
    (hold : Old A (initialMemory memory k) b) (h : Inv A b []) :
    (closedIteration A b).Padded ↔ TailSilent A memory k b.samples := by
  obtain ⟨hdiv, hmod⟩ := h.samples_length
  unfold Iteration.Padded closedIteration TailSilent
  rw [hdiv, hmod]
  by_cases hopen : b.writtenSamples = 0
  · have hfull : b.payloads.flatten = b.samples := by
      have hstream := h.stream
      rw [hopen, Nat.zero_mul, read_zero, List.append_nil, List.append_nil] at hstream
      exact hstream
    rw [if_pos hopen, hopen, Nat.zero_mul]
    exact ⟨fun _ => .inl rfl, fun _ => ⟨0, by rw [hfull]; exact (List.append_nil _).symm⟩⟩
  · rw [if_neg hopen]
    show (∃ n, (b.payloads ++ [read b.ring.buf (b.ring.writePos.toNat + 8) A.frameBytes]).flatten =
      b.samples ++ List.replicate n 0) ↔ _
    rw [h.flush_payloads, VideoPlayerCore.padded_iff]
    have hpos : 0 < b.writtenSamples * A.bps :=
      Nat.mul_pos (Nat.pos_of_ne_zero hopen) A.bps_pos
    have hcell : ∀ j, b.writtenSamples * A.bps ≤ j → j < A.frameBytes →
        b.ring.buf (b.ring.writePos.toNat + 8 + j) =
          A.leftover (initialMemory memory k) b.samples b.payloads.length j := by
      intro j hlo hhi
      have hbyte := hold b.payloads.length j (Nat.le_refl _) (by omega) hhi fun _ => hlo
      rw [← hbyte, h.writePos]
      rfl
    constructor
    · intro hzero
      refine .inr fun j hlo hhi => ?_
      rw [← hcell j hlo hhi]
      apply hzero
      refine List.mem_iff_getElem.mpr ⟨j - b.writtenSamples * A.bps, ?_, ?_⟩
      · rw [length_read]
        omega
      · rw [getElem_read, Nat.add_assoc _ (b.writtenSamples * A.bps), Nat.add_sub_cancel' hlo]
    · rintro (hfull | hsilent) x hx
      · omega
      · obtain ⟨j, hj, rfl⟩ := List.mem_iff_getElem.mp hx
        rw [length_read] at hj
        rw [getElem_read, Nat.add_assoc _ (b.writtenSamples * A.bps),
          hcell _ (Nat.le_add_right _ _) (by omega)]
        exact hsilent _ (Nat.le_add_right _ _) (by omega)

end BlockWriter

/-! ## Runs -/

namespace AudioThread

variable {s t : AudioThread W} {memory : Nat → UInt8}

/-- What the ring holds where nothing is copied yet. -/
def Holds (A : AudioSetup W) (memory : Nat → UInt8) (b : BlockWriter W) : DisplayPc → Prop
  | .polling | .resetWrite | .resetRead | .clearing => b.ended ≠ []
  | _ => Old A (initialMemory memory b.ended.length) b

/-- Every iteration that ended is padded with silence if its last slot was silent. -/
def Judged (A : AudioSetup W) (memory : Nat → UInt8) (b : BlockWriter W) : Prop :=
  ∀ k it, b.ended[k]? = some it → (it.Padded ↔ TailSilent A memory k it.samples)

theorem Holds.step (hstage : Stage A s.blocks s.pc) (h : Holds A memory s.blocks s.pc)
    (hs : s.Moves A t) : Holds A memory t.blocks t.pc := by
  cases hs with
  | aside | drain | poll | sleep | consume => exact h
  | begin hpc | leave hpc | idle hpc | marker _ hpc | take _ _ hpc | skip _ _ _ hpc
  | endLoop _ hpc | exit hpc | drained hpc | done _ _ hpc | resume _ _ hpc | wait _ _ _ hpc
  | play _ _ _ hpc | resetWrite hpc | resetRead hpc =>
    rw [hpc] at h
    exact h
  | flush hpc =>
    show (s.blocks.flush A).ended ≠ []
    rw [flush_ended]
    exact List.append_ne_nil_of_right_ne_nil _ (List.cons_ne_nil _ _)
  | clear _ hpc =>
    rw [hpc] at h hstage
    have hlen : s.blocks.ended.length ≠ 0 := fun hnil => h (List.length_eq_zero_iff.mp hnil)
    have hzero : initialMemory memory s.blocks.clear.ended.length = fun _ => 0 := if_neg hlen
    show Old A (initialMemory memory s.blocks.clear.ended.length) s.blocks.clear
    rw [hzero]
    exact hstage.1.clear_old
  | prepare d e r o hpc =>
    rw [hpc] at h hstage
    have hinv : Inv A s.blocks [] := hstage
    exact Old.accept h hinv.toStream
  | beginWrite d rest b hpc _ hwritten hbegin =>
    rw [hpc] at h hstage
    show Old A (initialMemory memory b.ended.length) b
    rw [beginWrite_ended hbegin]
    exact Old.beginWrite h hstage.1.toStream hwritten hbegin
  | fill d rest hpc =>
    rw [hpc] at h hstage
    show Old A (initialMemory memory (s.blocks.fill A rest).ended.length) (s.blocks.fill A rest)
    rw [fill_ended]
    exact Old.fill h hstage.1.1 hstage.1.2 hstage.2.1

theorem Judged.of_ended {b b' : BlockWriter W} (h : Judged A memory b)
    (hended : b'.ended = b.ended) : Judged A memory b' := by
  unfold Judged
  rw [hended]
  exact h

theorem Judged.step (hstage : Stage A s.blocks s.pc) (hholds : Holds A memory s.blocks s.pc)
    (h : Judged A memory s.blocks) (hs : s.Moves A t) : Judged A memory t.blocks := by
  cases hs with
  | flush hpc =>
    rw [hpc] at hstage hholds
    have hinv : Inv A s.blocks [] := hstage
    have hold : Old A (initialMemory memory s.blocks.ended.length) s.blocks := hholds
    intro k it hk
    rw [show (s.blocks.flush A).ended = _ from flush_ended] at hk
    rcases Nat.lt_or_ge k s.blocks.ended.length with hlt | hge
    · rw [List.getElem?_append_left hlt] at hk
      exact h k it hk
    · rw [List.getElem?_append_right hge, List.getElem?_singleton,
        Option.ite_none_right_eq_some] at hk
      obtain ⟨hzero, hit⟩ := hk
      obtain rfl := Option.some.inj hit
      obtain rfl : k = s.blocks.ended.length := by omega
      exact hold.padded_iff hinv
  | beginWrite d rest b _ _ _ hbegin => exact h.of_ended (beginWrite_ended hbegin)
  | fill d rest => exact h.of_ended fill_ended
  | _ => exact h.of_ended rfl

end AudioThread

open AudioThread

/-- In every reachable state, whatever the callback did: no freed frame was used and the blocks
of an iteration that an EOF marker has ended are its samples and then silence, if and only if no
frame was converted behind a direct one, and the last block of the iteration is full or its last
slot was silent behind the samples. -/
theorem padding_silent (A : AudioSetup W) (memory : Nat → UInt8) (sync : ClockSync)
    (volume channelVolume : Int) (s : AudioThread W)
    (h : Reach (step A) (start A memory sync volume channelVolume) s) (k : Nat) (it : Iteration)
    (hit : s.blocks.ended[k]? = some it) :
    (s.resampler.usedFreed = false ∧
        ∃ n, it.payloads.flatten = it.samples ++ List.replicate n 0) ↔
      OutAlive A s.inputs ∧ TailSilent A memory k it.samples := by
  have hinv : Converting A s ∧ (OutAlive A s.inputs → Stage A s.blocks s.pc ∧
      Holds A memory s.blocks s.pc ∧ Judged A memory s.blocks) := by
    refine Reach.invariant (I := fun s => Converting A s ∧ (OutAlive A s.inputs →
      Stage A s.blocks s.pc ∧ Holds A memory s.blocks s.pc ∧ Judged A memory s.blocks)) h
      ⟨converting_start A memory sync volume channelVolume, fun _ =>
        ⟨inv_start A memory, ?_, nofun⟩⟩ ?_
    · intro m j _ hlt _ _
      have hfirst : m < 8 := by
        simp only [start, List.length_nil] at hlt
        omega
      exact (if_pos hfirst).symm
    · rintro t a u ⟨hconv, hall⟩ hs
      have hmoves := step_moves hs
      refine ⟨hconv.step hmoves, fun halive => ?_⟩
      obtain ⟨hstage, hholds, hjudged⟩ := hall (halive.of_prefix hmoves.inputs_grow)
      exact ⟨Stage.step hconv halive hstage hmoves, hholds.step hstage hmoves,
        hjudged.step hstage hholds hmoves⟩
  rw [hinv.1.used]
  exact and_congr_right fun halive => (hinv.2 halive).2.2 k it hit

/-- A frame of `n` samples and an EOF marker; the callback plays a block where the ring is
full. -/
def playToEnd (n : Nat) (steps : List Nat) : List AudioThreadAct :=
  [.decoder (some (stereoFrame .s16 8000 n 0)), .decoder none] ++ steps.flatMap fun m =>
    displaySteps m (goodAnswers 0 fun _ => 1) ++ List.replicate 4 (.callback 0)

/-- A clip of one sample on a cleared ring. -/
theorem padding_silent_short_clip :
    ∃ s : AudioThread 64, ∃ it, s.blocks.ended[0]? = some it ∧ it.samples.length = 4 ∧
      ∃ n, it.payloads.flatten = it.samples ++ List.replicate n 0 := by
  obtain ⟨s, hs, hp⟩ := reach_of_any (step (smallDevice (1 / 8000)))
    (start (smallDevice (1 / 8000)) (fun _ => 0) audioOnly 128 128) (playToEnd 1 [11])
    (fun s => s.resampler.usedFreed = false ∧
      s.blocks.ended[0]?.any fun it => it.samples.length = 4) (by decide +kernel)
  obtain ⟨hused, hany⟩ := of_decide_eq_true hp
  obtain ⟨it, hit, hlen⟩ := (Option.any_eq_true _ _).mp hany
  have hsilent : TailSilent (smallDevice (1 / 8000)) (fun _ => 0) 0 it.samples := by
    rw [decide_eq_true_eq] at hlen
    refine .inr fun j _ _ => ?_
    rw [hlen]
    rfl
  have halive : OutAlive (smallDevice (1 / 8000)) s.inputs := (converting_of_reach hs).used.mp hused
  refine ⟨s, it, hit, of_decide_eq_true hlen, ?_⟩
  exact ((padding_silent _ _ _ _ _ s hs 0 it hit).mpr ⟨halive, hsilent⟩).2

/-- Seventeen samples make eight blocks and a half; the second half of the ninth block is that
of the first one. -/
theorem last_block_repeats :
    ∃ s : AudioThread 64,
      Reach (step (smallDevice (1 / 8000)))
        (start (smallDevice (1 / 8000)) (fun _ => 0) audioOnly 128 128) s ∧
      ∃ it ∈ s.blocks.ended,
        ¬ ∃ n, it.payloads.flatten = it.samples ++ List.replicate n 0 := by
  obtain ⟨s, hs, hp⟩ := reach_of_any (step (smallDevice (1 / 8000)))
    (start (smallDevice (1 / 8000)) (fun _ => 0) audioOnly 128 128) (playToEnd 17 [24, 3, 8])
    (fun s => s.blocks.ended.any fun it => it.samples.length = 68 ∧
      it.payloads.flatten.drop 68 = [1, 1, 1, 1]) (by decide +kernel)
  obtain ⟨it, hit, hblocks⟩ := List.any_eq_true.mp hp
  obtain ⟨hlen, hdrop⟩ := of_decide_eq_true hblocks
  refine ⟨s, hs, it, hit, ?_⟩
  rintro ⟨n, heq⟩
  rw [heq, ← hlen, List.drop_left] at hdrop
  have hone : (1 : UInt8) ∈ List.replicate n 0 := by
    rw [hdrop]
    exact List.mem_cons_self
  exact absurd (List.eq_of_mem_replicate hone) (by decide)

end VideoPlayerCore
