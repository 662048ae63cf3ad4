import VideoPlayerCore.AudioFrames
import VideoPlayerCore.CInts
import VideoPlayerCore.NextPow2
import VideoPlayerCore.RingSafety

/-!
# Audio blocks: their size, and why none straddles the end of the ring

`Audio::open` rounds a block and its header up to a power of two `F` and gives the channel a
ring of `8 * F` bytes.  Where every call on a ring has size `F`, and `F` divides the capacity,
both positions stay multiples of `F`.  The test against the end of the buffer then never
decides a call:

    begin_write(F) succeeds ↔ fewer than C / F - 1 blocks are unread
    begin_read(F) succeeds  ↔ a block is unread                        (audio_blocks_fit)
-/

namespace VideoPlayerCore

open AudioRingBuffer Machine Words

/-! ## Audio::open -/

/-- What `SDL_OpenAudioDevice` reports, as far as the block size depends on it. -/
structure DeviceSpec where
  forceFormat : SampleFormat
  channels : Nat
  samples : Nat
  channels_range : 1 ≤ channels ∧ channels ≤ 255
  samples_range : 1 ≤ samples ∧ samples ≤ 65535

/-- `av_get_bytes_per_sample` -/
def SampleFormat.bytesPerSample : SampleFormat → Nat
  | .s16 => 2
  | .s32 => 4
  | .flt => 4

namespace DeviceSpec

variable (spec : DeviceSpec)

/-- `_frameBytes`, the samples of all channels without padding -/
def frameBytes : Int := spec.channels * spec.samples * spec.forceFormat.bytesPerSample

/-- `_frameAlignBytes`; the sum is an `int`, and so is what `next_pow2` returns. -/
def frameAlignBytes : Int := int (nextPow2 (sizeT (int (spec.frameBytes + 8)))).toNat

/-- The `8 * _frameAlignBytes` that the constructor of `Channel` passes on. -/
def capacity : BitVec 64 := sizeT (int (8 * spec.frameAlignBytes))

theorem frameBytes_range : 2 ≤ spec.frameBytes ∧ spec.frameBytes ≤ 66845700 := by
  have hbytes : 2 ≤ spec.forceFormat.bytesPerSample ∧ spec.forceFormat.bytesPerSample ≤ 4 := by
    cases spec.forceFormat <;> decide
  have hc := spec.channels_range
  have hs := spec.samples_range
  have hlow := Nat.mul_le_mul (Nat.mul_le_mul hc.1 hs.1) hbytes.1
  have hhigh := Nat.mul_le_mul (Nat.mul_le_mul hc.2 hs.2) hbytes.2
  unfold frameBytes
  norm_cast

/-- The logarithm of the block size. -/
def blockLog : Nat := Nat.clog 2 (spec.frameBytes + 8).toNat

theorem blockLog_range : 4 ≤ spec.blockLog ∧ spec.blockLog ≤ 26 := by
  have h := spec.frameBytes_range
  constructor
  · exact (Nat.lt_clog_iff_pow_lt (by decide)).mpr (by omega)
  · exact Nat.clog_le_of_le_pow (by omega)

theorem isInt_sum : IsInt (spec.frameBytes + 8) := by
  have h := spec.frameBytes_range
  constructor <;> omega

theorem toNat_nextPow2 : (nextPow2 (sizeT (int (spec.frameBytes + 8)))).toNat = 2 ^ spec.blockLog := by
  have h := spec.frameBytes_range
  have hcast := spec.isInt_sum.toNat_sizeT (by omega)
  have hsize : (sizeT (spec.frameBytes + 8)).toNat = (spec.frameBytes + 8).toNat := by omega
  rw [spec.isInt_sum.int_eq, VideoPlayerCore.toNat_nextPow2 (by omega), hsize, blockLog]

/-- Every size up to `8 * 2 ^ 26` is an `int`. -/
theorem isInt_pow {n k : Nat} (hn : n ≤ 8) (hk : k ≤ 26) : IsInt (n * 2 ^ k : Nat) := by
  have hpow : 2 ^ k ≤ 2 ^ 26 := Nat.pow_le_pow_right (by decide) hk
  have hmul := Nat.mul_le_mul hn hpow
  constructor <;> omega

theorem frameAlignBytes_eq : spec.frameAlignBytes = (2 ^ spec.blockLog : Nat) := by
  have h := isInt_pow (n := 1) (by decide) spec.blockLog_range.2
  rw [Nat.one_mul] at h
  rw [frameAlignBytes, toNat_nextPow2, h.int_eq]

theorem isInt_capacity : IsInt (8 * spec.frameAlignBytes) := by
  rw [frameAlignBytes_eq]
  exact isInt_pow le_rfl spec.blockLog_range.2

theorem toNat_capacity : spec.capacity.toNat = 8 * 2 ^ spec.blockLog := by
  have hpos : 0 ≤ 8 * spec.frameAlignBytes := by
    rw [frameAlignBytes_eq]
    exact Int.mul_nonneg (by decide) (Int.natCast_nonneg _)
  have h := spec.isInt_capacity.toNat_sizeT hpos
  rw [frameAlignBytes_eq] at h
  rw [capacity, spec.isInt_capacity.int_eq, frameAlignBytes_eq]
  exact_mod_cast h

theorem toNat_sizeT_frameAlignBytes : (sizeT spec.frameAlignBytes).toNat = 2 ^ spec.blockLog := by
  have h := isInt_pow (n := 1) (by decide) spec.blockLog_range.2
  rw [Nat.one_mul] at h
  have hsize := h.toNat_sizeT (Int.natCast_nonneg _)
  rw [frameAlignBytes_eq]
  exact_mod_cast hsize

/-- The size that `begin_write` and `begin_read` are called with. -/
def blockSize : Pow2 64 :=
  .ofTwoPow (sizeT spec.frameAlignBytes) spec.blockLog spec.toNat_sizeT_frameAlignBytes

/-- The capacity as the constructor accepts it. -/
def ringSize : Pow2 64 :=
  .ofTwoPow spec.capacity (3 + spec.blockLog) (by rw [spec.toNat_capacity, Nat.pow_add])

end DeviceSpec

/-! ## A ring whose calls all have one size

`reset()` is taken apart into its stores, which may come at any moment. -/

inductive BlockAct (W : Nat) (T : Type)
  | ring (a : RingAct W T)
  | resetWrite
  | resetRead
  /-- one element of the `memset` -/
  | clear (i : Nat) (zero : T)

variable {W : Nat} {T : Type}

/-- A call that this step begins has size `F`. -/
def BlockAct.OfSize (F : BitVec W) : BlockAct W T → Prop
  | .ring (.beginWrite call) => call.frames = F
  | .ring (.beginRead call) => call.frames = F
  | _ => True

/-- What lies between two loaded positions, in blocks. -/
def AudioRingBuffer.blocks (b : AudioRingBuffer W T) (F w r : BitVec W) : Nat :=
  ((w - r) &&& b.cap.mask).toNat / F.toNat

namespace RingState

def blockStep (s : RingState W T) : BlockAct W T → Option (RingState W T)
  | .ring a => s.step a
  | .resetWrite => some { s with ring := s.ring.setWrite 0 }
  | .resetRead => some { s with ring := s.ring.setRead 0 }
  | .clear i zero => some { s with ring := s.ring.poke i zero }

/-- The blocks unread, by `available_read()`. -/
def unreadBlocks (s : RingState W T) (F : BitVec W) : Nat := s.ring.availableRead.toNat / F.toNat

/-- Where the blocks begin that the two sides hold. -/
def starts (s : RingState W T) : List Nat :=
  (match s.producer with
    | .filling _ slot _ | .ending _ slot _ => [slot]
    | _ => []) ++
  (match s.consumer with
    | .reading _ slot _ | .ending _ slot _ _ => [slot]
    | _ => [])

end RingState

/-- A position at which a block begins, in a ring of `n` elements. -/
structure OnBlock (F n : Nat) (x : BitVec W) : Prop where
  dvd : F ∣ x.toNat
  lt : x.toNat < n

theorem OnBlock.zero {F n : Nat} (hn : 0 < n) : OnBlock F n (0 : BitVec W) := by
  refine ⟨?_, ?_⟩
  · simp
  · simpa using hn

/-- `end_write` and `end_read` lead from block to block. -/
theorem OnBlock.next {F x : BitVec W} {c : Pow2 W} (hF : F.toNat ∣ c.val.toNat)
    (h : OnBlock F.toNat c.val.toNat x) : OnBlock F.toNat c.val.toNat ((x + F) &&& c.mask) := by
  have heq := c.add_and_mask (Nat.mod_eq_of_lt h.lt).symm F
  refine ⟨?_, ?_⟩
  · rw [heq]
    exact (Nat.dvd_mod_iff hF).mpr (h.dvd.add (Nat.dvd_refl _))
  · rw [heq]
    exact Nat.mod_lt _ c.toNat_pos

/-! ### What a call decides -/

section
variable {b : AudioRingBuffer W T} {F w r : BitVec W}

/-- Two positions on blocks are counters of whole blocks. -/
theorem exists_counts (hF : F.toNat ∣ b.slots) (hw : OnBlock F.toNat b.slots w)
    (hr : OnBlock F.toNat b.slots r) :
    ∃ p o, ((b.setWrite w).setRead r).Counts p o ∧ F.toNat ∣ p - o := by
  have hslots : ((b.setWrite w).setRead r).slots = b.slots := rfl
  by_cases hle : r.toNat ≤ w.toNat
  · refine ⟨w.toNat, r.toNat, ⟨?_, ?_, hle, ?_⟩, Nat.dvd_sub hw.dvd hr.dvd⟩
    · exact (Nat.mod_eq_of_lt hw.lt).symm
    · exact (Nat.mod_eq_of_lt hr.lt).symm
    · have := hw.lt
      omega
  · -- the writer is one round ahead
    refine ⟨w.toNat + b.slots, r.toNat, ⟨?_, ?_, ?_, ?_⟩, Nat.dvd_sub (hw.dvd.add hF) hr.dvd⟩
    · rw [hslots, Nat.add_mod_right]
      exact (Nat.mod_eq_of_lt hw.lt).symm
    · exact (Nat.mod_eq_of_lt hr.lt).symm
    · have := hr.lt
      omega
    · omega

/-- A block that begins in the ring ends in it. -/
theorem OnBlock.add_le {n : Nat} (hF : F.toNat ∣ n) (h : OnBlock F.toNat n w) :
    w.toNat + F.toNat ≤ n := by
  obtain ⟨k, rfl⟩ := hF
  obtain ⟨j, hj⟩ := h.dvd
  have hlt := h.lt
  rw [hj] at hlt ⊢
  have hjk : j < k := Nat.lt_of_mul_lt_mul_left hlt
  calc F.toNat * j + F.toNat = F.toNat * (j + 1) := (Nat.mul_succ _ _).symm
    _ ≤ F.toNat * k := Nat.mul_le_mul_left _ hjk

theorem begin_write_iff (hpos : 0 < F.toNat) (hF : F.toNat ∣ b.slots)
    (hw : OnBlock F.toNat b.slots w) (hr : OnBlock F.toNat b.slots r) :
    (b.beginWrite w r F).isSome = true ↔ b.blocks F w r < b.slots / F.toNat - 1 := by
  obtain ⟨p, o, hc, hdvd⟩ := exists_counts hF hw hr
  have hread : ((w - r) &&& b.cap.mask).toNat = p - o := hc.availableRead
  have hle := hc.le
  have hend := hw.add_le hF
  unfold AudioRingBuffer.blocks
  rw [hread, Option.isSome_iff_exists]
  obtain ⟨k, hk⟩ := hdvd
  obtain ⟨n, hn⟩ := hF
  rw [hk, hn, Nat.mul_div_cancel_left _ hpos, Nat.mul_div_cancel_left _ hpos]
  have hmul : F.toNat * (k + 1) < F.toNat * n ↔ k + 1 < n := Nat.mul_lt_mul_left hpos
  rw [Nat.mul_succ, ← hk, ← hn] at hmul
  have hroom : p + F.toNat < o + b.slots ↔ k + 1 < n := by
    rw [← hmul]
    omega
  constructor
  · rintro ⟨i, hi⟩
    have hlt := hroom.mp (hc.beginWrite_eq_some.mp hi).2.2
    omega
  · intro hlt
    exact ⟨w.toNat, hc.beginWrite_eq_some.mpr ⟨rfl, hend, hroom.mpr (by omega)⟩⟩

theorem begin_read_iff (hpos : 0 < F.toNat) (hF : F.toNat ∣ b.slots)
    (hw : OnBlock F.toNat b.slots w) (hr : OnBlock F.toNat b.slots r) :
    (b.beginRead r w F).isSome = true ↔ 1 ≤ b.blocks F w r := by
  obtain ⟨p, o, hc, hdvd⟩ := exists_counts hF hw hr
  have hread : ((w - r) &&& b.cap.mask).toNat = p - o := hc.availableRead
  have hle := hc.le
  have hend := hr.add_le hF
  unfold AudioRingBuffer.blocks
  rw [hread, Option.isSome_iff_exists, Nat.one_le_div_iff hpos]
  constructor
  · rintro ⟨i, hi⟩
    have hunread := (hc.beginRead_eq_some.mp hi).2.2
    omega
  · intro hunread
    exact ⟨r.toNat, hc.beginRead_eq_some.mpr ⟨rfl, hend, by omega⟩⟩

end

/-! ### Every run stays on blocks -/

/-- The positions stored and loaded lie on blocks, and so do the blocks held. -/
structure Blockwise (F : BitVec W) (n : Nat) (s : RingState W T) : Prop where
  slots : s.ring.slots = n
  write : OnBlock F.toNat n s.ring.writePos
  read : OnBlock F.toNat n s.ring.readPos
  producer : match s.producer with
    | .idle => True
    | .loadedWrite call w => call.frames = F ∧ OnBlock F.toNat n w
    | .filling call slot _ => call.frames = F ∧ F.toNat ∣ slot
    | .ending call slot w => call.frames = F ∧ F.toNat ∣ slot ∧ OnBlock F.toNat n w
  consumer : match s.consumer with
    | .idle => True
    | .loadedRead call r => call.frames = F ∧ OnBlock F.toNat n r
    | .reading call slot _ => call.frames = F ∧ F.toNat ∣ slot
    | .ending call slot _ r => call.frames = F ∧ F.toNat ∣ slot ∧ OnBlock F.toNat n r

namespace Blockwise

variable {F : BitVec W} {n : Nat} {s t : RingState W T}

theorem byProducer (h : Blockwise F n s) (hF : F.toNat ∣ n) {a : RingAct W T} (ha : a.byProducer)
    (hok : (BlockAct.ring a).OfSize F) (hs : s.step a = some t) : Blockwise F n t := by
  obtain ⟨hslots, hwrite, hread, hproducer, hconsumer⟩ := h
  cases a with
  | beginWrite call =>
    simp only [RingState.step, RingState.beginWrite] at hs
    split at hs <;> cases hs
    exact ⟨hslots, hwrite, hread, ⟨hok, hwrite⟩, hconsumer⟩
  | loadRead =>
    simp only [RingState.step, RingState.loadRead] at hs
    split at hs
    · next call w hp =>
      rw [hp] at hproducer
      split at hs
      · cases hs
        exact ⟨hslots, hwrite, hread, trivial, hconsumer⟩
      · next slot hslot =>
        cases hs
        obtain rfl := beginWrite_slot hslot
        exact ⟨hslots, hwrite, hread, ⟨hproducer.1, hproducer.2.dvd⟩, hconsumer⟩
    · cases hs
  | fill i v =>
    simp only [RingState.step, RingState.fill] at hs
    split at hs
    · split at hs <;> cases hs
      exact ⟨hslots, hwrite, hread, hproducer, hconsumer⟩
    · cases hs
  | copyIn =>
    simp only [RingState.step, RingState.copyIn] at hs
    split at hs
    · next hp =>
      rw [hp] at hproducer
      split at hs <;> cases hs
      exact ⟨hslots, hwrite, hread, hproducer, hconsumer⟩
    · cases hs
  | endWrite =>
    simp only [RingState.step, RingState.endWrite] at hs
    split at hs
    · next hp =>
      rw [hp] at hproducer
      split at hs <;> cases hs
      exact ⟨hslots, hwrite, hread, ⟨hproducer.1, hproducer.2, hwrite⟩, hconsumer⟩
    · cases hs
  | storeWrite =>
    simp only [RingState.step, RingState.storeWrite] at hs
    split at hs
    · next call slot w hp =>
      rw [hp] at hproducer
      obtain ⟨hframes, -, hw⟩ := hproducer
      cases hs
      subst hslots
      refine ⟨rfl, ?_, hread, trivial, hconsumer⟩
      rw [hframes]
      exact hw.next hF
    · cases hs
  | beginRead call | loadWrite | use i | copyOut | endRead | storeRead => exact ha.elim

theorem byConsumer (h : Blockwise F n s) (hF : F.toNat ∣ n) {a : RingAct W T} (ha : ¬ a.byProducer)
    (hok : (BlockAct.ring a).OfSize F) (hs : s.step a = some t) : Blockwise F n t := by
  obtain ⟨hslots, hwrite, hread, hproducer, hconsumer⟩ := h
  cases a with
  | beginRead call =>
    simp only [RingState.step, RingState.beginRead] at hs
    split at hs <;> cases hs
    exact ⟨hslots, hwrite, hread, hproducer, ⟨hok, hread⟩⟩
  | loadWrite =>
    simp only [RingState.step, RingState.loadWrite] at hs
    split at hs
    · next call r hc =>
      rw [hc] at hconsumer
      split at hs
      · cases hs
        exact ⟨hslots, hwrite, hread, hproducer, trivial⟩
      · next slot hslot =>
        cases hs
        obtain rfl := beginRead_slot hslot
        exact ⟨hslots, hwrite, hread, hproducer, ⟨hconsumer.1, hconsumer.2.dvd⟩⟩
    · cases hs
  | use i =>
    simp only [RingState.step, RingState.use] at hs
    split at hs
    · next hc =>
      rw [hc] at hconsumer
      split at hs <;> cases hs
      exact ⟨hslots, hwrite, hread, hproducer, hconsumer⟩
    · cases hs
  | copyOut =>
    simp only [RingState.step, RingState.copyOut] at hs
    split at hs
    · next hc =>
      rw [hc] at hconsumer
      split at hs <;> cases hs
      exact ⟨hslots, hwrite, hread, hproducer, hconsumer⟩
    · cases hs
  | endRead =>
    simp only [RingState.step, RingState.endRead] at hs
    split at hs
    · next hc =>
      rw [hc] at hconsumer
      split at hs <;> cases hs
      exact ⟨hslots, hwrite, hread, hproducer, ⟨hconsumer.1, hconsumer.2, hread⟩⟩
    · next hc =>
      rw [hc] at hconsumer
      cases hs
      exact ⟨hslots, hwrite, hread, hproducer, ⟨hconsumer.1, hconsumer.2, hread⟩⟩
    · cases hs
  | storeRead =>
    simp only [RingState.step, RingState.storeRead] at hs
    split at hs
    · next call slot seen r hc =>
      rw [hc] at hconsumer
      obtain ⟨hframes, -, hr⟩ := hconsumer
      cases hs
      subst hslots
      refine ⟨rfl, hwrite, ?_, hproducer, trivial⟩
      rw [hframes]
      exact hr.next hF
    · cases hs
  | beginWrite call | loadRead | fill i v | copyIn | endWrite | storeWrite =>
    exact absurd trivial ha

theorem step (h : Blockwise F n s) (hF : F.toNat ∣ n) {a : BlockAct W T} (hok : a.OfSize F)
    (hs : s.blockStep a = some t) : Blockwise F n t := by
  have hn : 0 < n := h.slots ▸ s.ring.cap.toNat_pos
  cases a with
  | ring a =>
    by_cases ha : a.byProducer
    · exact h.byProducer hF ha hok hs
    · exact h.byConsumer hF ha hok hs
  | resetWrite =>
    cases hs
    exact ⟨h.slots, .zero hn, h.read, h.producer, h.consumer⟩
  | resetRead =>
    cases hs
    exact ⟨h.slots, h.write, .zero hn, h.producer, h.consumer⟩
  | clear i zero =>
    cases hs
    exact ⟨h.slots, h.write, h.read, h.producer, h.consumer⟩

theorem starts_dvd (h : Blockwise F n s) : ∀ slot ∈ s.starts, F.toNat ∣ slot := by
  have hp := h.producer
  have hc := h.consumer
  intro slot hslot
  rcases List.mem_append.mp hslot with hmem | hmem
  · split at hmem
    · next heq =>
      rw [heq] at hp
      exact List.mem_singleton.mp hmem ▸ hp.2
    · next heq =>
      rw [heq] at hp
      exact List.mem_singleton.mp hmem ▸ hp.2.1
    · cases hmem
  · split at hmem
    · next heq =>
      rw [heq] at hc
      exact List.mem_singleton.mp hmem ▸ hc.2
    · next heq =>
      rw [heq] at hc
      exact List.mem_singleton.mp hmem ▸ hc.2.1
    · cases hmem

theorem start {b : AudioRingBuffer W T} (hb : FreshRing b) : Blockwise F b.slots (.start b) := by
  have hc := hb.counts
  have hw : F.toNat ∣ b.writePos.toNat := by
    rw [hc.write, Nat.zero_mod]
    exact Nat.dvd_zero _
  have hr : F.toNat ∣ b.readPos.toNat := by
    rw [hc.read, Nat.zero_mod]
    exact Nat.dvd_zero _
  exact ⟨rfl, ⟨hw, hc.write_lt⟩, ⟨hr, hc.read_lt⟩, trivial, trivial⟩

theorem of_reach {b : AudioRingBuffer W T} (hb : FreshRing b) (hF : F.toNat ∣ b.slots)
    (h : ReachIf RingState.blockStep (fun _ a => a.OfSize F) (.start b) s) :
    Blockwise F b.slots s :=
  h.invariant (start hb) fun _ _ _ hi hok hs => hi.step hF hok hs

end Blockwise

/-! ## Main theorem -/

/-- What the calls of size `F` decide in `s`, and where their blocks begin. -/
structure BlockCalls (F : BitVec W) (s : RingState W T) : Prop where
  beginWrite : (s.ring.beginWrite s.ring.writePos s.ring.readPos F).isSome = true ↔
    s.unreadBlocks F < s.ring.slots / F.toNat - 1
  beginRead : (s.ring.beginRead s.ring.readPos s.ring.writePos F).isSome = true ↔
    1 ≤ s.unreadBlocks F
  /-- `begin_write` between its loads -/
  loadRead : ∀ call w, s.producer = .loadedWrite call w →
    ((∃ slot, s.loadRead = some { s with producer := .filling call slot 0 }) ↔
      s.ring.blocks F w s.ring.readPos < s.ring.slots / F.toNat - 1)
  /-- `begin_read` between its loads -/
  loadWrite : ∀ call r, s.consumer = .loadedRead call r →
    ((∃ slot, s.loadWrite = some { s with consumer := .reading call slot [] }) ↔
      1 ≤ s.ring.blocks F s.ring.writePos r)
  starts : ∀ slot ∈ s.starts, F.toNat ∣ slot

section
variable {F : BitVec W} {s : RingState W T} {b : AudioRingBuffer W T}

theorem loadRead_grants_iff {call : WriteCall W T} {w : BitVec W}
    (h : s.producer = .loadedWrite call w) :
    (∃ slot, s.loadRead = some { s with producer := .filling call slot 0 }) ↔
      (s.ring.beginWrite w s.ring.readPos call.frames).isSome = true := by
  unfold RingState.loadRead
  rw [h]
  dsimp only
  cases hslot : s.ring.beginWrite w s.ring.readPos call.frames with
  | none => simp
  | some slot => exact ⟨fun _ => rfl, fun _ => ⟨slot, rfl⟩⟩

theorem loadWrite_grants_iff {call : ReadCall W} {r : BitVec W}
    (h : s.consumer = .loadedRead call r) :
    (∃ slot, s.loadWrite = some { s with consumer := .reading call slot [] }) ↔
      (s.ring.beginRead r s.ring.writePos call.frames).isSome = true := by
  unfold RingState.loadWrite
  rw [h]
  dsimp only
  cases hslot : s.ring.beginRead r s.ring.writePos call.frames with
  | none => simp
  | some slot => exact ⟨fun _ => rfl, fun _ => ⟨slot, rfl⟩⟩

theorem Blockwise.calls (hpos : 0 < F.toNat) (hF : F.toNat ∣ s.ring.slots)
    (h : Blockwise F s.ring.slots s) : BlockCalls F s where
  beginWrite := begin_write_iff hpos hF h.write h.read
  beginRead := begin_read_iff hpos hF h.write h.read
  loadRead := by
    intro call w hp
    have hproducer := h.producer
    rw [hp] at hproducer
    rw [loadRead_grants_iff hp, hproducer.1]
    exact begin_write_iff hpos hF hproducer.2 h.read
  loadWrite := by
    intro call r hc
    have hconsumer := h.consumer
    rw [hc] at hconsumer
    rw [loadWrite_grants_iff hc, hconsumer.1]
    exact begin_read_iff hpos hF h.write hconsumer.2
  starts := h.starts_dvd

end

/-- The sizes that `Audio::open` computes, and the ring it makes of them. -/
structure DeviceSpec.Sized (spec : DeviceSpec) : Prop where
  frameBytes : IsInt spec.frameBytes
  sum : IsInt (spec.frameBytes + 8)
  rounded : IsInt (nextPow2 (sizeT (int (spec.frameBytes + 8)))).toNat
  capacity : IsInt (8 * spec.frameAlignBytes)
  le : spec.frameBytes + 8 ≤ spec.frameAlignBytes
  size : (spec.blockSize.val.toNat : Int) = spec.frameAlignBytes
  accepted : ∀ memory : Nat → UInt8, ∃ b,
    DynamicAudioRingBuffer spec.capacity (some memory) = .ok b ∧
      (b.slots : Int) = 8 * spec.frameAlignBytes
  /-- The header of every block is a `double` aligned to 8 bytes. -/
  aligned : ∀ (memory : Nat → UInt8) b s,
    DynamicAudioRingBuffer spec.capacity (some memory) = .ok b →
    ReachIf RingState.blockStep (fun _ a => a.OfSize spec.blockSize.val) (.start b) s →
    ∀ slot ∈ s.starts, spec.frameAlignBytes ∣ slot ∧ 8 ∣ slot

theorem DeviceSpec.sized (spec : DeviceSpec) : spec.Sized := by
  have hrange := spec.frameBytes_range
  have hlog := spec.blockLog_range
  have hsize := spec.toNat_sizeT_frameAlignBytes
  have hpow : IsInt ((2 ^ spec.blockLog : Nat) : Int) := by
    have h := isInt_pow (n := 1) (by decide) hlog.2
    rwa [Nat.one_mul] at h
  have haccepted : ∀ memory : Nat → UInt8, DynamicAudioRingBuffer spec.capacity (some memory) =
      .ok (StaticAudioRingBuffer spec.ringSize memory) :=
    DynamicAudioRingBuffer_pow2 spec.ringSize
  refine ⟨⟨by omega, by omega⟩, spec.isInt_sum, ?_, spec.isInt_capacity, ?_, ?_, ?_, ?_⟩
  · rw [spec.toNat_nextPow2]
    exact hpow
  · have hle : (spec.frameBytes + 8).toNat ≤ 2 ^ spec.blockLog := Nat.le_pow_clog (by decide) _
    rw [spec.frameAlignBytes_eq]
    omega
  · rw [spec.frameAlignBytes_eq]
    exact congrArg _ hsize
  · intro memory
    refine ⟨_, haccepted memory, ?_⟩
    show ((spec.capacity.toNat : Nat) : Int) = _
    rw [spec.toNat_capacity, spec.frameAlignBytes_eq]
    exact Int.natCast_mul 8 _
  · intro memory b s hb hs slot hslot
    obtain rfl : StaticAudioRingBuffer spec.ringSize memory = b :=
      Except.ok.inj ((haccepted memory).symm.trans hb)
    have hF : spec.blockSize.val.toNat ∣ spec.capacity.toNat := by
      rw [spec.toNat_capacity]
      exact Nat.dvd_mul_left_of_dvd hsize.dvd 8
    have hfresh : FreshRing (StaticAudioRingBuffer spec.ringSize memory) := .inl ⟨_, _, rfl⟩
    have hdvd := (Blockwise.of_reach hfresh hF hs).starts_dvd slot hslot
    have hdvd' : 2 ^ spec.blockLog ∣ slot := hsize ▸ hdvd
    refine ⟨?_, (Nat.pow_dvd_pow 2 (by omega : 3 ≤ spec.blockLog)).trans hdvd'⟩
    rw [spec.frameAlignBytes_eq]
    exact Int.natCast_dvd_natCast.mpr hdvd'

/-- **Audio blocks fit their ring.**  For every device the sizes are computed within `int`, a
block and its header fit in `F`, the constructor accepts the capacity, and the headers are
aligned.  For every ring and every block size that divides its capacity, in every state of
every run of calls of that size: a call succeeds exactly when there is room for a block or a
block is unread, so the end of the buffer never rejects one. -/
theorem audio_blocks_fit (spec : DeviceSpec) {b : AudioRingBuffer W T} {F : Pow2 W}
    {s : RingState W T} (hb : FreshRing b) (hF : F.val.toNat ∣ b.slots)
    (h : ReachIf RingState.blockStep (fun _ a => a.OfSize F.val) (.start b) s) :
    spec.Sized ∧ BlockCalls F.val s ∧ s.ring.slots = b.slots ∧
      (Reach RingState.step (.start b) s → s.ring.availableRead.toNat = s.unread) := by
  have hi := Blockwise.of_reach hb hF h
  have hslots := hi.slots
  refine ⟨spec.sized, ?_, hslots, fun hs => (ringInv_of_reach hb hs).availableRead_eq⟩
  rw [← hslots] at hF hi
  exact hi.calls F.toNat_pos hF

/-- Blocks of 2 in a ring of 8: one is published, then the positions are reset. -/
theorem audio_blocks_fit_stereo :
    ∃ s : RingState 8 Nat, (s.published = [7, 9] ∧ s.unreadBlocks 2 = 1) ∧
      DeviceSpec.Sized ⟨.flt, 2, 1024, by decide, by decide⟩ ∧ BlockCalls 2 s := by
  let b := StaticAudioRingBuffer (W := 8) (T := Nat) ⟨8, by decide, by decide⟩ fun _ => 0
  obtain ⟨s, hs, hp⟩ := reachIf_of_any RingState.blockStep (fun _ a => a.OfSize 2) (.start b)
    [.resetWrite, .resetRead, .ring (.beginWrite (.zeroCopy 2)), .ring .loadRead, .ring (.fill 0 7),
      .ring (.fill 1 9), .ring .endWrite, .ring .storeWrite]
    (fun s => decide (s.published = [7, 9] ∧ s.unreadBlocks 2 = 1))
    (by simp [BlockAct.OfSize, WriteCall.frames]) (by decide)
  have hfit := audio_blocks_fit ⟨.flt, 2, 1024, by decide, by decide⟩ (F := ⟨2, by decide, by decide⟩)
    (.inl ⟨_, _, rfl⟩) (by decide) hs
  exact ⟨s, of_decide_eq_true hp, hfit.1, hfit.2.1⟩

end VideoPlayerCore
