import VideoPlayerCore.AudioChunks
import VideoPlayerCore.SlotQueues

/-!
# The channel between the display thread and the callback

A `PathRun` is an `AudioThread` with what `updateAudioPts` and `SDL_MixAudioFormat` get.  The
ring behind it is a queue of blocks, each with its header in front (`BlockWriter.Queued`): what
is stored goes into the next block, `end_write` puts that one into the queue, and `begin_read`
gives the first one.
-/

namespace VideoPlayerCore

open AudioRingBuffer BlockWriter Machine SlotQueues Windows

variable {W : Nat}

/-- The payloads of all iterations. -/
def BlockWriter.allPayloads (b : BlockWriter W) : List (List UInt8) :=
  b.ended.flatMap Iteration.payloads ++ b.payloads

/-- The bytes of a block, the header in front. -/
def AudioSetup.blockBytes (A : AudioSetup W) (header : BlockHeader) (payload : List UInt8) :
    List UInt8 :=
  A.doubleBytes header.value ++ payload

/-- Between the two stores of positions in `reset()`. -/
def DisplayPc.midReset : DisplayPc → Bool
  | .resetRead => true
  | _ => false

/-- In `reset()`, or behind it and before `_onEof()`. -/
def DisplayPc.resetting : DisplayPc → Bool
  | .resetWrite | .resetRead | .clearing => true
  | _ => false

namespace AudioThread

variable (A : AudioSetup W) (s : AudioThread W)

/-- The blocks that were published. -/
def published : List (List UInt8) :=
  List.zipWith A.blockBytes s.headers s.blocks.allPayloads

/-- What `updateAudioPts` and `SDL_MixAudioFormat` get in a step, in one piece. -/
def mixedBlock : AudioThreadAct → Option (List UInt8)
  | .callback _ =>
    match s.callback with
    | .mixing slot => some (read s.blocks.ring.buf slot (8 + A.frameBytes))
    | _ => none
  | _ => none

end AudioThread

structure PathRun (W : Nat) where
  thread : AudioThread W
  mixed : List (List UInt8) := []

namespace PathRun

def step (A : AudioSetup W) (s : PathRun W) (a : AudioThreadAct) : Option (PathRun W) :=
  (s.thread.step A a).map fun thread =>
    { thread := thread, mixed := s.mixed ++ (s.thread.mixedBlock A a).toList }

/-- `begin_read` decides from the positions of a queue: `read_pos_` is not stored between the
two loads, and `reset()` is not between its two stores. -/
def Whole (s : PathRun W) : AudioThreadAct → Prop
  | .callback _ =>
    match s.thread.callback with
    | .loaded r => r = s.thread.blocks.ring.readPos ∧ s.thread.pc.midReset = false
    | _ => True
  | _ => True

end PathRun

/-! ## The ring as a queue of blocks -/

variable {A : AudioSetup W}

namespace BlockWriter

variable {b : BlockWriter W} {k : Nat} {unplayed : List (List UInt8)} {bytes : List UInt8}
  {rest : Rest}

/-- The blocks from number `k` on are in the ring. -/
structure Queued (A : AudioSetup W) (b : BlockWriter W) (k : Nat)
    (unplayed : List (List UInt8)) : Prop where
  cap : b.ring.cap = A.capacity
  counts : b.ring.Counts ((k + unplayed.length) * A.frameAlignBytes.toNat)
    (k * A.frameAlignBytes.toNat)
  blocks : Holds b.ring.buf A.slot (8 + A.frameBytes) k unplayed

namespace Queued

theorem slots (h : Queued A b k unplayed) : b.ring.slots = 8 * A.frameAlignBytes.toNat := by
  show b.ring.cap.val.toNat = _
  rw [h.cap, A.capacity_eq]

theorem writePos (h : Queued A b k unplayed) :
    b.ring.writePos.toNat = A.slot (k + unplayed.length) := by
  rw [h.counts.write, h.slots, Nat.mul_mod_mul_right]
  rfl

theorem readPos (h : Queued A b k unplayed) : b.ring.readPos.toNat = A.slot k := by
  rw [h.counts.read, h.slots, Nat.mul_mod_mul_right]
  rfl

theorem length_lt (h : Queued A b k unplayed) : unplayed.length < 8 := by
  have hlt := h.counts.lt
  rw [h.slots, ← Nat.add_mul] at hlt
  have hless := Nat.lt_of_mul_lt_mul_right hlt
  omega

/-- What is stored in the next block lies apart from those in the ring. -/
theorem write (h : Queued A b k unplayed) {i : Nat} {xs : List UInt8}
    (hlo : b.ring.writePos.toNat ≤ i)
    (hhi : i + xs.length ≤ b.ring.writePos.toNat + A.frameAlignBytes.toNat) :
    Queued A (b.setMemory (Windows.write b.ring.buf i xs)) k unplayed := by
  refine ⟨h.cap, ⟨h.counts.write, h.counts.read, h.counts.le, h.counts.lt⟩, ?_⟩
  refine h.blocks.write fun j hj => ?_
  have hlen := h.length_lt
  have hbytes := A.frameBytes_le
  have hpos := h.writePos
  rcases A.slot_apart (n := k + j) (m := k + unplayed.length) (by omega) (by omega)
    with hbefore | hbehind
  · left
    omega
  · right
    omega

/-- Only the ring matters. -/
theorem congr {b' : BlockWriter W} (h : Queued A b k unplayed) (hring : b'.ring = b.ring) :
    Queued A b' k unplayed := by
  obtain ⟨hcap, hcounts, hblocks⟩ := h
  rw [← hring] at hcap hcounts hblocks
  exact ⟨hcap, hcounts, hblocks⟩

theorem endWrite (h : Queued A b k unplayed) (hroom : unplayed.length < 7) {header : BlockHeader}
    (hheader : read b.ring.buf b.ring.writePos.toNat 8 = A.doubleBytes header.value) :
    Queued A (b.endWrite A) k (unplayed ++ [A.blockBytes header
      (read b.ring.buf (b.ring.writePos.toNat + 8) A.frameBytes)]) := by
  have hpos := frameAlignBytes_pos A
  have hfree : (k + unplayed.length) * A.frameAlignBytes.toNat + A.frameAlignBytes.toNat <
      k * A.frameAlignBytes.toNat + b.ring.slots := by
    rw [h.slots, ← Nat.succ_mul, ← Nat.add_mul]
    exact Nat.mul_lt_mul_of_pos_right (by omega) hpos
  refine ⟨h.cap, ?_, h.blocks.concat ?_⟩
  · rw [List.length_append, List.length_singleton, ← Nat.add_assoc, Nat.succ_mul]
    exact h.counts.publish hfree
  · rw [← h.writePos, read_add, hheader]
    rfl

theorem consume {x : List UInt8} (h : Queued A b k (x :: unplayed)) :
    Queued A (b.consume (b.ring.endRead b.ring.readPos A.frameAlignBytes)) (k + 1) unplayed := by
  have hunread : k * A.frameAlignBytes.toNat + A.frameAlignBytes.toNat ≤
      (k + (x :: unplayed).length) * A.frameAlignBytes.toNat := by
    rw [← Nat.succ_mul]
    exact Nat.mul_le_mul_right _ (by rw [List.length_cons]; omega)
  refine ⟨h.cap, ?_, h.blocks.tail⟩
  have hcounts := h.counts.consume hunread
  rw [List.length_cons, ← Nat.succ_mul, ← Nat.add_assoc, Nat.add_right_comm] at hcounts
  exact hcounts

/-- `begin_read` gives the first block. -/
theorem beginRead (h : Queued A b k unplayed) {slot : Nat}
    (hs : b.ring.beginRead b.ring.readPos b.ring.writePos A.frameAlignBytes = some slot) :
    slot = A.slot k ∧ unplayed ≠ [] := by
  obtain ⟨hslot, -, hunread⟩ := h.counts.beginRead_eq_some.mp hs
  refine ⟨hslot.trans h.readPos, ?_⟩
  rintro rfl
  have hpos := frameAlignBytes_pos A
  rw [List.length_nil, Nat.add_zero] at hunread
  omega

theorem availableRead (h : Queued A b k unplayed) (hs : b.ring.availableRead = 0) :
    unplayed = [] := by
  have hcount := h.counts.availableRead
  have hpos := frameAlignBytes_pos A
  rw [hs, ← Nat.sub_mul, Nat.add_sub_cancel_left] at hcount
  have hzero : unplayed.length * A.frameAlignBytes.toNat = 0 := by
    rw [← hcount]
    rfl
  rcases Nat.mul_eq_zero.mp hzero with hnil | hnone
  · exact List.length_eq_zero_iff.mp hnil
  · omega

/-- `begin_write` finds room for a block. -/
theorem beginWrite (h : Queued A b k unplayed) {header : ℚ} {b' : BlockWriter W}
    (hs : b.beginWrite A header = some b') : unplayed.length < 7 := by
  obtain ⟨slot, hslot, -⟩ := Option.map_eq_some_iff.mp hs
  obtain ⟨-, -, hroom⟩ := h.counts.beginWrite_eq_some.mp hslot
  rw [h.slots, ← Nat.succ_mul, ← Nat.add_mul] at hroom
  have hless := Nat.lt_of_mul_lt_mul_right hroom
  omega

/-- The positions that `reset()` leaves. -/
theorem reset (hcap : b.ring.cap = A.capacity) (hpos : b.ring.writePos = 0) :
    Queued A b.resetRead 0 [] := by
  have hslots : 0 < b.ring.slots := b.ring.cap.toNat_pos
  refine ⟨hcap, ⟨?_, ?_, Nat.le_refl _, ?_⟩, holds_nil⟩
  · show b.ring.writePos.toNat = _
    rw [hpos]
    simp
  · show (0 : BitVec W).toNat = _
    simp
  · have hsame : b.resetRead.ring.slots = b.ring.slots := rfl
    simpa [hsame] using hslots

/-- The `memcpy` stores behind the header of the next block. -/
theorem copy (h : Queued A b k unplayed) (hwritten : b.writtenSamples < A.samples)
    (hfits : rest.Fits A) (hbuf : b.buf = b.ring.writePos.toNat) :
    Queued A (b.copy A rest) k unplayed ∧
      read (b.copy A rest).ring.buf b.ring.writePos.toNat 8 =
        read b.ring.buf b.ring.writePos.toNat 8 := by
  have hlen := length_taken (b := b) hfits
  have hle : (b.copy A rest).writtenSamples * A.bps ≤ A.frameBytes :=
    Nat.mul_le_mul_right _ (copy_writtenSamples_le hwritten)
  have hsum : b.writtenSamples * A.bps + b.fillOf A rest * A.bps =
      (b.copy A rest).writtenSamples * A.bps := (Nat.add_mul _ _ _).symm
  have hbytes := A.frameBytes_le
  have hstore : b.buf + 8 + b.writtenSamples * rest.bps =
      b.ring.writePos.toNat + 8 + b.writtenSamples * A.bps := by
    rw [hbuf, hfits.bps]
  constructor
  · have hstored : Queued A (b.setMemory (Windows.write b.ring.buf
        (b.buf + 8 + b.writtenSamples * rest.bps)
        (rest.data.take (b.fillOf A rest * rest.bps)))) k unplayed := by
      apply h.write
      · omega
      · rw [hlen]
        omega
    exact hstored.congr rfl
  · refine read_write_apart (.inr ?_)
    omega

end Queued

@[simp] theorem allPayloads_endWrite : (b.endWrite A).allPayloads =
    b.allPayloads ++ [read b.ring.buf (b.ring.writePos.toNat + 8) A.frameBytes] :=
  (List.append_assoc _ _ _).symm

theorem allPayloads_flush : (b.flush A).allPayloads =
    (if b.writtenSamples = 0 then b else b.endWrite A).allPayloads := by
  unfold flush allPayloads
  dsimp only
  rw [List.append_nil, List.flatMap_append, List.flatMap_singleton]

end BlockWriter

end VideoPlayerCore
