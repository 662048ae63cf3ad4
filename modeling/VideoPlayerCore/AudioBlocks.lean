import VideoPlayerCore.AudioFrames
import VideoPlayerCore.Chunks
import VideoPlayerCore.Machine
import VideoPlayerCore.RingBuffer

/-!
# The blocks of `Audio::_displayThread`

The samples of a frame are copied into blocks of `_spec.samples` samples, behind a header of
8 bytes, and a block is published when it is full or at the end of the stream.

    payloads published ++ samples in the open block ++ rest of the frame
      = samples taken since the last EOF marker                         (BlockWriter.Inv.stream)

Block number `n` since the EOF marker lies in slot `n % 8` of the ring.
-/

namespace VideoPlayerCore

open AudioRingBuffer Chunks Machine Windows

variable {W : Nat}

/-- What is stored in the ring, and where. -/
inductive RingStore
  /-- `begin_write` has succeeded, and the header is stored. -/
  | beginWrite (slot : Nat)
  /-- the `memcpy` -/
  | copy (address len : Nat)
  | endWrite (slot : Nat)
  deriving DecidableEq

/-- The locals `data`, `pts` and `avail`, with the `bps` of the frame. -/
structure Rest where
  /-- whose buffer `data` points into -/
  owner : Nat
  bps : Nat
  data : List UInt8
  pts : Int
  avail : Nat
  /-- samples of the frame that are copied -/
  done : Nat := 0

/-- `data += fillBytes`, `pts += fill` and `avail -= fill` -/
def Rest.advance (rest : Rest) (fill : Nat) : Rest :=
  { rest with
    data := rest.data.drop (fill * rest.bps)
    pts := rest.pts + fill
    avail := rest.avail - fill
    done := rest.done + fill }

/-- `data` holds the samples that are left. -/
structure Rest.Fits (A : AudioSetup W) (rest : Rest) : Prop where
  bps : rest.bps = A.bps
  length : rest.data.length = rest.avail * A.bps

/-- The samples of an iteration and the payloads published for it. -/
structure Iteration where
  samples : List UInt8
  payloads : List (List UInt8)

/-- The channel's ring and the locals `writtenSamples` and `buf`; behind them the logs, which
start again at an EOF marker. -/
structure BlockWriter (W : Nat) where
  ring : AudioRingBuffer W UInt8
  writtenSamples : Nat := 0
  buf : Nat := 0
  samples : List UInt8 := []
  payloads : List (List UInt8) := []
  ended : List Iteration := []
  stores : List RingStore := []

namespace BlockWriter

variable (A : AudioSetup W) (b : BlockWriter W)

def setMemory (mem : Nat → UInt8) : BlockWriter W := { b with ring := { b.ring with buf := mem } }

/-- A frame is taken into the block loop. -/
def accept (data : List UInt8) : BlockWriter W := { b with samples := b.samples ++ data }

/-- `begin_write`, and the header behind it. -/
def beginWrite (header : ℚ) : Option (BlockWriter W) :=
  (b.ring.beginWrite b.ring.writePos b.ring.readPos A.frameAlignBytes).map fun slot =>
    { b.setMemory (write b.ring.buf slot (A.doubleBytes header)) with
      buf := slot
      stores := b.stores ++ [.beginWrite slot] }

/-- `end_write` and `writtenSamples = 0`, in either order. -/
def endWrite : BlockWriter W :=
  let slot := b.ring.writePos.toNat
  { b with
    ring := b.ring.setWrite (b.ring.endWrite b.ring.writePos A.frameAlignBytes)
    writtenSamples := 0
    payloads := b.payloads ++ [read b.ring.buf (slot + 8) A.frameBytes]
    stores := b.stores ++ [.endWrite slot] }

/-- `std::min(_spec.samples - writtenSamples, avail)` -/
def fillOf (rest : Rest) : Nat := min (A.samples - b.writtenSamples) rest.avail

/-- The `memcpy` and `writtenSamples += fill`. -/
def copy (rest : Rest) : BlockWriter W :=
  let bytes := rest.data.take (b.fillOf A rest * rest.bps)
  let address := b.buf + 8 + b.writtenSamples * rest.bps
  { b.setMemory (write b.ring.buf address bytes) with
    writtenSamples := b.writtenSamples + b.fillOf A rest
    stores := b.stores ++ [.copy address bytes.length] }

/-- The end of the body of `while (avail)`. -/
def fill (rest : Rest) : BlockWriter W :=
  let b := b.copy A rest
  if b.writtenSamples = A.samples then b.endWrite A else b

/-- At an EOF marker: the open block is published as it is. -/
def flush : BlockWriter W :=
  let b := if b.writtenSamples = 0 then b else b.endWrite A
  { b with
    samples := []
    payloads := []
    ended := b.ended ++ [{ samples := b.samples, payloads := b.payloads }] }

/-- The three stores of `reset()`. -/
def resetWrite : BlockWriter W := { b with ring := b.ring.setWrite 0 }

def resetRead : BlockWriter W := { b with ring := b.ring.setRead 0 }

def clear : BlockWriter W :=
  b.setMemory fun i => if i < b.ring.slots then 0 else b.ring.buf i

end BlockWriter

/-! ## Slots -/

namespace AudioSetup

variable (A : AudioSetup W)

/-- Where block number `n` begins. -/
def slot (n : Nat) : Nat := n % 8 * A.frameAlignBytes.toNat

theorem slot_add_eight (n : Nat) : A.slot (n + 8) = A.slot n := by
  rw [slot, slot, Nat.add_mod_right]

theorem mul_add_le {n m : Nat} (h : n < m) :
    n * A.frameAlignBytes.toNat + A.frameAlignBytes.toNat ≤ m * A.frameAlignBytes.toNat :=
  calc n * A.frameAlignBytes.toNat + A.frameAlignBytes.toNat
      = (n + 1) * A.frameAlignBytes.toNat := (Nat.succ_mul _ _).symm
    _ ≤ m * A.frameAlignBytes.toNat := Nat.mul_le_mul_right _ h

/-- The next eight blocks lie apart from each other. -/
theorem slot_apart {n m : Nat} (hlt : n < m) (hnear : m < n + 8) :
    A.slot n + A.frameAlignBytes.toNat ≤ A.slot m ∨
      A.slot m + A.frameAlignBytes.toNat ≤ A.slot n := by
  have hne : n % 8 ≠ m % 8 := by omega
  rcases Nat.lt_or_gt_of_ne hne with h | h
  · exact .inl (A.mul_add_le h)
  · exact .inr (A.mul_add_le h)

theorem slot_le (n : Nat) :
    A.slot n + A.frameAlignBytes.toNat ≤ A.capacity.val.toNat := by
  rw [A.capacity_eq]
  exact A.mul_add_le (Nat.mod_lt _ (by omega))

/-- `end_write` leads from one slot to the next. -/
theorem slot_succ {w : BitVec W} {n : Nat} (hw : w.toNat = A.slot n) :
    ((w + A.frameAlignBytes) &&& A.capacity.mask).toNat = A.slot (n + 1) := by
  have hpos := A.frameBytes_le
  have hmod : w.toNat = n * A.frameAlignBytes.toNat % A.capacity.val.toNat := by
    rw [hw, A.capacity_eq, slot, Nat.mul_mod_mul_right]
  rw [A.capacity.add_and_mask hmod, A.capacity_eq, ← Nat.succ_mul, Nat.mul_mod_mul_right]
  rfl

end AudioSetup

/-! ## The stream -/

namespace BlockWriter

variable {A : AudioSetup W} {b b' : BlockWriter W} {bytes : List UInt8} {rest : Rest}

/-- The payloads, the open block and what is left of the frame are the samples taken. -/
structure Stream (A : AudioSetup W) (b : BlockWriter W) (bytes : List UInt8) : Prop where
  cap : b.ring.cap = A.capacity
  writePos : b.ring.writePos.toNat = A.slot b.payloads.length
  cut : Cut A.frameBytes b.payloads
  buf : b.writtenSamples ≠ 0 → b.buf = b.ring.writePos.toNat
  stream : b.payloads.flatten ++
    read b.ring.buf (b.ring.writePos.toNat + 8) (b.writtenSamples * A.bps) ++ bytes = b.samples

/-- Between two passes of the block loop a block that is full is published. -/
structure Inv (A : AudioSetup W) (b : BlockWriter W) (bytes : List UInt8) : Prop
    extends Stream A b bytes where
  written_lt : b.writtenSamples < A.samples

/-- The block begins where `end_write` will publish. -/
theorem beginWrite_eq {header : ℚ} (h : b.beginWrite A header = some b') :
    b' = { b.setMemory (write b.ring.buf b.ring.writePos.toNat (A.doubleBytes header)) with
      buf := b.ring.writePos.toNat
      stores := b.stores ++ [.beginWrite b.ring.writePos.toNat] } := by
  obtain ⟨slot, hslot, rfl⟩ := Option.map_eq_some_iff.mp h
  obtain rfl := beginWrite_slot hslot
  rfl

@[simp] theorem length_endWrite : (b.endWrite A).payloads.length = b.payloads.length + 1 := by
  show (b.payloads ++ [_]).length = _
  rw [List.length_append, List.length_singleton]

@[simp] theorem fill_ended : (b.fill A rest).ended = b.ended := by
  unfold BlockWriter.fill
  dsimp only
  split
  · rfl
  · rfl

@[simp] theorem fill_samples : (b.fill A rest).samples = b.samples := by
  unfold BlockWriter.fill
  dsimp only
  split
  · rfl
  · rfl

theorem beginWrite_ended {header : ℚ} (h : b.beginWrite A header = some b') :
    b'.ended = b.ended := by
  obtain rfl := beginWrite_eq h
  rfl

theorem Stream.accept (h : Stream A b []) : Stream A (b.accept bytes) bytes := by
  obtain ⟨hcap, hpos, hcut, hbuf, hstream⟩ := h
  refine ⟨hcap, hpos, hcut, hbuf, ?_⟩
  rw [List.append_nil] at hstream
  show _ = b.samples ++ bytes
  rw [← hstream]
  rfl

theorem Stream.beginWrite {header : ℚ} (h : Stream A b bytes) (hnone : b.writtenSamples = 0)
    (hs : b.beginWrite A header = some b') :
    Stream A b' bytes ∧ b'.buf = b'.ring.writePos.toNat ∧ b'.writtenSamples = 0 := by
  obtain ⟨hcap, hpos, hcut, hbuf, hstream⟩ := h
  obtain rfl := beginWrite_eq hs
  rw [hnone, Nat.zero_mul, read_zero] at hstream
  refine ⟨⟨hcap, hpos, hcut, fun _ => rfl, ?_⟩, rfl, hnone⟩
  show b.payloads.flatten ++ read _ _ (b.writtenSamples * A.bps) ++ bytes = b.samples
  rw [hnone, Nat.zero_mul, read_zero]
  exact hstream

/-- What the `memcpy` takes of the frame. -/
theorem length_taken (hfits : rest.Fits A) :
    (rest.data.take (b.fillOf A rest * rest.bps)).length = b.fillOf A rest * A.bps := by
  have hle : b.fillOf A rest * A.bps ≤ rest.avail * A.bps :=
    Nat.mul_le_mul_right _ (Nat.min_le_right _ _)
  rw [List.length_take, hfits.bps, hfits.length, Nat.min_eq_left hle]

/-- The open block grows by the samples copied. -/
theorem read_copy (hfits : rest.Fits A) (hbuf : b.buf = b.ring.writePos.toNat) :
    read (b.copy A rest).ring.buf (b.ring.writePos.toNat + 8)
        ((b.copy A rest).writtenSamples * A.bps) =
      read b.ring.buf (b.ring.writePos.toNat + 8) (b.writtenSamples * A.bps) ++
        rest.data.take (b.fillOf A rest * rest.bps) := by
  have hlen : (b.copy A rest).writtenSamples * A.bps = b.writtenSamples * A.bps +
      (rest.data.take (b.fillOf A rest * rest.bps)).length := by
    rw [length_taken hfits, ← Nat.add_mul]
    rfl
  have hmem : (b.copy A rest).ring.buf = write b.ring.buf
      (b.ring.writePos.toNat + 8 + b.writtenSamples * A.bps)
      (rest.data.take (b.fillOf A rest * rest.bps)) := by
    rw [← hbuf, ← hfits.bps]
    rfl
  rw [hlen, hmem, read_write_next]

theorem Stream.copy (h : Stream A b rest.data) (hfits : rest.Fits A)
    (hbuf : b.buf = b.ring.writePos.toNat) :
    Stream A (b.copy A rest) (rest.advance (b.fillOf A rest)).data := by
  obtain ⟨hcap, hpos, hcut, -, hstream⟩ := h
  refine ⟨hcap, hpos, hcut, fun _ => hbuf, ?_⟩
  show b.payloads.flatten ++ read (b.copy A rest).ring.buf (b.ring.writePos.toNat + 8)
    ((b.copy A rest).writtenSamples * A.bps) ++ rest.data.drop (b.fillOf A rest * rest.bps)
      = b.samples
  rw [read_copy hfits hbuf, ← hstream, ← List.append_assoc, List.append_assoc _ (List.take _ _),
    List.take_append_drop]

theorem copy_writtenSamples_le (h : b.writtenSamples < A.samples) :
    (b.copy A rest).writtenSamples ≤ A.samples := by
  have hle : b.fillOf A rest ≤ A.samples - b.writtenSamples := Nat.min_le_left _ _
  show b.writtenSamples + b.fillOf A rest ≤ A.samples
  omega

/-- The next block lies in the next slot. -/
theorem Stream.endWrite_writePos (h : Stream A b bytes) :
    (b.endWrite A).ring.writePos.toNat = A.slot (b.payloads.length + 1) := by
  show ((b.ring.writePos + A.frameAlignBytes) &&& b.ring.cap.mask).toNat = _
  rw [h.cap]
  exact A.slot_succ h.writePos

/-- A full block is published as it is. -/
theorem Stream.endWrite (h : Stream A b bytes) (hfull : b.writtenSamples = A.samples) :
    Inv A (b.endWrite A) bytes := by
  have hstream := h.stream
  have hpos := h.endWrite_writePos
  refine ⟨⟨h.cap, ?_, h.cut.append length_read, fun hne => absurd rfl hne, ?_⟩, A.samples_pos⟩
  · rw [hpos, length_endWrite]
  · show (b.payloads ++ [read b.ring.buf (b.ring.writePos.toNat + 8) A.frameBytes]).flatten ++
      read b.ring.buf ((b.endWrite A).ring.writePos.toNat + 8) (0 * A.bps) ++ bytes = b.samples
    rw [Nat.zero_mul, read_zero, List.append_nil, List.flatten_append, List.flatten_singleton,
      ← hstream, hfull]
    rfl

/-- A pass of the block loop. -/
theorem Inv.fill (h : Inv A b rest.data) (hfits : rest.Fits A)
    (hbuf : b.buf = b.ring.writePos.toNat) :
    Inv A (b.fill A rest) (rest.advance (b.fillOf A rest)).data := by
  have hcopy := h.toStream.copy hfits hbuf
  have hle : (b.copy A rest).writtenSamples ≤ A.samples := copy_writtenSamples_le h.written_lt
  unfold BlockWriter.fill
  dsimp only
  by_cases hfull : (b.copy A rest).writtenSamples = A.samples
  · rw [if_pos hfull]
    exact hcopy.endWrite hfull
  · rw [if_neg hfull]
    exact ⟨hcopy, by omega⟩

theorem fits_advance (hfits : rest.Fits A) : (rest.advance (b.fillOf A rest)).Fits A := by
  refine ⟨hfits.bps, ?_⟩
  show (rest.data.drop (b.fillOf A rest * rest.bps)).length =
    (rest.avail - b.fillOf A rest) * A.bps
  rw [List.length_drop, hfits.length, hfits.bps, Nat.sub_mul]

end BlockWriter

end VideoPlayerCore
