import VideoPlayerCore.Words

/-!
# The ring buffer: positions, slots and what one call decides

`StaticAudioRingBuffer` and `DynamicAudioRingBuffer` have the same methods; they
differ in where the capacity comes from.  Both keep masked positions and one slot
free, so a position is below the capacity and `write_pos_ == read_pos_` is the
empty buffer.  The `size_t` arithmetic is `BitVec W`, whatever the width `W`.

A call is given by what it computes from the positions it has loaded
(`beginWrite`, `endWrite`, `beginRead`, `endRead`); the loads and the stores
themselves are steps of `RingSteps`.
-/

namespace VideoPlayerCore

open Words

/-- The fields of both classes: `cap` is `Capacity` or `cap_`, and its mask is
`MASK` or `mask_`. -/
structure AudioRingBuffer (W : Nat) (T : Type) where
  writePos : BitVec W
  readPos : BitVec W
  cap : Pow2 W
  buf : Nat → T

variable {W : Nat} {T : Type}

/-- A new `StaticAudioRingBuffer<T, Capacity>`; the memory holds anything. -/
def StaticAudioRingBuffer (capacity : Pow2 W) (buf : Nat → T) : AudioRingBuffer W T :=
  { writePos := 0, readPos := 0, cap := capacity, buf := buf }

inductive RingError
  | invalidArgument (what : String)
  | badAlloc
  deriving DecidableEq, Repr

/-- The constructor of `DynamicAudioRingBuffer<T>`; `memory` is what
`aligned_alloc_safe` returns. -/
def DynamicAudioRingBuffer (capacity : BitVec W) (memory : Option (Nat → T)) :
    Except RingError (AudioRingBuffer W T) :=
  if h : capacity = 0 ∨ capacity &&& (capacity - 1) ≠ 0 then
    .error (.invalidArgument "Dynamic capacity must be a positive power of 2")
  else
    match memory with
    | none => .error .badAlloc
    | some buf => .ok
        { writePos := 0, readPos := 0, buf := buf
          cap := ⟨capacity, fun e => h (.inl e), Classical.byContradiction fun e => h (.inr e)⟩ }

theorem DynamicAudioRingBuffer_pow2 (c : Pow2 W) (buf : Nat → T) :
    DynamicAudioRingBuffer c.val (some buf) = .ok (StaticAudioRingBuffer c buf) := by
  have htest : ¬ (c.val = 0 ∨ c.val &&& (c.val - 1) ≠ 0) := by
    rintro (hzero | hand)
    · exact c.ne_zero hzero
    · exact hand c.and_pred
  unfold DynamicAudioRingBuffer
  rw [dif_neg htest]
  rfl

/-- A buffer as its constructor leaves it. -/
def FreshRing (b : AudioRingBuffer W T) : Prop :=
  (∃ capacity buf, b = StaticAudioRingBuffer capacity buf) ∨
  (∃ capacity memory, DynamicAudioRingBuffer capacity memory = .ok b)

namespace AudioRingBuffer

/-- The number of slots. -/
def slots (b : AudioRingBuffer W T) : Nat := b.cap.val.toNat

def availableRead (b : AudioRingBuffer W T) : BitVec W :=
  (b.writePos - b.readPos) &&& b.cap.mask

def availableWrite (b : AudioRingBuffer W T) : BitVec W :=
  (b.readPos - b.writePos - 1) &&& b.cap.mask

/-- `begin_write(frames)` with `w` and `r` loaded: the slot of the returned
pointer, `none` for `nullptr`. -/
def beginWrite (b : AudioRingBuffer W T) (w r frames : BitVec W) : Option Nat :=
  let freeSlots := (r - w - 1) &&& b.cap.mask
  if frames > freeSlots ∨ frames > b.cap.val - w then none else some w.toNat

theorem beginWrite_slot {b : AudioRingBuffer W T} {w r frames : BitVec W} {slot : Nat}
    (h : b.beginWrite w r frames = some slot) : slot = w.toNat := by
  unfold beginWrite at h
  dsimp only at h
  split at h
  · cases h
  · exact (Option.some.inj h).symm

/-- The position `end_write(frames)` stores, with `w` loaded. -/
def endWrite (b : AudioRingBuffer W T) (w frames : BitVec W) : BitVec W :=
  (w + frames) &&& b.cap.mask

/-- `begin_read(frames)` with `r` and `w` loaded. -/
def beginRead (b : AudioRingBuffer W T) (r w frames : BitVec W) : Option Nat :=
  let usedSlots := (w - r) &&& b.cap.mask
  if frames > usedSlots ∨ frames > b.cap.val - r then none else some r.toNat

theorem beginRead_slot {b : AudioRingBuffer W T} {r w frames : BitVec W} {slot : Nat}
    (h : b.beginRead r w frames = some slot) : slot = r.toNat := by
  unfold beginRead at h
  dsimp only at h
  split at h
  · cases h
  · exact (Option.some.inj h).symm

/-- The position `end_read(frames)` stores, with `r` loaded. -/
def endRead (b : AudioRingBuffer W T) (r frames : BitVec W) : BitVec W :=
  (r + frames) &&& b.cap.mask

/-- One element stored through a pointer into `buf_`. -/
def poke (b : AudioRingBuffer W T) (i : Nat) (v : T) : AudioRingBuffer W T :=
  { b with buf := fun j => if j = i then v else b.buf j }

/-- The store of `write_pos_`. -/
def setWrite (b : AudioRingBuffer W T) (w : BitVec W) : AudioRingBuffer W T :=
  { b with writePos := w }

/-- The store of `read_pos_`. -/
def setRead (b : AudioRingBuffer W T) (r : BitVec W) : AudioRingBuffer W T :=
  { b with readPos := r }

/-- `frames` elements from slot `i` on. -/
def window (b : AudioRingBuffer W T) (i : Nat) (frames : BitVec W) : List T :=
  (List.range frames.toNat).map fun j => b.buf (i + j)

@[simp] theorem poke_writePos (b : AudioRingBuffer W T) (i : Nat) (v : T) :
    (b.poke i v).writePos = b.writePos := rfl

@[simp] theorem poke_readPos (b : AudioRingBuffer W T) (i : Nat) (v : T) :
    (b.poke i v).readPos = b.readPos := rfl

@[simp] theorem poke_slots (b : AudioRingBuffer W T) (i : Nat) (v : T) :
    (b.poke i v).slots = b.slots := rfl

@[simp] theorem setWrite_writePos (b : AudioRingBuffer W T) (w : BitVec W) :
    (b.setWrite w).writePos = w := rfl

@[simp] theorem setWrite_readPos (b : AudioRingBuffer W T) (w : BitVec W) :
    (b.setWrite w).readPos = b.readPos := rfl

@[simp] theorem setWrite_slots (b : AudioRingBuffer W T) (w : BitVec W) :
    (b.setWrite w).slots = b.slots := rfl

@[simp] theorem setRead_writePos (b : AudioRingBuffer W T) (r : BitVec W) :
    (b.setRead r).writePos = b.writePos := rfl

@[simp] theorem setRead_readPos (b : AudioRingBuffer W T) (r : BitVec W) :
    (b.setRead r).readPos = r := rfl

@[simp] theorem setRead_slots (b : AudioRingBuffer W T) (r : BitVec W) :
    (b.setRead r).slots = b.slots := rfl

theorem poke_buf_self (b : AudioRingBuffer W T) (i : Nat) (v : T) : (b.poke i v).buf i = v :=
  if_pos rfl

theorem poke_buf_ne (b : AudioRingBuffer W T) {i j : Nat} (v : T) (h : j ≠ i) :
    (b.poke i v).buf j = b.buf j :=
  if_neg h

@[simp] theorem window_length (b : AudioRingBuffer W T) (i : Nat) (frames : BitVec W) :
    (b.window i frames).length = frames.toNat := by
  simp [window]

theorem window_getElem (b : AudioRingBuffer W T) (i : Nat) (frames : BitVec W) (j : Nat)
    (h : j < (b.window i frames).length) : (b.window i frames)[j] = b.buf (i + j) := by
  simp [window]

/-! ## Positions as counters

`p` elements have been published and `o` of them consumed; the positions are the
counters modulo the capacity and at most `slots - 1` elements are unread. -/

/-- The positions of `b` stand for the counters `p` and `o`. -/
structure Counts (b : AudioRingBuffer W T) (p o : Nat) : Prop where
  write : b.writePos.toNat = p % b.slots
  read : b.readPos.toNat = o % b.slots
  le : o ≤ p
  lt : p < o + b.slots

section Counts
variable {b : AudioRingBuffer W T} {p o : Nat} (h : b.Counts p o)
include h

theorem Counts.write_lt : b.writePos.toNat < b.slots := by
  rw [h.write]
  exact Nat.mod_lt _ b.cap.toNat_pos

theorem Counts.read_lt : b.readPos.toNat < b.slots := by
  rw [h.read]
  exact Nat.mod_lt _ b.cap.toNat_pos

/-- Publishing `frames` moves `write_pos_` from the counter `p` to `p + frames`. -/
theorem Counts.publish {frames : BitVec W} (hroom : p + frames.toNat < o + b.slots) :
    (b.setWrite (b.endWrite b.writePos frames)).Counts (p + frames.toNat) o :=
  ⟨b.cap.add_and_mask h.write frames, h.read, h.le.trans (Nat.le_add_right _ _), hroom⟩

/-- Consuming `frames` moves `read_pos_` from the counter `o` to `o + frames`. -/
theorem Counts.consume {frames : BitVec W} (hunread : o + frames.toNat ≤ p) :
    (b.setRead (b.endRead b.readPos frames)).Counts p (o + frames.toNat) :=
  ⟨h.write, b.cap.add_and_mask h.read frames, hunread,
    h.lt.trans_le (Nat.add_le_add_right (Nat.le_add_right _ _) _)⟩

theorem Counts.availableRead : b.availableRead.toNat = p - o :=
  b.cap.sub_and_mask h.write h.read h.le h.lt

theorem Counts.availableWrite : b.availableWrite.toNat = b.slots - 1 - (p - o) :=
  b.cap.gap_and_mask h.write h.read h.le h.lt

/-- `begin_write` succeeds where there is room in one piece. -/
theorem Counts.beginWrite_eq_some {frames : BitVec W} {i : Nat} :
    b.beginWrite b.writePos b.readPos frames = some i ↔
      i = b.writePos.toNat ∧ i + frames.toNat ≤ b.slots ∧ p + frames.toNat < o + b.slots := by
  have hfree := h.availableWrite
  have hw := h.write_lt
  have hle := h.le
  have hlt := h.lt
  have hend : (b.cap.val - b.writePos).toNat = b.slots - b.writePos.toNat :=
    BitVec.toNat_sub_of_le hw.le
  simp only [AudioRingBuffer.availableWrite] at hfree
  simp only [beginWrite, gt_iff_lt, BitVec.lt_def, hfree, hend, Option.ite_none_left_eq_some,
    Option.some.injEq]
  constructor
  · rintro ⟨hn, rfl⟩
    exact ⟨rfl, by omega, by omega⟩
  · rintro ⟨rfl, h1, h2⟩
    exact ⟨by omega, rfl⟩

/-- `begin_read` succeeds where enough is unread in one piece. -/
theorem Counts.beginRead_eq_some {frames : BitVec W} {i : Nat} :
    b.beginRead b.readPos b.writePos frames = some i ↔
      i = b.readPos.toNat ∧ i + frames.toNat ≤ b.slots ∧ o + frames.toNat ≤ p := by
  have hused := h.availableRead
  have hr := h.read_lt
  have hle := h.le
  have hend : (b.cap.val - b.readPos).toNat = b.slots - b.readPos.toNat :=
    BitVec.toNat_sub_of_le hr.le
  simp only [AudioRingBuffer.availableRead] at hused
  simp only [beginRead, gt_iff_lt, BitVec.lt_def, hused, hend, Option.ite_none_left_eq_some,
    Option.some.injEq]
  constructor
  · rintro ⟨hn, rfl⟩
    exact ⟨rfl, by omega, by omega⟩
  · rintro ⟨rfl, h1, h2⟩
    exact ⟨by omega, rfl⟩

end Counts

/-- A contiguous window at `p % slots` holds the slots of the counters `p, p + 1, …`. -/
theorem add_mod_slots {n i p j : Nat} (hi : i = p % n) (hn : i + j < n) : (p + j) % n = i + j := by
  have hj : j < n := by omega
  rw [Nat.add_mod, ← hi, Nat.mod_eq_of_lt hj, Nat.mod_eq_of_lt hn]

/-- Counters less than a capacity apart have different slots. -/
theorem mod_ne_mod {n k m : Nat} (h1 : k < m) (h2 : m < k + n) : k % n ≠ m % n := by
  intro h
  have hd : n ∣ m - k := (Nat.modEq_iff_dvd' h1.le).mp h
  have := Nat.le_of_dvd (by omega) hd
  omega

end AudioRingBuffer

theorem FreshRing.counts {b : AudioRingBuffer W T} (h : FreshRing b) : b.Counts 0 0 := by
  have hpos := b.cap.toNat_pos
  obtain ⟨capacity, buf, rfl⟩ | ⟨capacity, memory, hb⟩ := h
  · exact ⟨by simp [StaticAudioRingBuffer], by simp [StaticAudioRingBuffer], le_rfl,
      by simpa [AudioRingBuffer.slots] using hpos⟩
  · unfold DynamicAudioRingBuffer at hb
    split at hb
    · cases hb
    · cases memory with
      | none => cases hb
      | some buf =>
        cases hb
        exact ⟨by simp, by simp, le_rfl, by simpa [AudioRingBuffer.slots] using hpos⟩

end VideoPlayerCore
