import VideoPlayerCore.LogFolder

/-!
# The bounds of the log buffer

The counters of `_buffer` alone, as numbers that may get below 0, with the conversions to
`int`, and with every store through a pointer into `_buffer`.  Whether log.txt is open, and
what `fwrite` accepts, is left open.

`_bufferCapacity - _bufferSize` is the room: a reservation of `len` bytes takes `len` of it,
or leaves `len` where there was less (`grow`).

    a step stays in bounds ↔ Spare s a                                     (step_bounded_iff)

The second `vsnprintf` writes behind the first 512 bytes of its message, though the message
was reserved from their beginning: it needs 509 bytes of room and the 4 spare ones.
-/

namespace VideoPlayerCore

open Machine

/-! ## The counters -/

inductive BufferEvent
  /-- the counters changed -/
  | counters (bufferSize bufferCapacity : Int)
  /-- `count` bytes are stored from index `first` on, into a block of `size` -/
  | store (first count size : Int)
  deriving DecidableEq

def BufferEvent.Sound : BufferEvent → Prop
  | .counters bufferSize bufferCapacity => 0 ≤ bufferSize ∧ bufferSize ≤ bufferCapacity
  | .store first count size => count = 0 ∨ 0 ≤ first ∧ first + count ≤ size

structure BufferCounters where
  bufferSize : Int := 0
  bufferCapacity : Int := 0
  /-- `_buffer` is not `NULL` -/
  allocated : Bool := false
  logLevel : Int := 4
  exited : Bool := false
  events : List BufferEvent := []
  deriving DecidableEq

namespace BufferCounters

def noted (s : BufferCounters) : BufferCounters :=
  { s with events := s.events ++ [.counters s.bufferSize s.bufferCapacity] }

/-- `getBuffer(len)` -/
def getBuffer (s : BufferCounters) (len : Int) : BufferCounters × Int :=
  let leftSize := s.bufferCapacity - s.bufferSize
  let s :=
    if leftSize < len then
      { s with bufferCapacity := s.bufferCapacity + len * 2 - leftSize, allocated := true }
    else s
  ({ s with bufferSize := s.bufferSize + len }.noted, s.bufferSize)

/-- `returnBuffer(len)`; `len` is an `int`. -/
def returnBuffer (s : BufferCounters) (len : Int) : BufferCounters :=
  { s with bufferSize := s.bufferSize - int len }.noted

/-- A store through a pointer into `_buffer`, a block of `_bufferCapacity + 4` bytes. -/
def put (s : BufferCounters) (first count : Int) : BufferCounters :=
  { s with events := s.events ++ [.store first count (s.bufferCapacity + 4)] }

/-- `pushToBuffer` -/
def pushToBuffer (s : BufferCounters) (len : Int) : BufferCounters :=
  let (s, buf) := s.getBuffer len
  s.put buf len

/-- `vsnprintf` of a text of `n` bytes: at most `size - 1` of them and the terminator -/
def vsnprintf (s : BufferCounters) (buf size n : Int) : BufferCounters :=
  s.put buf (min (size - 1) n + 1)

/-- `total_len += len; pushToBuffer(.., len);` -/
def push (st : BufferCounters × Int) (len : Nat) : BufferCounters × Int :=
  (st.1.pushToBuffer len, st.2 + len)

/-- The message, of `ret` bytes; the second pass is taken to store as many. -/
def pushText (st : BufferCounters × Int) (ret : Nat) : BufferCounters × Int :=
  let (s, buf) := st.1.getBuffer 512
  let s := s.vsnprintf buf 512 ret
  if ret ≤ 512 then (s.returnBuffer (512 - ret), st.2 + ret)
  else
    let (s, buf) := s.getBuffer (ret - 512)
    (s.vsnprintf buf (ret + 1) ret, st.2 + ret)

end BufferCounters

/-- How long the pieces in front of the message are: time, label, file, line, thread and
function, and what stands between them. -/
def LogCall.header (c : LogCall) : List Nat :=
  [c.time.length, 1, c.label.length, 1, c.file.length, 1, (decimal c.line).length, 1, 1,
    (decimal c.threadId).length, 2, c.funcName.length, 1]

namespace BufferCounters

/-- The record is appended; the result is `total_len`. -/
def append (s : BufferCounters) (c : LogCall) : BufferCounters × Int :=
  push (pushText (c.header.foldl push (s, 0)) c.text.length) 2

/-- The branch for a level that is not to be logged. -/
def takeBack (s : BufferCounters) (totalLen : Int) : BufferCounters :=
  let (s, buf) := s.getBuffer 0
  let logStr := buf - totalLen
  (s.put (logStr + totalLen) 1).returnBuffer totalLen

/-- The loop of `fwrite` calls, from call `k` on: `_bufferSize` after it. -/
def writeLoop (accepts : Nat → Nat) : Nat → Nat → Int → Int
  | 0, _, bufferSize => bufferSize
  | fuel + 1, k, bufferSize =>
    let ret := int (min (accepts k) bufferSize)
    if ret ≤ 0 then bufferSize
    else if bufferSize - ret = 0 then 0
    else writeLoop accepts fuel (k + 1) (bufferSize - ret)

def flushBuffer (s : BufferCounters) (isOpen : Bool) (accepts : Nat → Nat) : BufferCounters :=
  if s.allocated ∧ 0 < s.bufferSize then
    if isOpen then
      let s := s.put s.bufferSize 1
      { s with bufferSize := writeLoop accepts s.bufferSize.toNat 0 s.bufferSize }.noted
    else s
  else s

/-- `_log` -/
def log (s : BufferCounters) (c : LogCall) (isOpen : Bool) (accepts : Nat → Nat) :
    BufferCounters :=
  let (s, totalLen) := s.append c
  if c.level ≤ s.logLevel then
    if c.level ≤ 3 then
      let s := s.flushBuffer isOpen accepts
      if c.level = 0 then { s with exited := true } else s
    else s
  else s.takeBack totalLen

end BufferCounters

inductive BufferAct
  | log (c : LogCall) (isOpen : Bool) (accepts : Nat → Nat)
  | flush (isOpen : Bool) (accepts : Nat → Nat)
  /-- `LOG_CONFIG` -/
  | config (logLevel : Int)

/-- `vsnprintf` returns an `int`. -/
def BufferCounters.step (s : BufferCounters) (a : BufferAct) : Option BufferCounters :=
  if s.exited then none
  else
    match a with
    | .log c isOpen accepts =>
      if c.text.length < 2 ^ 31 then some (s.log c isOpen accepts) else none
    | .flush isOpen accepts => some (s.flushBuffer isOpen accepts)
    | .config logLevel => some { s with logLevel := logLevel }

/-! ## The room -/

/-- What a reservation of `len` bytes leaves of the room. -/
def grow (room len : Int) : Int := if room < len then len else room - len

/-- The room behind the header. -/
def headerRoom (room : Int) (lens : List Nat) : Int :=
  lens.foldl (fun room len => grow room len) room

/-- The room behind the message and what is returned of its reservation. -/
def textRoom (room : Int) (n : Nat) : Int :=
  if n ≤ 512 then grow room 512 + (512 - n) else grow (grow room 512) (n - 512)

theorem grow_nonneg (room : Int) {len : Int} (hlen : 0 ≤ len) : 0 ≤ grow room len := by
  unfold grow
  split <;> omega

namespace BufferCounters

variable {s t : BufferCounters} {a : BufferAct} {room : Int} {p : Prop}

/-- The counters are in range. -/
def InRange (s : BufferCounters) : Prop := 0 ≤ s.bufferSize ∧ s.bufferSize ≤ s.bufferCapacity

/-- They are now, and they and all stores were so far. -/
def Bounded (s : BufferCounters) : Prop := s.InRange ∧ ∀ ev ∈ s.events, ev.Sound

/-- From `s` to `t` the buffer grew by `len` bytes and has `room` left; what happened was
sound if and only if `p` holds. -/
structure Grows (s t : BufferCounters) (len room : Int) (p : Prop) : Prop where
  inRange : t.InRange
  size : t.bufferSize = s.bufferSize + len
  room : t.bufferCapacity = t.bufferSize + room
  events : (∀ ev ∈ t.events, ev.Sound) ↔ (∀ ev ∈ s.events, ev.Sound) ∧ p
  same : t.logLevel = s.logLevel ∧ t.exited = s.exited

theorem events_concat {events : List BufferEvent} {ev : BufferEvent} :
    (∀ e ∈ events ++ [ev], e.Sound) ↔ (∀ e ∈ events, e.Sound) ∧ ev.Sound := by
  rw [List.forall_mem_append, List.forall_mem_singleton]

theorem Grows.refl (h : s.InRange) : Grows s s 0 (s.bufferCapacity - s.bufferSize) True where
  inRange := h
  size := (Int.add_zero _).symm
  room := by omega
  events := (and_iff_left trivial).symm
  same := ⟨rfl, rfl⟩

variable {len : Int} {st : BufferCounters × Int}

/-- New counters, still in range. -/
theorem Grows.noted {u : BufferCounters} {len' room' : Int} (h : Grows s t len room p)
    (hrange : u.InRange) (hsize : u.bufferSize = s.bufferSize + len')
    (hroom : u.bufferCapacity = u.bufferSize + room') (hevents : u.events = t.events)
    (hsame : u.logLevel = t.logLevel ∧ u.exited = t.exited) :
    Grows s u.noted len' room' p where
  inRange := hrange
  size := hsize
  room := hroom
  events := by
    unfold BufferCounters.noted
    rw [events_concat, hevents, h.events]
    exact and_iff_left hrange
  same := ⟨hsame.1.trans h.same.1, hsame.2.trans h.same.2⟩

/-- A reservation. -/
theorem Grows.getBuffer (h : Grows s t len room p) {more : Int} (hmore : 0 ≤ more) :
    Grows s (t.getBuffer more).1 (len + more) (grow room more) p ∧
      (t.getBuffer more).2 = t.bufferSize := by
  obtain ⟨hpos, hle⟩ := h.inRange
  have hsize := h.size
  have hroom := h.room
  have hleft : t.bufferCapacity - t.bufferSize = room := by omega
  unfold BufferCounters.getBuffer grow
  dsimp only
  rw [hleft]
  split
  · refine ⟨h.noted ⟨?_, ?_⟩ ?_ ?_ rfl ⟨rfl, rfl⟩, rfl⟩ <;> dsimp only <;> omega
  · refine ⟨h.noted ⟨?_, ?_⟩ ?_ ?_ rfl ⟨rfl, rfl⟩, rfl⟩ <;> dsimp only <;> omega

/-- What is returned was reserved before. -/
theorem Grows.returnBuffer (h : Grows s t len room p) {back : Int} (hint : IsInt back)
    (h0 : 0 ≤ back) (hle : back ≤ t.bufferSize) :
    Grows s (t.returnBuffer back) (len - back) (room + back) p := by
  obtain ⟨hpos, hcap⟩ := h.inRange
  have hsize := h.size
  have hroom := h.room
  unfold BufferCounters.returnBuffer
  rw [hint.int_eq]
  refine h.noted ⟨?_, ?_⟩ ?_ ?_ rfl ⟨rfl, rfl⟩ <;> dsimp only <;> omega

theorem Grows.put (h : Grows s t len room p) (first count : Int) :
    Grows s (t.put first count) len room
      (p ∧ (count = 0 ∨ 0 ≤ first ∧ first + count ≤ t.bufferCapacity + 4)) :=
  ⟨h.inRange, h.size, h.room, by
    unfold BufferCounters.put
    rw [events_concat, h.events, and_assoc]
    rfl, h.same⟩

theorem Grows.congr {q : Prop} (h : Grows s t len room p) (hiff : p ↔ q) :
    Grows s t len room q :=
  ⟨h.inRange, h.size, h.room, by rw [h.events, hiff], h.same⟩

/-- A store that is sound for sure. -/
theorem Grows.put_sound (h : Grows s t len room p) {first count : Int} (h0 : 0 ≤ first)
    (hend : first + count ≤ t.bufferCapacity + 4) : Grows s (t.put first count) len room p :=
  (h.put first count).congr (and_iff_left (.inr ⟨h0, hend⟩))

theorem Grows.push (h : Grows s st.1 len room p) (n : Nat) :
    Grows s (push st n).1 (len + n) (grow room n) p := by
  obtain ⟨hgot, hbuf⟩ := h.getBuffer (Int.natCast_nonneg n)
  have hsize := hgot.size
  have hold := h.size
  have hpos := h.inRange.1
  have hin := hgot.inRange.2
  unfold BufferCounters.push pushToBuffer
  dsimp only
  rw [hbuf]
  exact hgot.put_sound hpos (by omega)

/-- The pieces of the header. -/
theorem Grows.pushes (h : Grows s st.1 len room p) (lens : List Nat) :
    Grows s (lens.foldl BufferCounters.push st).1 (len + (lens.sum : Nat))
        (headerRoom room lens) p ∧
      (lens.foldl BufferCounters.push st).2 = st.2 + (lens.sum : Nat) := by
  induction lens generalizing st len room with
  | nil => exact ⟨by simpa [headerRoom] using h, by simp⟩
  | cons n lens ih =>
    obtain ⟨hgrows, htotal⟩ := ih (h.push n)
    rw [List.foldl_cons, List.sum_cons]
    refine ⟨?_, ?_⟩
    · have hlen : len + ((n + lens.sum : Nat) : Int) = len + n + (lens.sum : Nat) := by omega
      rw [hlen]
      exact hgrows
    · rw [Int.natCast_add, ← Int.add_assoc]
      exact htotal

/-- The message: its second formatting needs 509 bytes of room behind it. -/
theorem Grows.pushText (h : Grows s st.1 len room p) (n : Nat) :
    Grows s (pushText st n).1 (len + n) (textRoom room n)
      (p ∧ (512 < n → 509 ≤ textRoom room n)) := by
  obtain ⟨hgot, hbuf⟩ := h.getBuffer (by decide : (0 : Int) ≤ 512)
  obtain ⟨hpos, -⟩ := h.inRange
  have hold := h.size
  have hsize := hgot.size
  have hroom := hgot.room
  have hnonneg := grow_nonneg room (by decide : (0 : Int) ≤ 512)
  have hfirst : Grows s ((st.1.getBuffer 512).1.vsnprintf st.1.bufferSize 512 n) (len + 512)
      (grow room 512) p := hgot.put_sound hpos (by omega)
  have hfilled : ((st.1.getBuffer 512).1.vsnprintf st.1.bufferSize 512 n).bufferSize =
      st.1.bufferSize + 512 := by
    have := hfirst.size
    omega
  unfold BufferCounters.pushText textRoom
  dsimp only
  rw [hbuf]
  by_cases hshort : n ≤ 512
  · have hlen : len + 512 - (512 - (n : Int)) = len + n := by omega
    have hint : IsInt (512 - (n : Int)) := ⟨by omega, by omega⟩
    have hback := hfirst.returnBuffer hint (by omega) (by omega)
    rw [hlen] at hback
    rw [if_pos hshort, if_pos hshort]
    exact hback.congr (and_iff_left fun hlong => absurd hlong (Nat.not_lt.mpr hshort)).symm
  · obtain ⟨hmore, hbuf'⟩ := hfirst.getBuffer (by omega : (0 : Int) ≤ n - 512)
    have hlen : len + 512 + ((n : Int) - 512) = len + n := by omega
    have hsize' := hmore.size
    have hroom' := hmore.room
    rw [hlen] at hmore
    rw [if_neg hshort, if_neg hshort, hbuf', hfilled]
    refine (hmore.put _ _).congr (and_congr_right fun _ => ?_)
    constructor
    · intro hstore _
      omega
    · intro hspare
      have := hspare (by omega)
      exact .inr ⟨by omega, by omega⟩

/-! ## One call -/

theorem pushText_snd (st : BufferCounters × Int) (n : Nat) :
    (pushText st n).2 = st.2 + n := by
  unfold pushText
  dsimp only
  split <;> rfl

end BufferCounters

theorem LogCall.length_record (c : LogCall) :
    c.record.length = c.header.sum + c.text.length + 2 := by
  have hone : (ascii " ").length = 1 ∧ (ascii ":").length = 1 ∧ (ascii "<").length = 1 ∧
      (ascii "> ").length = 2 ∧ (ascii "\r\n").length = 2 := by decide
  obtain ⟨hblank, hcolon, hopen, hclose, hend⟩ := hone
  unfold record header
  simp only [List.length_append, List.sum_cons, List.sum_nil, hblank, hcolon, hopen, hclose, hend]
  omega

/-- An `int` is at most the number that was converted. -/
theorem int_le {n : Int} (h : 0 ≤ n) : int n ≤ n := by
  unfold int
  rw [Int.bmod_def]
  split <;> omega

namespace BufferCounters

variable {s t : BufferCounters} {a : BufferAct} {room len : Int} {p : Prop}

/-- The room behind the record. -/
def recordRoom (s : BufferCounters) (c : LogCall) : Int :=
  grow (textRoom (headerRoom (s.bufferCapacity - s.bufferSize) c.header) c.text.length) 2

/-- The second formatting of a long message has its room. -/
def TextSpare (s : BufferCounters) (c : LogCall) : Prop :=
  512 < c.text.length →
    509 ≤ textRoom (headerRoom (s.bufferCapacity - s.bufferSize) c.header) c.text.length

theorem InRange.append (h : s.InRange) (c : LogCall) :
    Grows s (s.append c).1 c.record.length (s.recordRoom c) (s.TextSpare c) ∧
      (s.append c).2 = c.record.length := by
  have hstart : Grows s ((s, 0) : BufferCounters × Int).1 0 _ True := Grows.refl h
  obtain ⟨hheader, htotal⟩ := hstart.pushes c.header
  have hlen := c.length_record
  have hsum : (0 : Int) + (c.header.sum : Nat) + c.text.length + (2 : Nat) = c.record.length := by
    omega
  refine ⟨?_, ?_⟩
  · have hall := (hheader.pushText c.text.length).push 2
    rw [hsum] at hall
    exact hall.congr (and_iff_right trivial)
  · have hpush : (s.append c).2 =
        (BufferCounters.pushText (c.header.foldl BufferCounters.push (s, 0)) c.text.length).2 +
          (2 : Nat) := rfl
    rw [hpush, pushText_snd, htotal]
    exact hsum

/-- The record is returned: its length has to be one for an `int`, or the room has to be large
enough for what is added instead. -/
theorem Grows.takeBack_bounded_iff (h : Grows s t len room p) (hs : 0 ≤ s.bufferSize)
    (hlen : 0 ≤ len) :
    (t.takeBack len).Bounded ↔
      ((∀ ev ∈ s.events, ev.Sound) ∧ p) ∧ -int len ≤ room := by
  have hle := int_le hlen
  obtain ⟨hgot, hbuf⟩ := h.getBuffer (Int.le_refl 0)
  have hpos := hgot.inRange.1
  have hsize := hgot.size
  have hold := h.size
  have hnonneg : 0 ≤ room := by
    have := h.inRange.2
    have := h.room
    omega
  have hgrow : grow room 0 = room := by
    unfold grow
    rw [if_neg (by omega), Int.sub_zero]
  rw [hgrow] at hgot
  have hroom := hgot.room
  have hindex : t.bufferSize - len + len = t.bufferSize := by omega
  have hput : Grows s ((t.getBuffer 0).1.put t.bufferSize 1) (len + 0) room p :=
    hgot.put_sound (by omega) (by omega)
  have hsame : ((t.getBuffer 0).1.put t.bufferSize 1).bufferSize = t.bufferSize := by
    have := hput.size
    omega
  have hcap := hput.room
  unfold takeBack
  dsimp only
  rw [hbuf, hindex]
  unfold Bounded InRange BufferCounters.returnBuffer BufferCounters.noted
  dsimp only
  rw [events_concat, hput.events, hsame]
  unfold BufferEvent.Sound
  dsimp only
  constructor
  · rintro ⟨⟨-, hin⟩, hevents, -⟩
    exact ⟨hevents, by omega⟩
  · rintro ⟨hevents, hback⟩
    exact ⟨⟨by omega, by omega⟩, hevents, by omega, by omega⟩

/-! ## flushBuffer -/

theorem writeLoop_range (accepts : Nat → Nat) (fuel k : Nat) {size : Int} (h : 0 ≤ size) :
    0 ≤ writeLoop accepts fuel k size ∧ writeLoop accepts fuel k size ≤ size := by
  induction fuel generalizing k size with
  | zero => exact ⟨h, Int.le_refl _⟩
  | succ fuel ih =>
    have hret : int (min (accepts k) size) ≤ size :=
      Int.le_trans (int_le (by omega)) (Int.min_le_right _ _)
    rw [writeLoop]
    split
    · exact ⟨h, Int.le_refl _⟩
    · split
      · exact ⟨Int.le_refl _, h⟩
      · obtain ⟨h0, hle⟩ := ih (k + 1) (Int.sub_nonneg.mpr hret)
        exact ⟨h0, by omega⟩

/-- A flush stores its terminator into the spare bytes, at worst, and only takes bytes away. -/
theorem InRange.flushBuffer (h : s.InRange) (isOpen : Bool) (accepts : Nat → Nat) :
    (s.flushBuffer isOpen accepts).InRange ∧
      ((∀ ev ∈ (s.flushBuffer isOpen accepts).events, ev.Sound) ↔ ∀ ev ∈ s.events, ev.Sound) := by
  obtain ⟨hpos, hle⟩ := h
  obtain ⟨h0, hdown⟩ := writeLoop_range accepts s.bufferSize.toNat 0 hpos
  unfold BufferCounters.flushBuffer
  split
  · split
    · have hrange : 0 ≤ writeLoop accepts s.bufferSize.toNat 0 s.bufferSize ∧
          writeLoop accepts s.bufferSize.toNat 0 s.bufferSize ≤ s.bufferCapacity :=
        ⟨h0, by omega⟩
      have hstore : (BufferEvent.store s.bufferSize 1 (s.bufferCapacity + 4)).Sound :=
        .inr ⟨hpos, by omega⟩
      refine ⟨hrange, ?_⟩
      unfold put noted
      dsimp only
      rw [events_concat, events_concat, and_assoc]
      exact and_iff_left ⟨hstore, hrange⟩
    · exact ⟨⟨hpos, hle⟩, Iff.rfl⟩
  · exact ⟨⟨hpos, hle⟩, Iff.rfl⟩

/-! ## One step -/

/-- A long message has 509 bytes of room behind it, and the length of a record that is taken
back is one for an `int`, or what is added instead is within the room. -/
def Spare (s : BufferCounters) : BufferAct → Prop
  | .log c _ _ => s.TextSpare c ∧ (s.logLevel < c.level → -int c.record.length ≤ s.recordRoom c)
  | _ => True

theorem step_bounded_iff (h : s.Bounded) (hs : step s a = some t) : t.Bounded ↔ s.Spare a := by
  obtain ⟨hrange, hevents⟩ := h
  unfold step at hs
  split at hs
  · cases hs
  cases a with
  | config logLevel =>
    cases hs
    exact iff_of_true ⟨hrange, hevents⟩ trivial
  | flush isOpen accepts =>
    cases hs
    obtain ⟨hrange', hiff⟩ := hrange.flushBuffer isOpen accepts
    exact iff_of_true ⟨hrange', hiff.mpr hevents⟩ trivial
  | log c isOpen accepts =>
    dsimp only at hs
    split at hs
    · obtain rfl := Option.some.inj hs
      obtain ⟨hgrows, htotal⟩ := hrange.append c
      have hlevel := hgrows.same.1
      have hsound : (∀ ev ∈ (s.append c).1.events, ev.Sound) ↔ s.TextSpare c := by
        rw [hgrows.events]
        exact and_iff_right hevents
      unfold BufferCounters.log Spare
      dsimp only
      rw [hlevel, htotal]
      by_cases hkeep : c.level ≤ s.logLevel
      · rw [if_pos hkeep, and_iff_left fun hdrop => absurd hkeep (Int.not_le.mpr hdrop)]
        obtain ⟨hrange', hiff⟩ := hgrows.inRange.flushBuffer isOpen accepts
        split
        · split
          · exact (and_iff_right hrange').trans (hiff.trans hsound)
          · exact (and_iff_right hrange').trans (hiff.trans hsound)
        · exact (and_iff_right hgrows.inRange).trans hsound
      · rw [if_neg hkeep, hgrows.takeBack_bounded_iff hrange.1 (Int.natCast_nonneg _),
          and_iff_right hevents]
        exact and_congr_right fun _ => ⟨fun hback _ => hback,
          fun hback => hback (Int.not_le.mp hkeep)⟩
    · cases hs

end BufferCounters

open BufferCounters

/-- As long as every call has its room, the counters stay in range and every store in the
block; a call that does not have it ends that. -/
theorem buffer_bounded (logLevel : Int) :
    (∀ s, ReachIf step Spare { logLevel := logLevel } s → s.Bounded) ∧
      ∀ s a t, ReachIf step Spare { logLevel := logLevel } s → step s a = some t →
        (t.Bounded ↔ s.Spare a) := by
  have hall {s : BufferCounters} (h : ReachIf step Spare { logLevel := logLevel } s) :
      s.Bounded := by
    refine h.invariant (I := Bounded) ⟨⟨Int.le_refl 0, Int.le_refl 0⟩, ?_⟩ fun s a t hs hok hstep =>
      (step_bounded_iff hs hstep).mpr hok
    exact fun ev hev => absurd hev List.not_mem_nil
  exact ⟨fun s h => hall h, fun s a t h hs => step_bounded_iff (hall h) hs⟩

/-- A message of 515 bytes in a new buffer: the second formatting ends with the last of the
four spare bytes. -/
theorem buffer_bounded_long : ∃ s : BufferCounters, s.bufferSize = 570 ∧
    .store 565 516 1081 ∈ s.events ∧ s.Bounded := by
  have hany : (BufferCounters.step {}
      (.log (sampleCall (List.replicate 515 97) 4) false fun _ => 0)).any
        (fun s => s.bufferSize = 570 ∧ .store 565 516 1081 ∈ s.events) = true := by
    decide +kernel
  obtain ⟨s, hs, hend⟩ := (Option.any_eq_true _ _).mp hany
  obtain ⟨hsize, hstore⟩ := of_decide_eq_true hend
  have hspare : Spare {} (.log (sampleCall (List.replicate 515 97) 4) false fun _ => 0) :=
    ⟨fun _ => by decide +kernel, fun hdrop => absurd hdrop (by decide)⟩
  exact ⟨s, hsize, hstore, (buffer_bounded 4).1 s
    (.single (a := .log (sampleCall (List.replicate 515 97) 4) false fun _ => 0) hspare hs)⟩

/-- A message of 600 bytes: the second formatting ends 85 bytes behind the block. -/
theorem store_behind_buffer : ∃ s, Reach BufferCounters.step {} s ∧
    .store 565 601 1081 ∈ s.events ∧ ¬ s.Bounded := by
  obtain ⟨s, hreach, hend⟩ := reach_of_any BufferCounters.step {}
    [.log (sampleCall (List.replicate 600 97) 4) false fun _ => 0]
    (fun s => .store 565 601 1081 ∈ s.events) (by decide +kernel)
  have hstore : .store 565 601 1081 ∈ s.events := of_decide_eq_true hend
  refine ⟨s, hreach, hstore, fun h => ?_⟩
  rcases h.2 _ hstore with hnone | ⟨-, hend⟩ <;> omega

end VideoPlayerCore
