import VideoPlayerCore.LogBounds

/-!
# The counters of the log and those of the bounds

The log with its bytes has its counters as natural numbers and leaves the conversions to `int`
out.  As long as the buffer stays below 2 GiB, it counts what the counters of the bounds count.

    Counts s.log u → LogRun.step s a = some t →
      ∃ b v, u.step b = some v ∧ Counts t.log v                      (LogRun.step_counts)
-/

namespace VideoPlayerCore

open ByteStore LogState

/-- The counters `u` are those of `s`. -/
structure Counts (s : LogState) (u : BufferCounters) : Prop where
  size : u.bufferSize = s.bufferSize
  capacity : u.bufferCapacity = s.bufferCapacity
  allocated : u.allocated = true ↔ s.buffer ≠ []
  logLevel : u.logLevel = s.logLevel
  exited : u.exited = s.exited

namespace Counts

variable {s : LogState} {u : BufferCounters} {n : Nat}

theorem noted (h : Counts s u) : Counts s u.noted :=
  ⟨h.size, h.capacity, h.allocated, h.logLevel, h.exited⟩

theorem getBuffer (h : Counts s u) (hfits : Fits s) (n : Nat) :
    Counts (s.getBuffer n).1 (u.getBuffer n).1 ∧ (u.getBuffer n).2 = (s.getBuffer n).2 := by
  have hle := hfits.1
  have hsize := h.size
  have hcap := h.capacity
  have hpointer : (u.getBuffer n).2 = u.bufferSize := by
    unfold BufferCounters.getBuffer
    dsimp only
    split <;> rfl
  refine ⟨?_, by rw [hpointer, (getBuffer_size s n).2, hsize]⟩
  unfold LogState.getBuffer BufferCounters.getBuffer
  dsimp only
  refine Counts.noted ?_
  by_cases hleft : s.bufferCapacity - s.bufferSize < n
  · have hgrown : ((s.realloc (s.bufferCapacity + n * 2 -
        (s.bufferCapacity - s.bufferSize) + 4)).buffer) ≠ [] := by
      refine List.ne_nil_of_length_pos ?_
      rw [length_realloc]
      omega
    rw [if_pos hleft, if_pos (by omega)]
    refine ⟨?_, ?_, iff_of_true rfl hgrown, h.logLevel, h.exited⟩
    · dsimp only [realloc]
      omega
    · dsimp only [realloc]
      omega
  · rw [if_neg hleft, if_neg (by omega)]
    refine ⟨?_, h.capacity, h.allocated, h.logLevel, h.exited⟩
    dsimp only
    omega

/-- A block that is there stays there; nothing is stored into one that is not. -/
theorem put (h : Counts s u) (i : Nat) (bytes : Bytes) (hbytes : s.buffer ≠ [] ∨ bytes = [])
    (first count : Int) : Counts (s.put i bytes) (u.put first count) := by
  have hsame : store s.buffer i bytes ≠ [] ↔ s.buffer ≠ [] := by
    rcases hbytes with hbuffer | rfl
    · have hlen : s.buffer.length ≤ (store s.buffer i bytes).length := length_le_store
      have hpos := List.length_pos_iff.mpr hbuffer
      exact iff_of_true (List.ne_nil_of_length_pos (by omega)) hbuffer
    · unfold store
      rw [List.append_nil, List.length_nil, Nat.add_zero, List.take_append_drop]
  exact ⟨h.size, h.capacity, h.allocated.trans hsame.symm, h.logLevel, h.exited⟩

theorem returnBuffer (h : Counts s u) (hle : n ≤ s.bufferSize) (hint : n < 2 ^ 31) :
    Counts (s.returnBuffer n) (u.returnBuffer n) := by
  have hsize := h.size
  have hconv : int n = n := IsInt.int_eq ⟨by omega, by omega⟩
  refine Counts.noted ⟨?_, h.capacity, h.allocated, h.logLevel, h.exited⟩
  unfold LogState.returnBuffer
  dsimp only
  rw [hconv]
  omega

/-- What was handed out can be stored into. -/
theorem got_buffer (hfits : Fits s) (n : Nat) (hn : 0 < n) : (s.getBuffer n).1.buffer ≠ [] := by
  obtain ⟨hgot, -⟩ := hfits.getBuffer n
  have hsize := (getBuffer_size s n).1
  exact (hgot.room (by omega)).2

theorem pushToBuffer (h : Counts s u) (hfits : Fits s) (bytes : Bytes) :
    Counts (s.pushToBuffer bytes bytes.length) (u.pushToBuffer bytes.length) := by
  obtain ⟨hgot, -⟩ := h.getBuffer hfits bytes.length
  unfold LogState.pushToBuffer BufferCounters.pushToBuffer
  refine hgot.put _ _ ?_ _ _
  rw [List.take_length]
  rcases Nat.eq_zero_or_pos bytes.length with hzero | hpos
  · exact .inr (List.length_eq_zero_iff.mp hzero)
  · exact .inl (got_buffer hfits _ hpos)

end Counts

/-! ## A record -/

/-- The record so far, on both sides: the counters and `total_len`. -/
structure Tracks (st : LogState × Nat) (su : BufferCounters × Int) : Prop where
  counts : Counts st.1 su.1
  fits : Fits st.1
  total : su.2 = st.2

namespace Tracks

variable {st : LogState × Nat} {su : BufferCounters × Int} {bytes text : Bytes} {len : Nat}

theorem push (h : Tracks st su) (hlen : bytes.length = len) :
    Tracks (LogState.push st len bytes len) (BufferCounters.push su len) := by
  subst hlen
  refine ⟨h.counts.pushToBuffer h.fits bytes, (pushToBuffer_appends h.fits rfl).fits, ?_⟩
  unfold LogState.push BufferCounters.push
  dsimp only
  rw [h.total, Int.natCast_add]

theorem pushText (h : Tracks st su) (hint : text.length < 2 ^ 31) (again : Bytes) :
    Tracks (LogState.pushText st text again) (BufferCounters.pushText su text.length) := by
  obtain ⟨_, -, happends⟩ := pushText_appends h.fits st.2 text again
  have hfits : Fits (LogState.pushText st text again).1 := happends.fits
  obtain ⟨hgot, hbuf⟩ := h.counts.getBuffer h.fits 512
  have hsize := (getBuffer_size st.1 512).1
  have hthere := Counts.got_buffer h.fits 512 (by decide)
  obtain ⟨hgotfits, -⟩ := h.fits.getBuffer 512
  have hput (first count : Int) := hgot.put (st.1.getBuffer 512).2
    (text.take (512 - 1) ++ [0]) (.inl hthere) first count
  refine ⟨?_, hfits, ?_⟩
  · unfold LogState.pushText BufferCounters.pushText LogState.vsnprintf BufferCounters.vsnprintf
    dsimp only
    by_cases hshort : text.length ≤ 512
    · have hback : (512 : Int) - text.length = (512 - text.length : Nat) := by omega
      rw [if_pos hshort, if_pos hshort, hback]
      refine (hput _ _).returnBuffer ?_ (by omega)
      unfold LogState.put
      dsimp only
      omega
    · have hmore : (text.length : Int) - 512 = (text.length - 512 : Nat) := by omega
      have hfilled : Fits ((st.1.getBuffer 512).1.put (st.1.getBuffer 512).2
          (text.take (512 - 1) ++ [0])) := hgotfits.put (by omega) _ _
      obtain ⟨hgot', hbuf'⟩ := (hput (su.1.getBuffer 512).2
        (min (512 - 1) (text.length : Int) + 1)).getBuffer hfilled (text.length - 512)
      rw [if_neg hshort, if_neg hshort, hmore]
      exact hgot'.put _ _ (.inl (Counts.got_buffer hfilled _ (by omega))) _ _
  · rw [BufferCounters.pushText_snd, pushText_snd, h.total, Int.natCast_add]

theorem append {s : LogState} {u : BufferCounters} (h : Counts s u) (hfits : Fits s)
    {c : LogCall} (hint : c.text.length < 2 ^ 31) : Tracks (s.append c) (u.append c) := by
  have hstart : Tracks (s, 0) (u, 0) := ⟨h, hfits, rfl⟩
  unfold LogState.append BufferCounters.append LogCall.header
  -- from the line end back to the time stamp
  refine push (pushText ?_ hint c.again) rfl
  iterate 12 refine push ?_ rfl
  exact hstart.push rfl

end Tracks

/-! ## One call -/

namespace Counts

variable {s : LogState} {u : BufferCounters} {total : Nat}

theorem takeBack (h : Counts s u) (hfits : Fits s) (hpos : 0 < total)
    (hle : total ≤ s.bufferSize) (hint : total < 2 ^ 31) :
    Counts (s.takeBack total) (u.takeBack total) := by
  obtain ⟨hgot, -⟩ := h.getBuffer hfits 0
  have hthere : (s.getBuffer 0).1.buffer ≠ [] := by
    obtain ⟨hgotfits, -⟩ := hfits.getBuffer 0
    have hsize := (getBuffer_size s 0).1
    exact (hgotfits.room (by omega)).2
  have hsame := (getBuffer_size s 0).1
  have hput (i : Nat) (first count : Int) := hgot.put i [0] (.inl hthere) first count
  unfold LogState.takeBack BufferCounters.takeBack
  refine Counts.returnBuffer ?_ ?_ hint
  · obtain ⟨hsize, hcap, hallocated, hlevel, hexited⟩ :=
      hput ((s.getBuffer 0).2 - total + total) ((u.getBuffer 0).2 - total + total) 1
    exact ⟨hsize, hcap, hallocated, hlevel, hexited⟩
  · have hin : total ≤ (s.getBuffer 0).1.bufferSize := by omega
    exact hin

/-- Below 2 GiB, what a `fwrite` call returns is what it wrote. -/
theorem writeLoop (buffer : Bytes) (accepts : Nat → Nat) (fuel k pBuf size : Nat) (disk : Bytes)
    (hint : size < 2 ^ 31) :
    BufferCounters.writeLoop accepts fuel k size =
      (LogState.writeLoop buffer accepts fuel k pBuf size disk).1 := by
  induction fuel generalizing k pBuf size disk with
  | zero => rfl
  | succ fuel ih =>
    have hret : int (min (accepts k : Int) size) = (min (accepts k) size : Nat) := by
      have hmin : min (accepts k : Int) size = (min (accepts k) size : Nat) := by omega
      rw [hmin]
      exact IsInt.int_eq ⟨by omega, by omega⟩
    rw [BufferCounters.writeLoop, LogState.writeLoop, hret]
    dsimp only
    by_cases hnone : min (accepts k) size = 0
    · rw [if_pos hnone, if_pos (by omega)]
    · rw [if_neg hnone, if_neg (by omega)]
      by_cases hall : size - min (accepts k) size = 0
      · rw [if_pos hall, if_pos (by omega)]
        rfl
      · have hleft : (size : Int) - (min (accepts k) size : Nat) =
            (size - min (accepts k) size : Nat) := by omega
        rw [if_neg hall, if_neg (by omega), hleft]
        exact ih _ _ _ _ (by omega)

theorem opened (h : Counts s u) (e : FlushEnv) : Counts (s.opened e) u := by
  unfold LogState.opened
  split
  · exact h
  · exact ⟨h.size, h.capacity, h.allocated, h.logLevel, h.exited⟩

theorem rotate (h : Counts s u) (renames : Bool) : Counts (s.rotate renames) u :=
  ⟨h.size, h.capacity, h.allocated, h.logLevel, h.exited⟩

theorem flushBuffer (h : Counts s u) (e : FlushEnv) (hint : s.bufferSize < 2 ^ 31) :
    Counts (s.flushBuffer e).1 (u.flushBuffer (s.opened e).isOpen e.accepts) := by
  obtain ⟨heq, hnamed⟩ := flushBuffer_opened s e
  have hopened := h.opened e
  have hsize : (s.opened e).bufferSize < 2 ^ 31 := by
    unfold LogState.opened
    split <;> exact hint
  rw [heq]
  obtain ⟨s', hs'⟩ : ∃ s', s' = s.opened e := ⟨_, rfl⟩
  rw [← hs'] at hnamed hopened hsize ⊢
  have hpending : u.allocated = true ∧ 0 < u.bufferSize ↔ s'.buffer ≠ [] ∧ 0 < s'.bufferSize := by
    rw [hopened.allocated, hopened.size]
    exact and_congr_right fun _ => by omega
  unfold LogState.flushBuffer BufferCounters.flushBuffer
  rw [if_pos hnamed]
  dsimp only
  by_cases hany : s'.buffer ≠ [] ∧ 0 < s'.bufferSize
  · rw [if_pos hany, if_pos (hpending.mpr hany)]
    cases hopen : s'.isOpen with
    | false => exact hopened
    | true =>
      have hput := hopened.put s'.bufferSize [0] (.inl hany.1) u.bufferSize 1
      have hloop := writeLoop (s'.put s'.bufferSize [0]).buffer e.accepts s'.bufferSize 0 0
        s'.bufferSize s'.disk hsize
      have hfuel : u.bufferSize.toNat = s'.bufferSize := by
        rw [hopened.size, Int.toNat_natCast]
      have hwritten : Counts
          { s'.put s'.bufferSize [0] with
            console := s'.console ++ [cString (s'.put s'.bufferSize [0]).buffer]
            bufferSize := (LogState.writeLoop (s'.put s'.bufferSize [0]).buffer e.accepts
              s'.bufferSize 0 0 s'.bufferSize s'.disk).1
            disk := (LogState.writeLoop (s'.put s'.bufferSize [0]).buffer e.accepts
              s'.bufferSize 0 0 s'.bufferSize s'.disk).2 }
          { u.put u.bufferSize 1 with
            bufferSize := BufferCounters.writeLoop e.accepts u.bufferSize.toNat 0
              u.bufferSize }.noted := by
        refine Counts.noted ⟨?_, hput.capacity, hput.allocated, hput.logLevel, hput.exited⟩
        dsimp only
        rw [hfuel, hopened.size]
        exact hloop
      rw [if_pos rfl, if_pos rfl]
      dsimp only
      split
      · exact hwritten.rotate _
      · exact hwritten
  · rw [if_neg hany, if_neg (mt hpending.mp hany)]
    exact hopened

end Counts

/-- The step of the counters that an action is; a record pushed from outside is none. -/
def LogAct.counted (s : LogState) : LogAct → Option BufferAct
  | .push _ => none
  | .log c e => some (.log c ((s.append c).1.opened e).isOpen e.accepts)
  | .config logLevel _ => some (.config logLevel)
  | .flush e => some (.flush (s.opened e).isOpen e.accepts)

/-- The buffer stays below 2 GiB. -/
def LogAct.Small (s : LogState) : LogAct → Prop
  | .log c _ => s.bufferSize + c.record.length < 2 ^ 31
  | .flush _ => s.bufferSize < 2 ^ 31
  | _ => True

/-- What a step does to the counters of the log, it does to the counters of the bounds. -/
theorem LogRun.step_counts {s t : LogRun} {a : LogAct} {b : BufferAct} {u : BufferCounters}
    (hfits : Fits s.log) (h : Counts s.log u) (hsmall : a.Small s.log)
    (hb : a.counted s.log = some b) (hs : LogRun.step s a = some t) :
    ∃ v, u.step b = some v ∧ Counts t.log v := by
  unfold LogRun.step at hs
  split at hs
  · cases hs
  next hrunning =>
  have hrunning' : ¬ u.exited = true := by
    rw [h.exited]
    exact hrunning
  unfold BufferCounters.step
  rw [if_neg hrunning']
  cases a with
  | push bytes => cases hb
  | config logLevel maxSize =>
    cases hb
    cases hs
    exact ⟨_, rfl, ⟨h.size, h.capacity, h.allocated, rfl, h.exited⟩⟩
  | flush e =>
    cases hb
    cases hs
    exact ⟨_, rfl, h.flushBuffer e hsmall⟩
  | log c e =>
    cases hb
    cases hs
    have hlong : s.log.bufferSize + c.record.length < 2 ^ 31 := hsmall
    have hlen := c.length_record
    have hint : c.text.length < 2 ^ 31 := by omega
    obtain ⟨hcounts, hfits', htotal⟩ := Tracks.append h hfits hint
    have hsize := (append_appends hfits c).size
    have hnat := (append_appends hfits c).total
    have hpos := record_pos c
    dsimp only
    rw [if_pos hint]
    refine ⟨_, rfl, ?_⟩
    unfold LogState.log BufferCounters.log
    dsimp only
    rw [hcounts.logLevel]
    split
    · split
      · have hflush := hcounts.flushBuffer e (by omega)
        split
        · exact ⟨hflush.size, hflush.capacity, hflush.allocated, hflush.logLevel, rfl⟩
        · exact hflush
      · exact ⟨hcounts.size, hcounts.capacity, hcounts.allocated, hcounts.logLevel, hcounts.exited⟩
    · rw [htotal]
      exact hcounts.takeBack hfits' (by omega) (by omega) (by omega)

end VideoPlayerCore
