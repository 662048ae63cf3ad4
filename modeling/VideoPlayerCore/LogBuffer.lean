import VideoPlayerCore.LogSteps

/-!
# The log buffer

What the operations do to the bytes that are pending in `_buffer`.

    Fits s → buf.length = len → Appends s (s.pushToBuffer buf len) buf     (pushToBuffer_appends)
    Fits s → Logs (c.text.length < 512) s (s.append c) c.record            (append_appends)
    Fits s → Flushes s (s.flushBuffer e).1 (s.takes e s.bufferSize)        (flushBuffer_flushes)

`Logs` counts any record; that its bytes lie in the buffer as they are takes a message that
`vsnprintf` need not cut off.  `Flushes` says which bytes a flush writes, and which ones it
keeps.
-/

namespace VideoPlayerCore

open ByteStore

namespace LogState

variable {s t u : LogState} {buf bytes : Bytes} {len : Nat} {c : LogCall} {e : FlushEnv}

/-- `_buffer` has room for `_bufferCapacity` bytes and four more. -/
def Fits (s : LogState) : Prop :=
  s.bufferSize ≤ s.bufferCapacity ∧
    (s.bufferCapacity + 4 ≤ s.buffer.length ∨ s.buffer = [] ∧ s.bufferCapacity = 0)

theorem Fits.size_le (h : Fits s) : s.bufferSize ≤ s.buffer.length := by
  obtain ⟨hsize, hroom | ⟨_, hcap⟩⟩ := h <;> omega

theorem Fits.length_pending (h : Fits s) : s.pending.length = s.bufferSize := by
  unfold pending
  rw [List.length_take, Nat.min_eq_left h.size_le]

/-- Something is pending: the terminator fits, too. -/
theorem Fits.room (h : Fits s) (hpos : 0 < s.bufferSize) :
    s.bufferSize < s.buffer.length ∧ s.buffer ≠ [] := by
  obtain ⟨hsize, hroom | ⟨_, hcap⟩⟩ := h
  · refine ⟨by omega, fun hnil => ?_⟩
    rw [hnil, List.length_nil] at hroom
    omega
  · omega

theorem Fits.put (h : Fits s) (hpos : 0 < s.bufferSize) (i : Nat) (bytes : Bytes) :
    Fits (s.put i bytes) := by
  obtain ⟨hsize, hroom | ⟨_, hcap⟩⟩ := h
  · exact ⟨hsize, .inl (Nat.le_trans hroom length_le_store)⟩
  · omega

theorem Fits.returnBuffer (h : Fits s) (len : Nat) : Fits (s.returnBuffer len) :=
  ⟨Nat.le_trans (Nat.sub_le _ _) h.1, h.2⟩

/-! ## getBuffer -/

/-- The operations on the buffer touch nothing else. -/
def OnlyBuffer (s t : LogState) : Prop :=
  t = { s with
    buffer := t.buffer, bufferSize := t.bufferSize, bufferCapacity := t.bufferCapacity }

theorem OnlyBuffer.trans (h : OnlyBuffer s t) (h' : OnlyBuffer t u) : OnlyBuffer s u := by
  unfold OnlyBuffer at *
  rw [h', h]

theorem OnlyBuffer.getBuffer (h : OnlyBuffer s t) (len : Nat) :
    OnlyBuffer s (t.getBuffer len).1 := by
  refine h.trans ?_
  unfold LogState.getBuffer OnlyBuffer
  dsimp only
  split <;> rfl

theorem OnlyBuffer.put (h : OnlyBuffer s t) (i : Nat) (bytes : Bytes) :
    OnlyBuffer s (t.put i bytes) :=
  h.trans rfl

theorem OnlyBuffer.returnBuffer (h : OnlyBuffer s t) (len : Nat) :
    OnlyBuffer s (t.returnBuffer len) :=
  h.trans rfl

theorem getBuffer_size (s : LogState) (len : Nat) :
    (s.getBuffer len).1.bufferSize = s.bufferSize + len ∧
      (s.getBuffer len).2 = s.bufferSize := by
  unfold getBuffer
  dsimp only
  split <;> exact ⟨rfl, rfl⟩

theorem length_realloc (s : LogState) (size : Nat) : (s.realloc size).buffer.length = size := by
  unfold realloc
  dsimp only
  rw [List.length_append, List.length_take, List.length_replicate]
  omega

theorem take_realloc {n size : Nat} (hn : n ≤ s.buffer.length) (hsize : n ≤ size) :
    (s.realloc size).buffer.take n = s.buffer.take n := by
  unfold realloc
  dsimp only
  rw [List.take_append_of_le_length (by rw [List.length_take]; omega), List.take_take,
    Nat.min_eq_left hsize]

/-- The bytes stay where they are, across a reallocation too. -/
theorem Fits.getBuffer (h : Fits s) (len : Nat) :
    Fits (s.getBuffer len).1 ∧ (s.getBuffer len).1.buffer.take s.bufferSize = s.pending := by
  have hle := h.size_le
  obtain ⟨hsize, hroom⟩ := h
  unfold LogState.getBuffer pending
  dsimp only
  split
  · refine ⟨⟨?_, .inl ?_⟩, take_realloc (s := { s with bufferCapacity := _ }) hle ?_⟩
    · dsimp only [realloc]
      omega
    · dsimp only
      rw [length_realloc]
      exact Nat.le_refl _
    · omega
  · exact ⟨⟨by dsimp only; omega, hroom⟩, rfl⟩

/-! ## Appending -/

/-- `bytes` were appended to what was pending. -/
structure Appends (s t : LogState) (bytes : Bytes) : Prop where
  only : OnlyBuffer s t
  fits : Fits t
  pending : t.pending = s.pending ++ bytes

theorem Appends.trans {more : Bytes} (h : Appends s t bytes) (h' : Appends t u more) :
    Appends s u (bytes ++ more) :=
  ⟨h.only.trans h'.only, h'.fits, by rw [h'.pending, h.pending, List.append_assoc]⟩

theorem Appends.size (h : Appends s t bytes) (hs : Fits s) :
    t.bufferSize = s.bufferSize + bytes.length := by
  have hlen := congrArg List.length h.pending
  rw [List.length_append, h.fits.length_pending, hs.length_pending] at hlen
  exact hlen

/-- `bytes` are stored into what `getBuffer` handed out, and `len` of them are kept. -/
theorem Fits.fill (h : Fits s) (bytes : Bytes) {got back : Nat} (hgot : 0 < got)
    (hkeep : len + back = got) (hlen : len ≤ bytes.length) :
    Appends s (((s.getBuffer got).1.put (s.getBuffer got).2 bytes).returnBuffer back)
      (bytes.take len) := by
  obtain ⟨hsize, hbuf⟩ := getBuffer_size s got
  obtain ⟨hfits, htake⟩ := h.getBuffer got
  have hroom : s.bufferSize ≤ (s.getBuffer got).1.buffer.length := by
    have := hfits.size_le
    omega
  have hcount : (s.getBuffer got).1.bufferSize - back = s.bufferSize + len := by omega
  refine ⟨?_, (hfits.put (by omega) _ bytes).returnBuffer back, ?_⟩
  · have hsame : OnlyBuffer s s := rfl
    exact ((hsame.getBuffer got).put _ bytes).returnBuffer back
  · unfold LogState.pending at htake ⊢
    unfold LogState.returnBuffer LogState.put
    dsimp only
    rw [hcount, hbuf, take_store hroom hlen, htake]

theorem pushToBuffer_appends (h : Fits s) (hlen : buf.length = len) :
    Appends s (s.pushToBuffer buf len) buf := by
  rcases Nat.eq_zero_or_pos len with rfl | hpos
  · -- nothing is handed out, and nothing stored
    obtain rfl := List.length_eq_zero_iff.mp hlen
    have hsame : s.pushToBuffer [] 0 = s := by
      unfold pushToBuffer getBuffer LogState.put store
      dsimp only
      rw [if_neg (Nat.not_lt_zero _), List.take_nil, List.append_nil, List.length_nil,
        Nat.add_zero, List.take_append_drop]
    rw [hsame]
    exact ⟨rfl, h, (List.append_nil _).symm⟩
  · have hall : buf.take len = buf := List.take_of_length_le (by omega)
    have hfill := h.fill buf hpos (Nat.add_zero len) (by omega)
    rw [hall] at hfill
    unfold pushToBuffer
    dsimp only
    rw [hall]
    exact hfill

/-! ## A record -/

/-- So far `_log` appended `bytes` and counted them in `total_len`; they lie in the buffer as
they are when `whole`. -/
structure Logs (whole : Prop) (s : LogState) (st : LogState × Nat) (bytes : Bytes) : Prop where
  only : OnlyBuffer s st.1
  fits : Fits st.1
  size : st.1.bufferSize = s.bufferSize + bytes.length
  total : st.2 = bytes.length
  pending : whole → st.1.pending = s.pending ++ bytes

variable {whole : Prop} {st : LogState × Nat} {text : Bytes}

theorem Logs.start (h : Fits s) : Logs whole s (s, 0) [] :=
  ⟨rfl, h, rfl, rfl, fun _ => (List.append_nil _).symm⟩

/-- The next piece, appended as it is. -/
theorem Logs.piece (h : Logs whole s st bytes) {n : Nat} (hadd : Appends st.1 t buf)
    (hn : n = buf.length) : Logs whole s (t, st.2 + n) (bytes ++ buf) where
  only := h.only.trans hadd.only
  fits := hadd.fits
  size := by
    rw [hadd.size h.fits, h.size, List.length_append, Nat.add_assoc]
  total := by rw [h.total, hn, List.length_append]
  pending := fun hw => by rw [hadd.pending, h.pending hw, List.append_assoc]

theorem Logs.push (h : Logs whole s st bytes) (hlen : buf.length = len) :
    Logs whole s (push st len buf len) (bytes ++ buf) :=
  h.piece (pushToBuffer_appends h.fits hlen) hlen.symm

/-- What of the message gets into the buffer: from 512 bytes on, the first 511, a terminator
and `tail`. -/
def arrives (text tail : Bytes) : Bytes :=
  if text.length < 512 then text else text.take 511 ++ [0] ++ tail

/-- `tail` is what a second pass leaves where the rest of the message belongs: its own text, as
far as that goes. -/
structure IsTail (text again tail : Bytes) : Prop where
  length : tail.length = text.length - 512
  filled : text.length - 512 ≤ again.length → tail = again.take (text.length - 512)

variable {again tail : Bytes}

theorem IsTail.length_arrives (h : IsTail text again tail) :
    (arrives text tail).length = text.length := by
  unfold arrives
  split
  · rfl
  · rw [List.length_append, List.length_append, List.length_take, List.length_singleton,
      h.length]
    omega

/-- `total_len` counts the message, whatever got into the buffer. -/
theorem pushText_snd (st : LogState × Nat) (text again : Bytes) :
    (pushText st text again).2 = st.2 + text.length := by
  unfold pushText
  dsimp only
  split <;> rfl

theorem returnBuffer_zero (s : LogState) : s.returnBuffer 0 = s := rfl

/-- What `getBuffer` handed out is kept, however much of it was stored. -/
theorem Fits.keep (h : Fits s) (bytes : Bytes) {got : Nat} (hgot : 0 < got) :
    ∃ tail, tail.length = got ∧ (got ≤ bytes.length → tail = bytes.take got) ∧
      Appends s ((s.getBuffer got).1.put (s.getBuffer got).2 bytes) tail := by
  obtain ⟨hsize, hbuf⟩ := getBuffer_size s got
  obtain ⟨hfits, htake⟩ := h.getBuffer got
  have hroom : s.bufferSize ≤ (s.getBuffer got).1.buffer.length := by
    have hle := hfits.size_le
    omega
  have hput := hfits.put (by omega) (s.getBuffer got).2 bytes
  have hsame : OnlyBuffer s s := rfl
  have hfront : ((s.getBuffer got).1.put (s.getBuffer got).2 bytes).pending.take s.bufferSize =
      s.pending := by
    rw [← htake]
    unfold LogState.pending LogState.put
    dsimp only
    rw [List.take_take, Nat.min_eq_left (by omega), hbuf, take_store_before (Nat.le_refl _) hroom]
  refine ⟨((s.getBuffer got).1.put (s.getBuffer got).2 bytes).pending.drop s.bufferSize,
    ?_, fun hlen => ?_, (hsame.getBuffer got).put _ bytes, hput, ?_⟩
  · have hlen := hput.length_pending
    rw [List.length_drop, hlen]
    show (s.getBuffer got).1.bufferSize - s.bufferSize = got
    omega
  · have hfill := (h.fill bytes hgot (Nat.add_zero got) hlen).pending
    rw [returnBuffer_zero] at hfill
    rw [hfill, ← h.length_pending, List.drop_left]
  · conv => rhs; rw [← hfront]
    exact (List.take_append_drop _ _).symm

theorem pushText_appends (h : Fits s) (total : Nat) (text again : Bytes) :
    ∃ tail, IsTail text again tail ∧
      Appends s (pushText (s, total) text again).1 (arrives text tail) := by
  have hcut : (text.take 511 ++ [0]).length = min 511 text.length + 1 := by
    rw [List.length_append, List.length_take, List.length_singleton]
  have hpos : 0 < 512 := by decide
  unfold pushText vsnprintf
  dsimp only
  by_cases hret : text.length ≤ 512
  · have hkeep : text.length + (512 - text.length) = 512 := by omega
    have hrest : text.length - 512 = 0 := by omega
    have hfill := h.fill (text.take 511 ++ [0]) hpos hkeep (by omega)
    have hall : (text.take 511 ++ [0]).take text.length = arrives text [] := by
      unfold arrives
      by_cases hshort : text.length < 512
      · have htext : text.take 511 = text := List.take_of_length_le (by omega)
        rw [if_pos hshort, htext, List.take_left]
      · rw [if_neg hshort, List.append_nil, List.take_of_length_le (by omega)]
    rw [hall] at hfill
    rw [if_pos hret]
    refine ⟨[], ⟨hrest.symm, fun _ => ?_⟩, hfill⟩
    rw [hrest, List.take_zero]
  · -- the reservation is filled, and the second pass comes behind it
    have hfirst := h.fill (text.take 511 ++ [0]) hpos (Nat.add_zero 512) (by omega)
    have hwhole : (text.take 511 ++ [0]).take 512 = text.take 511 ++ [0] :=
      List.take_of_length_le (by omega)
    rw [returnBuffer_zero, hwhole] at hfirst
    obtain ⟨tail, hlen, htail, hsecond⟩ := hfirst.fits.keep
      (again.take (text.length + 1 - 1) ++ [0]) (by omega : 0 < text.length - 512)
    have harrives : text.take 511 ++ [0] ++ tail = arrives text tail := by
      unfold arrives
      rw [if_neg (by omega)]
    rw [if_neg hret]
    refine ⟨tail, ⟨hlen, fun hlong => ?_⟩, by rw [← harrives]; exact hfirst.trans hsecond⟩
    have hagain : text.length - 512 ≤ (again.take (text.length + 1 - 1)).length := by
      rw [List.length_take]
      omega
    rw [htail (by rw [List.length_append]; omega), List.take_append_of_le_length hagain,
      List.take_take, Nat.min_eq_left (by omega)]

theorem Logs.message (h : Logs whole s st bytes) (text again : Bytes) :
    ∃ tail, IsTail text again tail ∧
      Logs whole s (pushText st text again) (bytes ++ arrives text tail) := by
  obtain ⟨tail, htail, happ⟩ := pushText_appends h.fits st.2 text again
  have happ : st.1.Appends (pushText st text again).1 (arrives text tail) := happ
  have hpair : pushText st text again = ((pushText st text again).1, st.2 + text.length) :=
    Prod.ext rfl (pushText_snd st text again)
  refine ⟨tail, htail, ?_⟩
  rw [hpair]
  exact h.piece happ htail.length_arrives.symm

/-- What `_log` makes of a call in the buffer. -/
def written (c : LogCall) (tail : Bytes) : Bytes := { c with text := arrives c.text tail }.record

theorem IsTail.length_written (h : IsTail c.text again tail) :
    (written c tail).length = c.record.length := by
  unfold written LogCall.record
  simp only [List.length_append, h.length_arrives]

theorem append_writes (h : Fits s) (c : LogCall) :
    ∃ tail, IsTail c.text c.again tail ∧ Logs True s (s.append c) (written c tail) := by
  have hheader : ∃ st, s.append c = push (pushText st c.text c.again) 2 (ascii "\r\n") 2 ∧
      Logs True s st (c.time ++ ascii " " ++ c.label ++ ascii " " ++ c.file ++ ascii ":" ++
        decimal c.line ++ ascii " " ++ ascii "<" ++ decimal c.threadId ++ ascii "> " ++
        c.funcName ++ ascii " ") := by
    refine ⟨_, rfl, ?_⟩
    -- from the blank behind the function name back to the time stamp
    iterate 12 refine Logs.push ?_ rfl
    exact (Logs.start h).push rfl
  obtain ⟨st, heq, hlogs⟩ := hheader
  obtain ⟨tail, htail, hmessage⟩ := hlogs.message c.text c.again
  rw [heq]
  exact ⟨tail, htail, hmessage.push rfl⟩

/-- `_log` appends the record of the call and counts its length. -/
theorem append_appends (h : Fits s) (c : LogCall) :
    Logs (c.text.length < 512) s (s.append c) c.record := by
  obtain ⟨tail, htail, honly, hfits, hsize, htotal, hpending⟩ := append_writes h c
  rw [htail.length_written] at hsize htotal
  refine ⟨honly, hfits, hsize, htotal, fun hshort => ?_⟩
  have hall : written c tail = c.record := by
    unfold written
    rw [show arrives c.text tail = c.text from if_pos hshort]
  rw [hpending trivial, hall]

theorem record_pos (c : LogCall) : 0 < c.record.length := by
  unfold LogCall.record
  rw [List.length_append]
  exact Nat.lt_of_lt_of_le (by decide : 0 < (ascii "\r\n").length) (Nat.le_add_left _ _)

/-! ## Taking a record back -/

/-- What stands behind the terminator is not printed. -/
theorem cString_terminated (bytes rest : Bytes) :
    cString (bytes ++ (0 :: rest)) = cString bytes := by
  unfold cString
  induction bytes with
  | nil => rfl
  | cons b bytes ih =>
    rw [List.cons_append, List.takeWhile_cons, List.takeWhile_cons, ih]

theorem Logs.takeBack_spec (hs : Fits s) (h : Logs whole s st bytes)
    (hpos : 0 < bytes.length) :
    Fits (st.1.takeBack st.2) ∧ (st.1.takeBack st.2).bufferSize = s.bufferSize ∧
      OnlyBuffer { s with console := (st.1.takeBack st.2).console } (st.1.takeBack st.2) ∧
      (whole → (st.1.takeBack st.2).pending = s.pending ∧
        (st.1.takeBack st.2).console = s.console ++ [cString bytes]) := by
  obtain ⟨t, total⟩ := st
  obtain rfl : total = bytes.length := h.total
  have hsize : t.bufferSize = s.bufferSize + bytes.length := h.size
  have hfits : Fits t := h.fits
  obtain ⟨hroom, -⟩ := hfits.room (by omega)
  have hstart : t.bufferSize - bytes.length = s.bufferSize := by omega
  have hend : s.bufferSize + bytes.length = t.bufferSize := hsize.symm
  have hgot : t.getBuffer 0 = (t, t.bufferSize) := by
    unfold LogState.getBuffer
    dsimp only
    rw [if_neg (Nat.not_lt_zero _), Nat.add_zero]
  unfold takeBack
  rw [hgot]
  dsimp only
  rw [hstart, hend]
  refine ⟨(hfits.put (by omega) _ _).returnBuffer _, hstart, ?_, fun hw => ?_⟩
  · have honly := h.only
    unfold OnlyBuffer at honly ⊢
    unfold LogState.returnBuffer LogState.put
    dsimp only at honly ⊢
    rw [honly]
  · have hbytes : t.buffer.take t.bufferSize = s.pending ++ bytes := h.pending hw
    have hlen := hs.length_pending
    constructor
    · unfold LogState.pending LogState.returnBuffer LogState.put
      dsimp only
      rw [hstart, take_store_before (by omega) (by omega)]
      have htake := congrArg (List.take s.bufferSize) hbytes
      rw [List.take_take, Nat.min_eq_left (by omega), List.take_left' hlen] at htake
      exact htake
    · have honly : OnlyBuffer s t := h.only
      have hconsole : t.console = s.console := by
        rw [honly]
      unfold LogState.returnBuffer LogState.put
      dsimp only
      rw [hconsole, drop_store (by omega) (by omega), hbytes, List.drop_left' hlen]
      exact congrArg (fun text => s.console ++ [text]) (cString_terminated bytes _)

end LogState

/-! ## flushBuffer -/

/-- What the `fwrite` calls take of `n` bytes, up to the first that takes nothing. -/
def FlushEnv.taken (e : FlushEnv) (n : Nat) : Nat :=
  min n (((List.range n).map e.accepts).takeWhile (· ≠ 0)).sum

theorem FlushEnv.taken_le (e : FlushEnv) (n : Nat) : e.taken n ≤ n := Nat.min_le_left _ _

/-- No call takes nothing: all is written. -/
theorem FlushEnv.taken_all {e : FlushEnv} (h : ∀ k, 0 < e.accepts k) (n : Nat) :
    e.taken n = n := by
  have hall : ∀ ks : List Nat, ks.length ≤ ((ks.map e.accepts).takeWhile (· ≠ 0)).sum := by
    intro ks
    induction ks with
    | nil => exact Nat.zero_le _
    | cons k ks ih =>
      have hk := h k
      rw [List.map_cons, List.takeWhile_cons_of_pos (by simpa using Nat.ne_of_gt hk),
        List.sum_cons, List.length_cons]
      omega
  have hn := hall (List.range n)
  rw [List.length_range] at hn
  exact Nat.min_eq_left hn

namespace LogState

variable {s t : LogState} {e : FlushEnv} {len : Nat}

/-- The loop writes the bytes from `pBuf` on that the calls take. -/
theorem writeLoop_eq (buffer : Bytes) (accepts : Nat → Nat) (fuel k pBuf size : Nat)
    (disk : Bytes) {total : Nat}
    (htotal : total =
      min size (((List.range' k fuel).map accepts).takeWhile (· ≠ 0)).sum) :
    writeLoop buffer accepts fuel k pBuf size disk =
      (size - total, disk ++ (buffer.drop pBuf).take total) := by
  induction fuel generalizing k pBuf size disk total with
  | zero =>
    obtain rfl : total = 0 := by simpa using htotal
    rw [writeLoop, List.take_zero, List.append_nil]
    rfl
  | succ fuel ih =>
    rw [List.range'_succ, List.map_cons] at htotal
    rw [writeLoop]
    split
    · next hret =>
      -- the call takes nothing, or nothing is left
      obtain rfl : total = 0 := by
        rcases Nat.min_eq_zero_iff.mp hret with hk | hsize
        · rw [hk, List.takeWhile_cons_of_neg (by simp)] at htotal
          simpa using htotal
        · omega
      rw [List.take_zero, List.append_nil]
      rfl
    · next hret =>
      rw [List.takeWhile_cons_of_pos (by simp; omega), List.sum_cons] at htotal
      obtain ⟨ret, hmin⟩ : ∃ ret, ret = min (accepts k) size := ⟨_, rfl⟩
      rw [← hmin] at hret ⊢
      dsimp only
      split
      · next hleft =>
        obtain rfl : total = ret := by omega
        rw [hleft]
      · next hleft =>
        rw [ih (k + 1) (pBuf + ret) (size - ret) _ rfl]
        generalize (((List.range' (k + 1) fuel).map accepts).takeWhile _).sum = rest at htotal ⊢
        obtain rfl : total = ret + min (size - ret) rest := by omega
        rw [List.take_add, List.drop_drop, List.append_assoc, Nat.sub_sub]

/-- The bytes that reached log.txt, those that were renamed away included. -/
def reached (s : LogState) : Bytes :=
  ((s.rotations.filter (·.1)).map (·.2)).flatten ++ s.disk

/-- How many of `n` pending bytes a flush with these answers writes. -/
def takes (s : LogState) (e : FlushEnv) (n : Nat) : Nat :=
  if s.isOpen ∨ ¬ s.named ∧ e.opens then e.taken n else 0

/-- `flushBuffer` opens the file first, unless it has its name. -/
def opened (s : LogState) (e : FlushEnv) : LogState :=
  if s.named then s else { s with named := true, isOpen := s.isOpen || e.opens }

theorem flushBuffer_opened (s : LogState) (e : FlushEnv) :
    s.flushBuffer e = (s.opened e).flushBuffer e ∧ (s.opened e).named = true := by
  unfold opened
  split
  · next hnamed => exact ⟨rfl, hnamed⟩
  · next hnamed =>
    refine ⟨?_, rfl⟩
    unfold flushBuffer
    dsimp only
    rw [if_neg hnamed, if_pos rfl]

theorem reached_rotate (s : LogState) (renames : Bool) :
    (s.rotate renames).reached = s.reached := by
  unfold reached rotate
  dsimp only
  rw [List.filter_append, List.map_append, List.flatten_append]
  cases renames <;> simp

/-- A flush moves bytes from the front of the buffer to the file. -/
structure Flushes (s t : LogState) (n : Nat) : Prop where
  fits : Fits t
  size : t.bufferSize = s.bufferSize - n
  /-- `_buffer` is not moved -/
  pending : t.pending = s.pending.take (s.bufferSize - n)
  reached : t.reached = s.reached ++ s.pending.take n
  same : t.logLevel = s.logLevel ∧ t.thread = s.thread ∧ t.exited = s.exited

theorem Flushes.nothing (h : Fits s) : Flushes s s 0 where
  fits := h
  size := rfl
  pending := by
    rw [Nat.sub_zero, ← h.length_pending, List.take_length]
  reached := by rw [List.take_zero, List.append_nil]
  same := ⟨rfl, rfl, rfl⟩

theorem Flushes.rotate (h : Flushes s t len) (renames : Bool) :
    Flushes s (t.rotate renames) len :=
  ⟨h.fits, h.size, h.pending, (reached_rotate t renames).trans h.reached, h.same⟩

/-- With the file open and something pending, the file grows by what is written, and is then
rotated or not. -/
theorem flushBuffer_eq (h : Fits s) (hnamed : s.named = true) (hopen : s.isOpen = true)
    (hpos : 0 < s.bufferSize) :
    ∃ t, Flushes s t (e.taken s.bufferSize) ∧
      t.disk = s.disk ++ s.pending.take (e.taken s.bufferSize) ∧ t.rotations = s.rotations ∧
      (s.flushBuffer e).1 =
        if s.maxSize ≤ t.disk.length then t.rotate e.renames else t := by
  obtain ⟨hroom, hbuffer⟩ := h.room hpos
  have htaken := e.taken_le s.bufferSize
  have hstore (n : Nat) (hn : n ≤ s.bufferSize) :
      (s.put s.bufferSize [0]).buffer.take n = s.pending.take n := by
    unfold LogState.put LogState.pending
    dsimp only
    rw [take_store_before hn (by omega), List.take_take, Nat.min_eq_left hn]
  refine ⟨{ s.put s.bufferSize [0] with
      console := s.console ++ [cString (s.put s.bufferSize [0]).buffer]
      bufferSize := s.bufferSize - e.taken s.bufferSize
      disk := s.disk ++ (s.put s.bufferSize [0]).buffer.take (e.taken s.bufferSize) },
    { fits := ⟨Nat.le_trans (Nat.sub_le _ _) h.1, (h.put hpos s.bufferSize [0]).2⟩
      size := rfl
      pending := hstore _ (Nat.sub_le _ _)
      reached := ?_
      same := ⟨rfl, rfl, rfl⟩ },
    congrArg (s.disk ++ ·) (hstore _ htaken), rfl, ?_⟩
  · unfold LogState.reached
    dsimp only
    rw [hstore _ htaken, List.append_assoc]
    rfl
  · unfold flushBuffer
    rw [if_pos hnamed, if_pos ⟨hbuffer, hpos⟩, if_pos hopen]
    dsimp only
    have htotal : e.taken s.bufferSize = min s.bufferSize
        (((List.range' 0 s.bufferSize).map e.accepts).takeWhile (· ≠ 0)).sum := by
      unfold FlushEnv.taken
      rw [List.range_eq_range']
    rw [writeLoop_eq _ _ _ _ _ (s.put s.bufferSize [0]).bufferSize _ htotal]
    rfl

theorem flushBuffer_empty (hnamed : s.named = true) (hzero : s.bufferSize = 0) :
    s.flushBuffer e = (s, 0) := by
  unfold flushBuffer
  rw [if_pos hnamed, if_neg (by omega)]

/-- With the file open. -/
theorem flushBuffer_writes (h : Fits s) (hnamed : s.named = true) (hopen : s.isOpen = true) :
    Flushes s (s.flushBuffer e).1 (e.taken s.bufferSize) := by
  rcases Nat.eq_zero_or_pos s.bufferSize with hzero | hpos
  · have hnone : e.taken s.bufferSize = 0 := by
      rw [hzero]
      exact Nat.zero_min _
    rw [flushBuffer_empty hnamed hzero, hnone]
    exact .nothing h
  · obtain ⟨t, hwritten, -, -, heq⟩ := flushBuffer_eq (e := e) h hnamed hopen hpos
    rw [heq]
    split
    · exact hwritten.rotate _
    · exact hwritten

theorem flushBuffer_flushes (h : Fits s) (e : FlushEnv) :
    Flushes s (s.flushBuffer e).1 (s.takes e s.bufferSize) := by
  obtain ⟨heq, hnamed⟩ := flushBuffer_opened s e
  have hfits : Fits (s.opened e) := by
    unfold opened
    split <;> exact h
  have hfrom {t : LogState} {n : Nat} (ht : Flushes (s.opened e) t n) : Flushes s t n := by
    unfold opened at ht
    split at ht
    · exact ht
    · exact ⟨ht.fits, ht.size, ht.pending, ht.reached, ht.same⟩
  have hsize : (s.opened e).bufferSize = s.bufferSize := by
    unfold opened
    split <;> rfl
  have hopen : (s.opened e).isOpen = true ↔ s.isOpen = true ∨ ¬ s.named = true ∧ e.opens = true := by
    unfold opened
    split
    · next hn => simp [hn]
    · next hn => simp [hn]
  rw [heq]
  unfold takes
  split
  · next hcan =>
    have hwrites := flushBuffer_writes (e := e) hfits hnamed (hopen.mpr hcan)
    rw [hsize] at hwrites
    exact hfrom hwrites
  · next hcan =>
    have hsame : ((s.opened e).flushBuffer e).1 = s.opened e := by
      unfold flushBuffer
      rw [if_pos hnamed]
      dsimp only
      rw [if_neg (mt hopen.mp hcan)]
      split <;> rfl
    rw [hsame]
    exact hfrom (.nothing hfits)

/-- Once it can be opened, the file is open whenever it has its name. -/
theorem flushBuffer_open (hopen : s.named = true → s.isOpen = true) (he : e.opens = true) :
    (s.flushBuffer e).1.named = true → (s.flushBuffer e).1.isOpen = true := by
  have hopened : (s.opened e).isOpen = true := by
    unfold opened
    split
    · next hnamed => exact hopen hnamed
    · simp [he]
  obtain ⟨heq, hnamed⟩ := flushBuffer_opened s e
  rw [heq]
  unfold flushBuffer
  rw [if_pos hnamed]
  dsimp only
  rw [if_pos hopened]
  split
  · split
    · exact fun hrotated => absurd hrotated Bool.false_ne_true
    · exact fun _ => hopened
  · exact fun _ => hopened

/-! ## The three ways out of _log -/

theorem append_logLevel (h : Fits s) (c : LogCall) : (s.append c).1.logLevel = s.logLevel := by
  have honly := (append_appends h c).only
  unfold OnlyBuffer at honly
  rw [honly]

theorem log_later {c : LogCall} (h : Fits s) (hkeep : c.level ≤ s.logLevel) (hlow : 3 < c.level) :
    s.log c e = { (s.append c).1 with thread := true } := by
  unfold log
  dsimp only
  rw [if_pos (append_logLevel h c ▸ hkeep), if_neg (Int.not_le.mpr hlow)]

theorem log_now {c : LogCall} (h : Fits s) (hkeep : c.level ≤ s.logLevel) (hhigh : c.level ≤ 3) :
    s.log c e =
      { ((s.append c).1.flushBuffer e).1 with
        exited := c.level = 0 || ((s.append c).1.flushBuffer e).1.exited } := by
  unfold log
  dsimp only
  rw [if_pos (append_logLevel h c ▸ hkeep), if_pos hhigh]
  split
  · next hfatal => rw [decide_eq_true hfatal, Bool.true_or]
  · next hfatal => rw [decide_eq_false hfatal, Bool.false_or]

theorem log_dropped {c : LogCall} (h : Fits s) (hdrop : s.logLevel < c.level) :
    s.log c e = (s.append c).1.takeBack (s.append c).2 := by
  unfold log
  dsimp only
  rw [if_neg (append_logLevel h c ▸ Int.not_le.mpr hdrop)]

end LogState

end VideoPlayerCore
