import VideoPlayerCore.RingSteps

/-!
# The invariant of the ring buffer under every interleaving

`RingInv s` ties the two positions to the numbers of elements published and
obtained (`Counts`), the unread slots to the published elements (`stored`), and
each side's phase to what its stale load still guarantees: the other side only
ever moves its position in the direction that helps.

    Reach step (start b) s → RingInv s                        (ringInv_of_reach)
-/

namespace VideoPlayerCore

open Words AudioRingBuffer Machine

variable {W : Nat} {T : Type}

/-- What the pointer of `begin_write` covers, while `p` are published and `o` obtained. -/
structure WriteGrant (b : AudioRingBuffer W T) (p o : Nat) (frames : BitVec W) (slot : Nat) :
    Prop where
  slot_eq : slot = b.writePos.toNat
  contiguous : slot + frames.toNat ≤ b.slots
  room : p + frames.toNat < o + b.slots

/-- What the pointer of `begin_read` covers. -/
structure ReadGrant (b : AudioRingBuffer W T) (p o : Nat) (frames : BitVec W) (slot : Nat) :
    Prop where
  slot_eq : slot = b.readPos.toNat
  contiguous : slot + frames.toNat ≤ b.slots
  unread : o + frames.toNat ≤ p

/-- The first `copied` elements of the source are in their slots. -/
def WriteCall.Copied (b : AudioRingBuffer W T) (slot copied : Nat) : WriteCall W T → Prop
  | .write src n => copied ≤ n.toNat ∧ ∀ i, i < copied → b.buf (slot + i) = src i
  | .zeroCopy _ => True

/-- Everything seen through the pointer is the published element of its offset;
the copies of `read` are those of the offsets from 0 on. -/
structure ReadCall.Saw (published : List T) (o : Nat) (seen : List (Nat × T)) (call : ReadCall W) :
    Prop where
  mem : ∀ e ∈ seen, e.1 < call.frames.toNat ∧ published[o + e.1]? = some e.2
  copies : ∀ n, call = .read n →
    seen.length ≤ n.toNat ∧ seen.map Prod.snd = (published.drop o).take seen.length

def ProducerOk (b : AudioRingBuffer W T) (p o : Nat) : Producer W T → Prop
  | .idle => True
  | .loadedWrite _ w => w = b.writePos
  | .filling call slot copied => WriteGrant b p o call.frames slot ∧ call.Copied b slot copied
  | .ending call slot w =>
    w = b.writePos ∧ WriteGrant b p o call.frames slot ∧
      call.elements b slot = b.window slot call.frames

def ConsumerOk (b : AudioRingBuffer W T) (published : List T) (o : Nat) : Consumer W T → Prop
  | .idle => True
  | .loadedRead _ r => r = b.readPos
  | .reading call slot seen =>
    ReadGrant b published.length o call.frames slot ∧ call.Saw published o seen
  | .ending call slot seen r =>
    r = b.readPos ∧ ReadGrant b published.length o call.frames slot ∧ call.Saw published o seen ∧
      ∀ n, call = .read n → seen.length = n.toNat

structure RingInv (s : RingState W T) : Prop where
  counts : s.ring.Counts s.published.length s.obtained.length
  stored : ∀ k (hk : k < s.published.length), s.obtained.length ≤ k →
    s.ring.buf (k % s.ring.slots) = s.published[k]
  obtained : s.obtained <+: s.published
  producer : ProducerOk s.ring s.published.length s.obtained.length s.producer
  consumer : ConsumerOk s.ring s.published s.obtained.length s.consumer

/-! ## Windows -/

/-- The slots of a write grant are not those of unread elements. -/
theorem WriteGrant.slot_ne {b : AudioRingBuffer W T} {p o : Nat} {frames : BitVec W} {slot i k : Nat}
    (hg : WriteGrant b p o frames slot) (hc : b.Counts p o) (hi : i < frames.toNat)
    (hok : o ≤ k) (hkp : k < p) : k % b.slots ≠ slot + i := by
  have hroom := hg.room
  have hcont := hg.contiguous
  rw [← add_mod_slots (hg.slot_eq.trans hc.write) (by omega)]
  exact mod_ne_mod (by omega) (by omega)

theorem ReadGrant.slot_eq_mod {b : AudioRingBuffer W T} {p o : Nat} {frames : BitVec W}
    {slot j : Nat} (hg : ReadGrant b p o frames slot) (hc : b.Counts p o) (hj : j < frames.toNat) :
    slot + j = (o + j) % b.slots :=
  (add_mod_slots (hg.slot_eq.trans hc.read) (by have := hg.contiguous; omega)).symm

/-- A granted slot holds the published element of its offset. -/
theorem RingInv.buf_read {s : RingState W T} (hi : RingInv s) {frames : BitVec W} {slot j : Nat}
    (hg : ReadGrant s.ring s.published.length s.obtained.length frames slot)
    (hj : j < frames.toNat) :
    s.published[s.obtained.length + j]? = some (s.ring.buf (slot + j)) := by
  have hu := hg.unread
  have hk : s.obtained.length + j < s.published.length := by omega
  rw [List.getElem?_eq_getElem hk, hg.slot_eq_mod hi.counts hj, hi.stored _ hk (by omega)]

/-- The granted window is the next stretch of what has been published. -/
theorem RingInv.window_read {s : RingState W T} (hi : RingInv s) {frames : BitVec W} {slot : Nat}
    (hg : ReadGrant s.ring s.published.length s.obtained.length frames slot) :
    s.ring.window slot frames = (s.published.drop s.obtained.length).take frames.toNat := by
  have hu := hg.unread
  apply List.ext_getElem?
  intro j
  by_cases hj : j < frames.toNat
  · rw [List.getElem?_take_of_lt hj, List.getElem?_drop, hi.buf_read hg hj,
      List.getElem?_eq_getElem (by simpa using hj), window_getElem]
  · rw [List.getElem?_eq_none (by simpa using hj), List.getElem?_eq_none (by simp; omega)]

theorem WriteCall.elements_of_full {b : AudioRingBuffer W T} {call : WriteCall W T}
    {slot copied : Nat} (hc : call.Copied b slot copied) (hf : call.full copied) :
    call.elements b slot = b.window slot call.frames := by
  cases call with
  | zeroCopy n => rfl
  | write src n =>
    obtain rfl : copied = n.toNat := hf
    apply List.map_congr_left
    intro i hi
    exact (hc.2 i (List.mem_range.mp hi)).symm

/-! ## What one side keeps while the other moves -/

/-- The consumer's view survives a publication: what it may read only grows. -/
theorem ConsumerOk.publish {b b' : AudioRingBuffer W T} {published : List T} {o : Nat}
    {co : Consumer W T} (h : ConsumerOk b published o co) (ho : o ≤ published.length) (new : List T)
    (hr : b'.readPos = b.readPos) (hs : b'.slots = b.slots) :
    ConsumerOk b' (published ++ new) o co := by
  have hgrant : ∀ {frames : BitVec W} {slot : Nat}, ReadGrant b published.length o frames slot →
      ReadGrant b' (published ++ new).length o frames slot := by
    intro frames slot hg
    have hu := hg.unread
    exact ⟨hr ▸ hg.slot_eq, hs ▸ hg.contiguous, by rw [List.length_append]; omega⟩
  have hsaw : ∀ {call : ReadCall W} {slot : Nat} {seen : List (Nat × T)},
      ReadGrant b published.length o call.frames slot → call.Saw published o seen →
      call.Saw (published ++ new) o seen := by
    intro call slot seen hg hsw
    have hu := hg.unread
    refine ⟨fun e he => ?_, ?_⟩
    · obtain ⟨h1, h2⟩ := hsw.mem e he
      exact ⟨h1, by rw [List.getElem?_append_left (by omega)]; exact h2⟩
    · rintro n rfl
      obtain ⟨h1, h2⟩ := hsw.copies n rfl
      have hle : o + n.toNat ≤ published.length := hu
      rw [List.drop_append_of_le_length ho,
        List.take_append_of_le_length (by rw [List.length_drop]; omega)]
      exact ⟨h1, h2⟩
  cases co with
  | idle => trivial
  | loadedRead call r => exact (show r = b.readPos from h).trans hr.symm
  | reading call slot seen => exact ⟨hgrant h.1, hsaw h.1 h.2⟩
  | ending call slot seen r =>
    exact ⟨h.1.trans hr.symm, hgrant h.2.1, hsaw h.2.1 h.2.2.1, h.2.2.2⟩

/-- The producer's view survives a consumption: its room only grows. -/
theorem ProducerOk.consume {b b' : AudioRingBuffer W T} {p o o' : Nat} {pr : Producer W T}
    (h : ProducerOk b p o pr) (ho : o ≤ o') (hw : b'.writePos = b.writePos)
    (hs : b'.slots = b.slots) (hb : b'.buf = b.buf) : ProducerOk b' p o' pr := by
  have hgrant : ∀ {frames : BitVec W} {slot : Nat}, WriteGrant b p o frames slot →
      WriteGrant b' p o' frames slot := by
    intro frames slot hg
    have hroom := hg.room
    exact ⟨hw ▸ hg.slot_eq, hs ▸ hg.contiguous, by rw [hs]; omega⟩
  cases pr with
  | idle => trivial
  | loadedWrite call w => exact (show w = b.writePos from h).trans hw.symm
  | filling call slot copied =>
    refine ⟨hgrant h.1, ?_⟩
    cases call with
    | write src n => exact ⟨h.2.1, fun i hlt => hb ▸ h.2.2 i hlt⟩
    | zeroCopy n => trivial
  | ending call slot w =>
    refine ⟨h.1.trans hw.symm, hgrant h.2.1, ?_⟩
    have hwin : ∀ i n, b'.window i n = b.window i n := fun i n => by simp only [window, hb]
    cases call with
    | write src n => rw [hwin]; exact h.2.2
    | zeroCopy n => rfl

/-! ## Steps that leave the ring as it is -/

section
variable {s t : RingState W T} (hi : RingInv s)
include hi

theorem RingInv.of_producer {pr : Producer W T}
    (hp : ProducerOk s.ring s.published.length s.obtained.length pr) :
    RingInv { s with producer := pr } :=
  ⟨hi.counts, hi.stored, hi.obtained, hp, hi.consumer⟩

theorem RingInv.of_consumer {co : Consumer W T}
    (hc : ConsumerOk s.ring s.published s.obtained.length co) :
    RingInv { s with consumer := co } :=
  ⟨hi.counts, hi.stored, hi.obtained, hi.producer, hc⟩

theorem RingInv.beginWrite {call : WriteCall W T} (h : s.beginWrite call = some t) : RingInv t := by
  unfold RingState.beginWrite at h
  split at h
  · cases h
    exact hi.of_producer rfl
  · cases h

theorem RingInv.loadRead (h : s.loadRead = some t) : RingInv t := by
  unfold RingState.loadRead at h
  split at h
  · next call w hp =>
    have hw := hi.producer
    rw [hp] at hw
    obtain rfl : w = s.ring.writePos := hw
    split at h
    · cases h
      exact hi.of_producer trivial
    · next slot hb =>
      cases h
      obtain ⟨h1, h2, h3⟩ := hi.counts.beginWrite_eq_some.mp hb
      refine hi.of_producer ⟨⟨h1, h2, h3⟩, ?_⟩
      cases call with
      | write src n => exact ⟨Nat.zero_le _, fun i h => absurd h (Nat.not_lt_zero i)⟩
      | zeroCopy n => trivial
  · cases h

theorem RingInv.endWrite (h : s.endWrite = some t) : RingInv t := by
  unfold RingState.endWrite at h
  split at h
  · next call slot copied hp =>
    have hok := hi.producer
    rw [hp] at hok
    split at h
    · next hf =>
      cases h
      exact hi.of_producer ⟨rfl, hok.1, WriteCall.elements_of_full hok.2 hf⟩
    · cases h
  · cases h

theorem RingInv.beginRead {call : ReadCall W} (h : s.beginRead call = some t) : RingInv t := by
  unfold RingState.beginRead at h
  split at h
  · cases h
    exact hi.of_consumer rfl
  · cases h

theorem RingInv.loadWrite (h : s.loadWrite = some t) : RingInv t := by
  unfold RingState.loadWrite at h
  split at h
  · next call r hc =>
    have hr := hi.consumer
    rw [hc] at hr
    obtain rfl : r = s.ring.readPos := hr
    split at h
    · cases h
      exact hi.of_consumer trivial
    · next slot hb =>
      cases h
      obtain ⟨h1, h2, h3⟩ := hi.counts.beginRead_eq_some.mp hb
      refine hi.of_consumer ⟨⟨h1, h2, h3⟩, ?_, ?_⟩
      · intro e he
        cases he
      · intro n _
        simp
  · cases h

theorem RingInv.use {i : Nat} (h : s.use i = some t) : RingInv t := by
  unfold RingState.use at h
  split at h
  · next n slot seen hc =>
    have hok := hi.consumer
    rw [hc] at hok
    split at h
    · next hlt =>
      cases h
      refine hi.of_consumer ⟨hok.1, ?_, fun m hm => by cases hm⟩
      intro e he
      rcases List.mem_append.mp he with he | he
      · exact hok.2.mem e he
      · obtain rfl := List.mem_singleton.mp he
        exact ⟨hlt, hi.buf_read hok.1 hlt⟩
    · cases h
  · cases h

theorem RingInv.copyOut (h : s.copyOut = some t) : RingInv t := by
  unfold RingState.copyOut at h
  split at h
  · next n slot seen hc =>
    have hok := hi.consumer
    rw [hc] at hok
    split at h
    · next hlt =>
      cases h
      have hbuf := hi.buf_read hok.1 hlt
      refine hi.of_consumer ⟨hok.1, ?_, ?_⟩
      · intro e he
        rcases List.mem_append.mp he with he | he
        · exact hok.2.mem e he
        · obtain rfl := List.mem_singleton.mp he
          exact ⟨hlt, hbuf⟩
      · intro m hm
        cases hm
        have hcop := (hok.2.copies n rfl).2
        refine ⟨by simp; omega, ?_⟩
        rw [List.map_append, hcop, List.length_append, List.length_singleton, List.take_add_one,
          List.getElem?_drop, hbuf]
        rfl
    · cases h
  · cases h

theorem RingInv.endRead (h : s.endRead = some t) : RingInv t := by
  unfold RingState.endRead at h
  split at h
  · next n slot seen hc =>
    have hok := hi.consumer
    rw [hc] at hok
    split at h
    · next hlen =>
      cases h
      refine hi.of_consumer ⟨rfl, hok.1, hok.2, fun m hm => ?_⟩
      cases hm
      exact hlen
    · cases h
  · next n slot seen hc =>
    have hok := hi.consumer
    rw [hc] at hok
    cases h
    exact hi.of_consumer ⟨rfl, hok.1, hok.2, fun m hm => by cases hm⟩
  · cases h

/-! ## Steps that store an element -/

/-- A store into a granted slot: unread elements and the consumer are not touched. -/
theorem RingInv.of_poke {frames : BitVec W} {slot i : Nat} {v : T} {pr : Producer W T}
    (hg : WriteGrant s.ring s.published.length s.obtained.length frames slot)
    (hlt : i < frames.toNat)
    (hp : ProducerOk (s.ring.poke (slot + i) v) s.published.length s.obtained.length pr) :
    RingInv { s with ring := s.ring.poke (slot + i) v, producer := pr } := by
  refine ⟨⟨hi.counts.write, hi.counts.read, hi.counts.le, hi.counts.lt⟩, ?_, hi.obtained, hp, ?_⟩
  · intro k hk hok
    show (s.ring.poke (slot + i) v).buf (k % s.ring.slots) = s.published[k]
    rw [poke_buf_ne _ _ (hg.slot_ne hi.counts hlt hok hk), hi.stored k hk hok]
  · have hc := hi.consumer
    show ConsumerOk (s.ring.poke (slot + i) v) s.published s.obtained.length s.consumer
    cases hco : s.consumer with
    | idle => trivial
    | loadedRead call r => rw [hco] at hc; exact hc
    | reading call sl seen =>
      rw [hco] at hc
      exact ⟨⟨hc.1.slot_eq, hc.1.contiguous, hc.1.unread⟩, hc.2⟩
    | ending call sl seen r =>
      rw [hco] at hc
      exact ⟨hc.1, ⟨hc.2.1.slot_eq, hc.2.1.contiguous, hc.2.1.unread⟩, hc.2.2⟩

theorem RingInv.fill {i : Nat} {v : T} (h : s.fill i v = some t) : RingInv t := by
  unfold RingState.fill at h
  split at h
  · next n slot copied hp =>
    have hok := hi.producer
    rw [hp] at hok
    obtain ⟨hg, -⟩ := hok
    split at h
    · next hlt =>
      cases h
      have hok : ProducerOk (s.ring.poke (slot + i) v) s.published.length s.obtained.length
          s.producer := by
        rw [hp]
        exact ⟨⟨hg.slot_eq, hg.contiguous, hg.room⟩, trivial⟩
      exact hi.of_poke hg hlt hok
    · cases h
  · cases h

theorem RingInv.copyIn (h : s.copyIn = some t) : RingInv t := by
  unfold RingState.copyIn at h
  split at h
  · next src n slot copied hp =>
    have hok := hi.producer
    rw [hp] at hok
    obtain ⟨hg, hcop⟩ := hok
    split at h
    · next hlt =>
      cases h
      refine hi.of_poke hg hlt ⟨⟨hg.slot_eq, hg.contiguous, hg.room⟩, hlt, ?_⟩
      intro i hile
      rcases Nat.lt_succ_iff_lt_or_eq.mp hile with hi' | rfl
      · rw [poke_buf_ne _ _ (by omega), hcop.2 i hi']
      · exact poke_buf_self _ _ _
    · cases h
  · cases h

/-! ## Steps that store a position -/

theorem RingInv.storeWrite (h : s.storeWrite = some t) : RingInv t := by
  unfold RingState.storeWrite at h
  split at h
  · next call slot w hp =>
    cases h
    have hok := hi.producer
    rw [hp] at hok
    obtain ⟨rfl, hg, hel⟩ := hok
    rw [hel]
    have hlen : (s.published ++ s.ring.window slot call.frames).length =
        s.published.length + call.frames.toNat := by simp
    refine ⟨?_, ?_, hi.obtained.trans (List.prefix_append _ _), trivial, ?_⟩
    · show AudioRingBuffer.Counts _ (s.published ++ s.ring.window slot call.frames).length
        s.obtained.length
      rw [hlen]
      exact hi.counts.publish hg.room
    · intro k hk hok
      show s.ring.buf (k % s.ring.slots) = _
      by_cases hold : k < s.published.length
      · rw [List.getElem_append_left hold, hi.stored k hold hok]
      · -- a slot of the window that has just been published
        have hcont := hg.contiguous
        have hj : k - s.published.length < call.frames.toNat := by
          have : k < (s.published ++ s.ring.window slot call.frames).length := hk
          omega
        have he : k = s.published.length + (k - s.published.length) := by omega
        rw [List.getElem_append_right (by omega), window_getElem,
          ← add_mod_slots (hg.slot_eq.trans hi.counts.write) (by omega), ← he]
    · exact hi.consumer.publish hi.obtained.length_le _ rfl rfl
  · cases h

theorem RingInv.storeRead (h : s.storeRead = some t) : RingInv t := by
  unfold RingState.storeRead at h
  split at h
  · next call slot seen r hc =>
    cases h
    have hok := hi.consumer
    rw [hc] at hok
    obtain ⟨rfl, hg, hsaw, hlen⟩ := hok
    have hel : call.elements s.ring slot seen =
        (s.published.drop s.obtained.length).take call.frames.toNat := by
      cases call with
      | read n =>
        rw [← show seen.length = (ReadCall.read n).frames.toNat from hlen n rfl]
        exact (hsaw.copies n rfl).2
      | zeroCopy n => exact hi.window_read hg
    have hob : s.obtained ++ call.elements s.ring slot seen =
        s.published.take (s.obtained.length + call.frames.toNat) := by
      rw [hel, List.take_add, ← List.prefix_iff_eq_take.mp hi.obtained]
    have hlen' : (s.obtained ++ call.elements s.ring slot seen).length =
        s.obtained.length + call.frames.toNat := by
      rw [hob, List.length_take, Nat.min_eq_left hg.unread]
    refine ⟨?_, ?_, ?_, ?_, trivial⟩
    · show AudioRingBuffer.Counts _ s.published.length
        (s.obtained ++ call.elements s.ring slot seen).length
      rw [hlen']
      exact hi.counts.consume hg.unread
    · intro k hk hok
      have hok' : s.obtained.length + call.frames.toNat ≤ k := hlen' ▸ hok
      exact hi.stored k hk (by omega)
    · show s.obtained ++ call.elements s.ring slot seen <+: s.published
      rw [hob]
      exact List.take_prefix _ _
    · show ProducerOk _ s.published.length (s.obtained ++ call.elements s.ring slot seen).length _
      rw [hlen']
      exact hi.producer.consume (Nat.le_add_right _ _) rfl rfl rfl
  · cases h

theorem RingInv.step {a : RingAct W T} (h : s.step a = some t) : RingInv t := by
  cases a with
  | beginWrite call => exact hi.beginWrite h
  | loadRead => exact hi.loadRead h
  | fill i v => exact hi.fill h
  | copyIn => exact hi.copyIn h
  | endWrite => exact hi.endWrite h
  | storeWrite => exact hi.storeWrite h
  | beginRead call => exact hi.beginRead h
  | loadWrite => exact hi.loadWrite h
  | use i => exact hi.use h
  | copyOut => exact hi.copyOut h
  | endRead => exact hi.endRead h
  | storeRead => exact hi.storeRead h

end

theorem ringInv_start {b : AudioRingBuffer W T} (hb : FreshRing b) : RingInv (.start b) :=
  ⟨hb.counts, fun _ hk => absurd hk (Nat.not_lt_zero _), List.prefix_rfl, trivial, trivial⟩

theorem ringInv_of_reach {b : AudioRingBuffer W T} {s : RingState W T} (hb : FreshRing b)
    (h : Reach RingState.step (.start b) s) : RingInv s :=
  h.invariant (ringInv_start hb) fun _ _ _ hi hs => hi.step hs

end VideoPlayerCore
