import VideoPlayerCore.ChannelSteps
import VideoPlayerCore.RingSafety
import VideoPlayerCore.Chunks

/-!
# `reset()` against a polling callback

`reset()` stores `write_pos_` and `read_pos_` one after the other while the
callback keeps polling.  Between the two stores, or with a `read_pos_` loaded
before them, `begin_read` sees positions that no state of the queue has and hands
out a block that is not unread                          (channel_reset_mixes_stale)

Apart from that the channel is sound: if no `begin_read` decides from such a pair,
the blocks mixed are a prefix of the blocks published    (channel_mixes_published)

The proof views the ring from the last completed `reset()` on: `base` bytes are
dropped from both logs, and what remains satisfies the ring's own invariant.
-/

namespace VideoPlayerCore

open Words AudioRingBuffer Machine Chunks

variable {W : Nat} {T : Type}

/-! ## The ring since the last reset -/

/-- A callback between its two loads holds nothing yet. -/
def Consumer.settled : Consumer W T → Consumer W T
  | .loadedRead _ _ => .idle
  | c => c

/-- The ring with the first `base` elements of both logs dropped. -/
def RingState.since (base : Nat) (q : RingState W T) : RingState W T :=
  { q with
    consumer := q.consumer.settled
    published := q.published.drop base
    obtained := q.obtained.drop base }

section
variable {base : Nat} {q q' : RingState W T}

theorem since_producer {a : RingAct W T} (hb : base ≤ q.published.length) (ha : a.byProducer)
    (h : q.step a = some q') : (q.since base).step a = some (q'.since base) := by
  obtain ⟨ring, pr, co, pub, ob⟩ := q
  have hdrop : ∀ new, (pub ++ new).drop base = pub.drop base ++ new := fun new =>
    List.drop_append_of_le_length hb
  cases a <;> simp only [RingAct.byProducer] at ha <;> cases pr <;>
    simp only [RingState.step, RingState.beginWrite, RingState.loadRead, RingState.fill,
      RingState.copyIn, RingState.endWrite, RingState.storeWrite, RingState.since] at h ⊢ <;>
    (repeat' split at h) <;> cases h <;> simp_all

theorem since_endRead (base : Nat) (h : q.endRead = some q') :
    (q.since base).endRead = some (q'.since base) := by
  obtain ⟨ring, pr, co, pub, ob⟩ := q
  cases co <;>
    simp only [RingState.endRead, RingState.since, Consumer.settled] at h ⊢ <;>
    (repeat' split at h) <;> cases h <;> simp_all

theorem since_storeRead (hb : base ≤ q.obtained.length) (h : q.storeRead = some q') :
    (q.since base).storeRead = some (q'.since base) := by
  obtain ⟨ring, pr, co, pub, ob⟩ := q
  have hdrop : ∀ new, (ob ++ new).drop base = ob.drop base ++ new := fun new =>
    List.drop_append_of_le_length hb
  cases co <;> simp only [RingState.storeRead, RingState.since, Consumer.settled] at h ⊢ <;>
    cases h
  simp [hdrop]

theorem since_beginRead (base : Nat) {call : ReadCall W} (h : q.beginRead call = some q') :
    q'.since base = q.since base := by
  obtain ⟨ring, pr, co, pub, ob⟩ := q
  cases co <;> simp only [RingState.beginRead] at h <;> cases h
  rfl

/-- `begin_read` decides from a `read_pos_` that is still current: the two steps of
a callback that loads both positions now. -/
theorem since_loadWrite (hi : RingInv (q.since base)) {call : ReadCall W}
    (hc : q.consumer = .loadedRead call q.ring.readPos) (h : q.loadWrite = some q') :
    RingInv (q'.since base) := by
  obtain ⟨ring, pr, co, pub, ob⟩ := q
  obtain rfl : co = .loadedRead call ring.readPos := hc
  have h1 : (RingState.since base ⟨ring, pr, .loadedRead call ring.readPos, pub, ob⟩).beginRead call =
      some ⟨ring, pr, .loadedRead call ring.readPos, pub.drop base, ob.drop base⟩ := rfl
  refine (hi.beginRead h1).loadWrite (t := q'.since base) ?_
  simp only [RingState.loadWrite] at h ⊢
  split at h <;> cases h <;> simp_all [RingState.since, Consumer.settled]

/-- `begin_read` with equal positions returns `nullptr`. -/
theorem loadWrite_of_eq {call : ReadCall W} (hF : 0 < call.frames.toNat)
    (hc : q.consumer = .loadedRead call q.ring.writePos) (h : q.loadWrite = some q') :
    q' = { q with consumer := .idle } := by
  have hnone : q.ring.beginRead q.ring.writePos q.ring.writePos call.frames = none := by
    simp [beginRead, BitVec.lt_def, hF]
  simp only [RingState.loadWrite, hc, hnone] at h
  cases h
  rfl

end

/-! ## The invariant -/

/-- The callback holds no block. -/
def ChannelState.Quiet (s : ChannelState W) : Prop :=
  s.callback = .fresh ∧ s.q.consumer.settled = .idle ∧
    s.q.obtained.length = s.q.published.length

/-- What each point of the EOF branch knows. -/
def ChannelState.EofOk (s : ChannelState W) : Prop :=
  match s.eof with
  | .none => True
  | .polling => s.q.producer = .idle
  | .loaded r => s.q.producer = .idle ∧ ∃ o, s.base ≤ o ∧ o ≤ s.q.obtained.length ∧
      r.toNat = (o - s.base) % s.q.ring.slots ∧
      s.q.published.length - s.base < o - s.base + s.q.ring.slots
  | .drained => s.q.producer = .idle ∧ s.Quiet
  | .midReset => s.q.producer = .idle ∧ s.Quiet ∧ s.q.ring.writePos = 0
  | .clearing _ => s.q.producer = .idle ∧ s.Quiet

/-- All calls of the channel are of one size. -/
def ChannelState.Sized (F : BitVec W) (s : ChannelState W) : Prop :=
  (match s.q.producer with
    | .idle => True
    | .loadedWrite call _ | .filling call _ _ | .ending call _ _ => call = .zeroCopy F) ∧
  (match s.q.consumer with
    | .idle => True
    | .loadedRead call _ | .reading call _ _ | .ending call _ _ _ => call = .zeroCopy F)

/-- The logs, `k` blocks having been given back by `end_read`. -/
structure ChannelLog (F : BitVec W) (s : ChannelState W) (k : Nat) : Prop where
  cut : Cut F.toNat s.blocks
  flatten : s.blocks.flatten = s.q.published
  obtained : s.q.obtained.length = F.toNat * k
  mixed : s.mixed = s.blocks.take (k + if s.callback = .mixed then 1 else 0)
  headers : s.headers = (s.blocks.map (List.take 8)).take (k + if s.callback = .fresh then 0 else 1)
  bound : (k + if s.callback = .fresh then 0 else 1) ≤ s.blocks.length
  held : match s.q.consumer with
    | .idle | .loadedRead _ _ => s.callback = .fresh
    | .reading _ _ _ => True
    | .ending _ _ _ _ => s.callback = .mixed

theorem ChannelLog.of_logs {F : BitVec W} {s t : ChannelState W} {k : Nat} (h : ChannelLog F s k)
    (hb : t.blocks = s.blocks) (hm : t.mixed = s.mixed) (hh : t.headers = s.headers)
    (hc : t.callback = s.callback) (hpub : t.q.published = s.q.published)
    (hob : t.q.obtained = s.q.obtained) (hco : t.q.consumer = s.q.consumer) : ChannelLog F t k := by
  refine ⟨?_, ?_, ?_, ?_, ?_, ?_, ?_⟩ <;> simp only [hb, hm, hh, hc, hpub, hob, hco]
  · exact h.cut
  · exact h.flatten
  · exact h.obtained
  · exact h.mixed
  · exact h.headers
  · exact h.bound
  · exact h.held

structure ChannelInv (F : BitVec W) (s : ChannelState W) : Prop where
  base_le : s.base ≤ s.q.obtained.length
  le : s.q.obtained.length ≤ s.q.published.length
  ring : s.eof ≠ .midReset → RingInv (s.q.since s.base)
  eof : s.EofOk
  sized : s.Sized F
  log : ∃ k, ChannelLog F s k

section
variable {F : BitVec W} {s t : ChannelState W}

/-- The EOF branch is not disturbed by the callback while it waits. -/
theorem ChannelState.EofOk.callback (h : s.EofOk) (he : t.eof = s.eof) (hb : t.base = s.base)
    (hp : t.q.producer = s.q.producer) (hpub : t.q.published = s.q.published)
    (hob : s.q.obtained.length ≤ t.q.obtained.length) (hs : t.q.ring.slots = s.q.ring.slots)
    (hw : t.q.ring.writePos = s.q.ring.writePos) (hq : s.Quiet → t.Quiet) : t.EofOk := by
  unfold ChannelState.EofOk at h ⊢
  rw [he]
  cases hph : s.eof with
  | none => trivial
  | polling => rw [hph] at h; exact hp.trans h
  | loaded r =>
    rw [hph] at h
    obtain ⟨h1, o, h2, h3, h4, h5⟩ := h
    simp only [hp, hpub, hs, hb]
    exact ⟨h1, o, h2, h3.trans hob, h4, h5⟩
  | drained => rw [hph] at h; exact ⟨hp.trans h.1, hq h.2⟩
  | midReset => rw [hph] at h; exact ⟨hp.trans h.1, hq h.2.1, hw.trans h.2.2⟩
  | clearing i => rw [hph] at h; exact ⟨hp.trans h.1, hq h.2⟩

theorem ChannelState.EofOk.quiet (h : s.EofOk) (he : s.eof = .midReset) : s.Quiet := by
  unfold ChannelState.EofOk at h
  rw [he] at h
  exact h.2.1

/-- A callback that holds a block holds the next unread one. -/
theorem ChannelInv.held (hi : ChannelInv F s) {slot : Nat} {seen : List (Nat × UInt8)}
    (hc : s.q.consumer = .reading (.zeroCopy F) slot seen ∨
      ∃ r, s.q.consumer = .ending (.zeroCopy F) slot seen r) :
    s.eof ≠ .midReset ∧ s.q.obtained.length + F.toNat ≤ s.q.published.length ∧
      s.q.ring.window slot F = (s.q.published.drop s.q.obtained.length).take F.toNat := by
  have hmid : s.eof ≠ .midReset := by
    intro he
    obtain ⟨-, hq, -⟩ := hi.eof.quiet he
    obtain hc | ⟨r, hc⟩ := hc <;> rw [hc] at hq <;> cases hq
  have hr := hi.ring hmid
  have hbase := hi.base_le
  have hle := hi.le
  have hg : ReadGrant s.q.ring (s.q.since s.base).published.length
      (s.q.since s.base).obtained.length F slot := by
    have hco := hr.consumer
    obtain hc | ⟨r, hc⟩ := hc <;> simp only [RingState.since, hc, Consumer.settled] at hco
    · exact hco.1
    · exact hco.2.1
  refine ⟨hmid, ?_, ?_⟩
  · have hu := hg.unread
    simp only [RingState.since, List.length_drop] at hu
    omega
  · have hwin := hr.window_read hg
    simp only [RingState.since, List.drop_drop, List.length_drop] at hwin
    rw [show s.base + (s.q.obtained.length - s.base) = s.q.obtained.length by omega] at hwin
    exact hwin

/-- Nothing is held once everything published has been obtained. -/
theorem ChannelInv.quiet_of_length (hi : ChannelInv F s) (hF : 0 < F.toNat)
    (hlen : s.q.obtained.length = s.q.published.length) : s.Quiet := by
  obtain ⟨k, hlog⟩ := hi.log
  have hheld := hlog.held
  have hsized := hi.sized.2
  cases hc : s.q.consumer with
  | idle =>
    rw [hc] at hheld
    exact ⟨hheld, by rw [hc]; rfl, hlen⟩
  | loadedRead call r =>
    rw [hc] at hheld
    exact ⟨hheld, by rw [hc]; rfl, hlen⟩
  | reading call slot seen =>
    rw [hc] at hsized
    obtain rfl : call = .zeroCopy F := hsized
    have := (hi.held (.inl hc)).2.1
    omega
  | ending call slot seen r =>
    rw [hc] at hsized
    obtain rfl : call = .zeroCopy F := hsized
    have := (hi.held (.inr ⟨r, hc⟩)).2.1
    omega

/-- The block a callback holds is the published block number `k`. -/
theorem ChannelInv.window_eq (hi : ChannelInv F s) (hF : 0 < F.toNat) {k slot : Nat}
    {seen : List (Nat × UInt8)} (hlog : ChannelLog F s k)
    (hc : s.q.consumer = .reading (.zeroCopy F) slot seen) :
    ∃ hk : k < s.blocks.length, s.q.ring.window slot F = s.blocks[k] := by
  obtain ⟨-, hle, hwin⟩ := hi.held (.inl hc)
  have hlen := hlog.cut.length_flatten
  rw [hlog.flatten] at hlen
  have hk : k < s.blocks.length := by
    rw [hlen, hlog.obtained, ← Nat.mul_succ] at hle
    exact Nat.le_of_mul_le_mul_left hle hF
  refine ⟨hk, ?_⟩
  rw [hwin, hlog.obtained, ← hlog.flatten, hlog.cut.take_drop hk]

/-! ## Steps of the display thread -/

theorem sized_display {a : RingAct W UInt8} {q : RingState W UInt8} (hs : s.Sized F)
    (hco : q.consumer = s.q.consumer) (h : s.q.step a = some q)
    (ha : a = .beginWrite (.zeroCopy F) ∨ a = .loadRead ∨ (∃ i v, a = .fill i v) ∨ a = .endWrite ∨
      a = .storeWrite) : ChannelState.Sized F { s with q := q } := by
  refine ⟨?_, ?_⟩
  · have hp := hs.1
    show match q.producer with
      | .idle => True
      | .loadedWrite call _ | .filling call _ _ | .ending call _ _ => call = .zeroCopy F
    obtain rfl | rfl | ⟨i, v, rfl⟩ | rfl | rfl := ha
    · simp only [RingState.step, RingState.beginWrite] at h
      split at h <;> cases h
      rfl
    · simp only [RingState.step, RingState.loadRead] at h
      split at h
      · next hpr =>
        rw [hpr] at hp
        split at h <;> cases h
        · trivial
        · exact hp
      · cases h
    · simp only [RingState.step, RingState.fill] at h
      split at h
      · next hpr =>
        split at h <;> cases h
        exact hp
      · cases h
    · simp only [RingState.step, RingState.endWrite] at h
      split at h
      · next hpr =>
        rw [hpr] at hp
        split at h <;> cases h
        exact hp
      · cases h
    · simp only [RingState.step, RingState.storeWrite] at h
      split at h <;> cases h
      trivial
  · have hc := hs.2
    simp only [hco]
    exact hc

/-- A step of the display thread that publishes nothing. -/
theorem ChannelInv.display (hi : ChannelInv F s) {a : RingAct W UInt8}
    (ha : a = .beginWrite (.zeroCopy F) ∨ a = .loadRead ∨ (∃ i v, a = .fill i v) ∨ a = .endWrite)
    (h : s.display a = some t) : ChannelInv F t := by
  unfold ChannelState.display at h
  split at h
  · next heof =>
    obtain ⟨q, hq, rfl⟩ := Option.map_eq_some_iff.mp h
    have hby : a.byProducer := by
      obtain rfl | rfl | ⟨i, v, rfl⟩ | rfl := ha <;> trivial
    obtain ⟨-, hob, hco⟩ := RingState.step_by_producer hq hby
    have hpub : q.published = s.q.published := by
      obtain rfl | rfl | ⟨i, v, rfl⟩ | rfl := ha <;>
        simp only [RingState.step, RingState.beginWrite, RingState.loadRead, RingState.fill,
          RingState.endWrite] at hq <;>
        (repeat' split at hq) <;> cases hq <;> rfl
    obtain ⟨k, hlog⟩ := hi.log
    refine ⟨?_, ?_, fun _ => ?_, ?_, ?_, k, ?_⟩
    · simp only [hob]
      exact hi.base_le
    · simp only [hob, hpub]
      exact hi.le
    · exact (hi.ring (by simp [heof])).step (since_producer (hi.base_le.trans hi.le) hby hq)
    · unfold ChannelState.EofOk
      simp only [heof]
    · refine sized_display hi.sized hco hq ?_
      obtain h | h | h | h := ha
      · exact .inl h
      · exact .inr (.inl h)
      · exact .inr (.inr (.inl h))
      · exact .inr (.inr (.inr (.inl h)))
    · exact hlog.of_logs rfl rfl rfl rfl hpub hob hco
  · cases h

theorem ChannelInv.storeWrite (hi : ChannelInv F s) (h : s.storeWrite = some t) :
    ChannelInv F t := by
  unfold ChannelState.storeWrite at h
  split at h
  · next call slot w hp =>
    obtain ⟨u, hu, rfl⟩ := Option.map_eq_some_iff.mp h
    unfold ChannelState.display at hu
    split at hu
    · next heof =>
      obtain ⟨q, hq, rfl⟩ := Option.map_eq_some_iff.mp hu
      obtain ⟨-, hob, hco⟩ := RingState.step_by_producer hq trivial
      have hcall : call = .zeroCopy F := by
        have := hi.sized.1
        rw [hp] at this
        exact this
      subst hcall
      have hpub : q.published = s.q.published ++ s.q.ring.window slot F := by
        simp only [RingState.step, RingState.storeWrite, hp] at hq
        cases hq
        rfl
      obtain ⟨k, hlog⟩ := hi.log
      have hbound := hlog.bound
      refine ⟨?_, ?_, fun _ => ?_, ?_, ?_, k, ?_⟩
      · simp only [hob]
        exact hi.base_le
      · simp only [hob, hpub, List.length_append]
        exact Nat.le_add_right_of_le hi.le
      · exact (hi.ring (by simp [heof])).step
          (since_producer (a := .storeWrite) (hi.base_le.trans hi.le) trivial hq)
      · unfold ChannelState.EofOk
        simp only [heof]
      · have hsz := sized_display hi.sized hco hq (.inr (.inr (.inr (.inr rfl))))
        exact hsz
      · refine ⟨hlog.cut.append (window_length _ _ _), ?_,
          (congrArg List.length hob).trans hlog.obtained, ?_, ?_, ?_, by rw [hco]; exact hlog.held⟩
        · rw [List.flatten_append, hlog.flatten, hpub]
          simp [WriteCall.elements]
        · rw [List.take_append_of_le_length]
          · exact hlog.mixed
          · -- a block that is mixed is not fresh
            refine Nat.le_trans (Nat.add_le_add_left ?_ k) hbound
            cases s.callback <;> decide
        · rw [List.map_append, List.take_append_of_le_length (by simpa using hbound)]
          exact hlog.headers
        · exact hbound.trans (by simp)
    · cases hu
  · cases h

theorem ChannelInv.eofMarker (hi : ChannelInv F s) (h : s.eofMarker = some t) :
    ChannelInv F t := by
  unfold ChannelState.eofMarker at h
  split at h
  · next hp he =>
    cases h
    exact ⟨hi.base_le, hi.le, fun _ => hi.ring (by rw [he]; nofun), hp, hi.sized,
      hi.log.imp fun k hl => hl.of_logs rfl rfl rfl rfl rfl rfl rfl⟩
  · cases h

theorem ChannelInv.pollRead (hi : ChannelInv F s) (h : s.pollRead = some t) : ChannelInv F t := by
  unfold ChannelState.pollRead at h
  split at h
  · next he =>
    cases h
    have hr := hi.ring (by rw [he]; nofun)
    have hbase := hi.base_le
    have hp : s.q.producer = .idle := by
      have := hi.eof
      unfold ChannelState.EofOk at this
      rwa [he] at this
    refine ⟨hi.base_le, hi.le, fun _ => hr, ⟨hp, s.q.obtained.length, hbase, le_rfl, ?_, ?_⟩,
      hi.sized,
      hi.log.imp fun k hl => hl.of_logs rfl rfl rfl rfl rfl rfl rfl⟩
    · have := hr.counts.read
      simpa [RingState.since] using this
    · have := hr.counts.lt
      simpa [RingState.since] using this
  · cases h

theorem ChannelInv.pollWrite (hi : ChannelInv F s) (hF : 0 < F.toNat)
    (h : s.pollWrite = some t) : ChannelInv F t := by
  unfold ChannelState.pollWrite at h
  split at h
  · next r he =>
    have hr := hi.ring (by rw [he]; nofun)
    have heof := hi.eof
    unfold ChannelState.EofOk at heof
    rw [he] at heof
    obtain ⟨hp, o, hbo, hoo, hro, hlt⟩ := heof
    have hle := hi.le
    split at h
    · next hzero =>
      cases h
      -- the read position loaded earlier already stood for everything published
      have hlen : s.q.obtained.length = s.q.published.length := by
        have hw := hr.counts.write
        simp only [RingState.since, List.length_drop] at hw
        have hsub := s.q.ring.cap.sub_and_mask hw hro (by omega) hlt
        have h0 : (0 : BitVec W).toNat = 0 := by simp
        rw [hzero, h0] at hsub
        omega
      exact ⟨hi.base_le, hi.le, fun _ => hr, ⟨hp, hi.quiet_of_length hF hlen⟩, hi.sized,
        hi.log.imp fun k hl => hl.of_logs rfl rfl rfl rfl rfl rfl rfl⟩
    · cases h
      exact ⟨hi.base_le, hi.le, fun _ => hr, hp, hi.sized,
        hi.log.imp fun k hl => hl.of_logs rfl rfl rfl rfl rfl rfl rfl⟩
  · cases h

theorem ChannelInv.resetWrite (hi : ChannelInv F s) (h : s.resetWrite = some t) :
    ChannelInv F t := by
  unfold ChannelState.resetWrite at h
  split at h
  · next he =>
    cases h
    have heof := hi.eof
    unfold ChannelState.EofOk at heof
    rw [he] at heof
    exact ⟨hi.base_le, hi.le, fun hne => absurd rfl hne, ⟨heof.1, heof.2, rfl⟩, hi.sized,
      hi.log.imp fun k hl => hl.of_logs rfl rfl rfl rfl rfl rfl rfl⟩
  · cases h

/-- The ring is as new after the second store. -/
theorem ChannelInv.resetRead (hi : ChannelInv F s) (h : s.resetRead = some t) :
    ChannelInv F t := by
  unfold ChannelState.resetRead at h
  split at h
  · next he =>
    cases h
    have heof := hi.eof
    unfold ChannelState.EofOk at heof
    rw [he] at heof
    obtain ⟨hp, hq, hw⟩ := heof
    obtain ⟨hfresh, hset, hlen⟩ := hq
    refine ⟨hlen.ge, hi.le, fun _ => ?_, ⟨hp, hfresh, hset, hlen⟩, hi.sized,
      hi.log.imp fun k hl => hl.of_logs rfl rfl rfl rfl rfl rfl rfl⟩
    have hob : s.q.obtained.drop s.q.published.length = [] := by
      rw [← hlen, List.drop_length]
    refine ⟨?_, ?_, ?_, ?_, ?_⟩
    · simp only [RingState.since, hob, List.drop_length, List.length_nil]
      refine ⟨?_, by simp, le_rfl, ?_⟩
      · simp only [setRead_writePos, hw]
        simp
      · show 0 < 0 + s.q.ring.slots
        have := s.q.ring.cap.toNat_pos
        simpa [slots] using this
    · intro k hk
      simp only [RingState.since, List.drop_length, List.length_nil] at hk
      exact absurd hk (Nat.not_lt_zero k)
    · simp only [RingState.since, hob]
      exact List.nil_prefix
    · simp only [RingState.since, hp]
      trivial
    · simp only [RingState.since, hset]
      trivial
  · cases h

theorem ChannelInv.clear (hi : ChannelInv F s) (h : s.clear = some t) : ChannelInv F t := by
  unfold ChannelState.clear at h
  split at h
  · next i he =>
    have hr := hi.ring (by rw [he]; nofun)
    have heof := hi.eof
    unfold ChannelState.EofOk at heof
    rw [he] at heof
    obtain ⟨hp, hfresh, hset, hlen⟩ := heof
    split at h
    · cases h
      refine ⟨hi.base_le, hi.le, fun _ => ?_, ⟨hp, hfresh, hset, hlen⟩, hi.sized,
        hi.log.imp fun k hl => hl.of_logs rfl rfl rfl rfl rfl rfl rfl⟩
      refine ⟨⟨hr.counts.write, hr.counts.read, hr.counts.le, hr.counts.lt⟩, ?_, hr.obtained, ?_, ?_⟩
      · intro k hk hok
        simp only [RingState.since, List.length_drop] at hk hok
        omega
      · simp only [RingState.since, hp]
        trivial
      · simp only [RingState.since, hset]
        trivial
    · cases h
      exact ⟨hi.base_le, hi.le, fun _ => hr, trivial, hi.sized,
        hi.log.imp fun k hl => hl.of_logs rfl rfl rfl rfl rfl rfl rfl⟩
  · cases h

/-! ## Steps of the callback -/

theorem ChannelInv.beginRead (hi : ChannelInv F s)
    (h : s.onCallback (.beginRead (.zeroCopy F)) = some t) : ChannelInv F t := by
  unfold ChannelState.onCallback at h
  obtain ⟨q, hq, rfl⟩ := Option.map_eq_some_iff.mp h
  have hsince := since_beginRead s.base hq
  simp only [RingState.step, RingState.beginRead] at hq
  split at hq
  · next hco =>
    cases hq
    obtain ⟨k, hlog⟩ := hi.log
    have hfresh : s.callback = .fresh := by
      have := hlog.held
      rwa [hco] at this
    refine ⟨hi.base_le, hi.le, fun hne => ?_, ?_, ⟨hi.sized.1, rfl⟩, k,
      hlog.cut, hlog.flatten, hlog.obtained, hlog.mixed, hlog.headers, hlog.bound, hfresh⟩
    · simp only [hsince]
      exact hi.ring hne
    · exact hi.eof.callback rfl rfl rfl rfl le_rfl rfl rfl fun hq => ⟨hfresh, rfl, hq.2.2⟩
  · cases hq

theorem ChannelInv.loadWrite (hi : ChannelInv F s) (hF : 0 < F.toNat)
    (hok : ResetApart s .loadWrite) (h : s.onCallback .loadWrite = some t) : ChannelInv F t := by
  unfold ChannelState.onCallback at h
  obtain ⟨q, hq, rfl⟩ := Option.map_eq_some_iff.mp h
  simp only [RingState.step] at hq
  cases hco : s.q.consumer with
  | idle => simp [RingState.loadWrite, hco] at hq
  | reading call slot seen => simp [RingState.loadWrite, hco] at hq
  | ending call slot seen r => simp [RingState.loadWrite, hco] at hq
  | loadedRead call r =>
    obtain ⟨k, hlog⟩ := hi.log
    have hcall : call = .zeroCopy F := by
      have := hi.sized.2
      rwa [hco] at this
    subst hcall
    have hfresh : s.callback = .fresh := by
      have := hlog.held
      rwa [hco] at this
    by_cases hstale : s.eof = .midReset ∨ r ≠ s.q.ring.readPos
    · -- positions torn apart by a reset, but equal: nothing is handed out
      obtain rfl := hok rfl r (by simp [ChannelState.loadedRead, hco]) hstale
      obtain rfl := loadWrite_of_eq (show 0 < (ReadCall.zeroCopy F).frames.toNat from hF) hco hq
      refine ⟨hi.base_le, hi.le, fun hne => ?_, ?_, ⟨hi.sized.1, trivial⟩, k,
        hlog.cut, hlog.flatten, hlog.obtained, hlog.mixed, hlog.headers, hlog.bound, hfresh⟩
      · have hr := hi.ring hne
        simp only [RingState.since, hco] at hr ⊢
        exact hr
      · exact hi.eof.callback rfl rfl rfl rfl le_rfl rfl rfl fun hq => ⟨hfresh, rfl, hq.2.2⟩
    · obtain ⟨hmid, hcur⟩ := not_or.mp hstale
      obtain rfl : r = s.q.ring.readPos := Classical.byContradiction hcur
      have hr := since_loadWrite (hi.ring hmid) hco hq
      simp only [RingState.loadWrite, hco] at hq
      split at hq
      · cases hq
        refine ⟨hi.base_le, hi.le, fun _ => hr, ?_, ⟨hi.sized.1, trivial⟩, k,
          hlog.cut, hlog.flatten, hlog.obtained, hlog.mixed, hlog.headers, hlog.bound, hfresh⟩
        exact hi.eof.callback rfl rfl rfl rfl le_rfl rfl rfl fun hq => ⟨hfresh, rfl, hq.2.2⟩
      · next slot hslot =>
        cases hq
        refine ⟨hi.base_le, hi.le, fun _ => hr, ?_, ⟨hi.sized.1, rfl⟩, k,
          hlog.cut, hlog.flatten, hlog.obtained, hlog.mixed, hlog.headers, hlog.bound, trivial⟩
        -- a block is handed out only while one is unread
        refine hi.eof.callback rfl rfl rfl rfl le_rfl rfl rfl fun hq => ?_
        have hu := hr.consumer.1.unread
        have hlen := hq.2.2
        simp only [RingState.since, List.length_drop] at hu
        have hle := hi.le
        have hframes : (ReadCall.zeroCopy F).frames.toNat = F.toNat := rfl
        omega

/-- Every read asks for a whole block. -/
theorem ChannelInv.reading_call {call : ReadCall W} {slot : Nat} {seen : List (Nat × UInt8)}
    (hi : ChannelInv F s) (hco : s.q.consumer = .reading call slot seen) :
    call = .zeroCopy F := by
  have hsized := hi.sized.2
  rwa [hco] at hsized

theorem ChannelInv.updateAudioPts (hi : ChannelInv F s) (hF : 0 < F.toNat)
    (h : s.updateAudioPts = some t) : ChannelInv F t := by
  unfold ChannelState.updateAudioPts at h
  split at h
  · next call slot seen hco hcb =>
    cases h
    obtain rfl := hi.reading_call hco
    obtain ⟨k, hlog⟩ := hi.log
    obtain ⟨hk, hwin⟩ := hi.window_eq hF hlog hco
    have hheld := hi.held (.inl hco)
    refine ⟨hi.base_le, hi.le, hi.ring, ?_, hi.sized, k, hlog.cut, hlog.flatten, hlog.obtained,
      ?_, ?_, ?_, ?_⟩
    · refine hi.eof.callback rfl rfl rfl rfl le_rfl rfl rfl fun hq => ?_
      rw [ChannelState.Quiet, hco] at hq
      cases hq.2.1
    · have hm := hlog.mixed
      rw [hcb] at hm
      exact hm
    · have hh := hlog.headers
      simp only [hcb, if_true, Nat.add_zero] at hh
      show s.headers ++ [(s.q.ring.window slot F).take 8] = (s.blocks.map (List.take 8)).take (k + 1)
      have hk' : k < (s.blocks.map (List.take 8)).length := by simpa using hk
      have hget : (s.blocks.map (List.take 8))[k] = s.blocks[k].take 8 := by
        simp
      rw [hh, hwin, ← hget, List.take_append_getElem]
    · exact hk
    · simp only [hco]
  · cases h

theorem ChannelInv.mix (hi : ChannelInv F s) (hF : 0 < F.toNat) (h : s.mix = some t) :
    ChannelInv F t := by
  unfold ChannelState.mix at h
  split at h
  · next call slot seen hco hcb =>
    cases h
    obtain rfl := hi.reading_call hco
    obtain ⟨k, hlog⟩ := hi.log
    obtain ⟨hk, hwin⟩ := hi.window_eq hF hlog hco
    refine ⟨hi.base_le, hi.le, hi.ring, ?_, hi.sized, k, hlog.cut, hlog.flatten, hlog.obtained,
      ?_, ?_, ?_, ?_⟩
    · refine hi.eof.callback rfl rfl rfl rfl le_rfl rfl rfl fun hq => ?_
      rw [ChannelState.Quiet, hco] at hq
      cases hq.2.1
    · have hm := hlog.mixed
      simp only [hcb, reduceCtorEq, if_false, Nat.add_zero] at hm
      show s.mixed ++ [s.q.ring.window slot F] = s.blocks.take (k + 1)
      rw [hm, hwin, List.take_append_getElem]
    · have hh := hlog.headers
      rw [hcb] at hh
      exact hh
    · have hbd := hlog.bound
      rw [hcb] at hbd
      exact hbd
    · simp only [hco]
  · cases h

theorem ChannelInv.endRead (hi : ChannelInv F s) (h : s.endRead = some t) : ChannelInv F t := by
  unfold ChannelState.endRead ChannelState.onCallback at h
  split at h
  · next hcb =>
    obtain ⟨q, hq, rfl⟩ := Option.map_eq_some_iff.mp h
    simp only [RingState.step] at hq
    have hsince := since_endRead s.base hq
    obtain ⟨k, hlog⟩ := hi.log
    cases hco : s.q.consumer with
    | idle => simp [RingState.endRead, hco] at hq
    | loadedRead call r => simp [RingState.endRead, hco] at hq
    | ending call slot seen r => simp [RingState.endRead, hco] at hq
    | reading call slot seen =>
      obtain rfl := hi.reading_call hco
      simp only [RingState.endRead, hco] at hq
      cases hq
      refine ⟨hi.base_le, hi.le, fun hne => (hi.ring hne).endRead hsince, ?_, ⟨hi.sized.1, rfl⟩, k,
        hlog.cut, hlog.flatten, hlog.obtained, hlog.mixed, hlog.headers, hlog.bound, hcb⟩
      refine hi.eof.callback rfl rfl rfl rfl le_rfl rfl rfl fun hq => ?_
      rw [ChannelState.Quiet, hco] at hq
      cases hq.2.1
  · cases h

theorem ChannelInv.storeRead (hi : ChannelInv F s) (h : s.storeRead = some t) :
    ChannelInv F t := by
  unfold ChannelState.storeRead ChannelState.onCallback at h
  obtain ⟨u, hu, rfl⟩ := Option.map_eq_some_iff.mp h
  obtain ⟨q, hq, rfl⟩ := Option.map_eq_some_iff.mp hu
  simp only [RingState.step] at hq
  have hsince := since_storeRead hi.base_le hq
  obtain ⟨k, hlog⟩ := hi.log
  cases hco : s.q.consumer with
  | idle => simp [RingState.storeRead, hco] at hq
  | loadedRead call r => simp [RingState.storeRead, hco] at hq
  | reading call slot seen => simp [RingState.storeRead, hco] at hq
  | ending call slot seen r =>
    have hcall : call = .zeroCopy F := by
      have := hi.sized.2
      rwa [hco] at this
    subst hcall
    have hcb : s.callback = .mixed := by
      have := hlog.held
      rwa [hco] at this
    obtain ⟨hmid, hle, -⟩ := hi.held (.inr ⟨r, hco⟩)
    simp only [RingState.storeRead, hco] at hq
    cases hq
    have hlen : (s.q.obtained ++ (ReadCall.zeroCopy F).elements s.q.ring slot seen).length =
        s.q.obtained.length + F.toNat := by
      simp [ReadCall.elements]
    have hbase := hi.base_le
    refine ⟨?_, ?_, fun hne => (hi.ring hne).storeRead hsince, ?_, ⟨hi.sized.1, trivial⟩, k + 1,
      hlog.cut, hlog.flatten, ?_, ?_, ?_, ?_, rfl⟩
    · show s.base ≤ (s.q.obtained ++ (ReadCall.zeroCopy F).elements s.q.ring slot seen).length
      omega
    · show (s.q.obtained ++ (ReadCall.zeroCopy F).elements s.q.ring slot seen).length ≤
        s.q.published.length
      omega
    · refine hi.eof.callback rfl rfl rfl rfl ?_ rfl rfl fun hq => ?_
      · show s.q.obtained.length ≤
          (s.q.obtained ++ (ReadCall.zeroCopy F).elements s.q.ring slot seen).length
        omega
      · rw [ChannelState.Quiet, hco] at hq
        cases hq.2.1
    · rw [hlen, hlog.obtained, Nat.mul_succ]
    · have hm := hlog.mixed
      rw [hcb] at hm
      exact hm
    · have hh := hlog.headers
      rw [hcb] at hh
      exact hh
    · have hbd := hlog.bound
      rw [hcb] at hbd
      exact hbd

theorem ChannelInv.step (hi : ChannelInv F s) (hF : 0 < F.toNat) {a : ChannelAct}
    (hok : ResetApart s a) (h : s.step F a = some t) : ChannelInv F t := by
  cases a with
  | beginWrite => exact hi.display (.inl rfl) h
  | loadRead => exact hi.display (.inr (.inl rfl)) h
  | fill i v => exact hi.display (.inr (.inr (.inl ⟨i, v, rfl⟩))) h
  | endWrite => exact hi.display (.inr (.inr (.inr rfl))) h
  | storeWrite => exact hi.storeWrite h
  | eofMarker => exact hi.eofMarker h
  | pollRead => exact hi.pollRead h
  | pollWrite => exact hi.pollWrite hF h
  | resetWrite => exact hi.resetWrite h
  | resetRead => exact hi.resetRead h
  | clear => exact hi.clear h
  | beginRead => exact hi.beginRead h
  | loadWrite => exact hi.loadWrite hF hok h
  | updateAudioPts => exact hi.updateAudioPts hF h
  | mix => exact hi.mix hF h
  | endRead => exact hi.endRead h
  | storeRead => exact hi.storeRead h

end

/-! ## Main theorems -/

theorem channelInv_start {F : BitVec W} {b : AudioRingBuffer W UInt8} (hb : FreshRing b) :
    ChannelInv F (.start b) := by
  refine ⟨le_rfl, le_rfl, fun _ => ringInv_start hb, trivial, ⟨trivial, trivial⟩, 0, ?_⟩
  exact ⟨nofun, rfl, rfl, rfl, rfl, le_rfl, rfl⟩

theorem IsChannel.frames_pos {F : BitVec W} {b : AudioRingBuffer W UInt8} (hb : IsChannel F b) :
    0 < F.toNat := by
  apply Nat.pos_of_ne_zero
  intro h
  have hF : F = 0 := BitVec.eq_of_toNat_eq (by simpa using h)
  exact b.cap.ne_zero (by rw [hb.2, hF]; simp)

/-- **Apart from torn resets the channel is sound.**  In every state of every run in
which no `begin_read` decides from positions a `reset()` has torn apart, the
blocks mixed are a prefix of the blocks published and the headers passed to
`updateAudioPts` are theirs. -/
theorem channel_mixes_published {F : BitVec W} {b : AudioRingBuffer W UInt8} {s : ChannelState W}
    (hb : IsChannel F b) (h : ReachIf (ChannelState.step F) ResetApart (.start b) s) :
    MixesPublished s := by
  have hi : ChannelInv F s := h.invariant (channelInv_start hb.1) fun _ _ _ hi hok hs =>
    hi.step hb.frames_pos hok hs
  obtain ⟨k, hlog⟩ := hi.log
  exact ⟨hlog.mixed ▸ List.take_prefix _ _, hlog.headers ▸ List.take_prefix _ _⟩

/-- One block is published and mixed, then the stream ends and the ring is reset with no
callback in between. -/
theorem channel_mixes_published_quiet_reset :
    ∃ s : ChannelState 64, (s.mixed.length = 1 ∧ s.eof = .clearing 0) ∧ MixesPublished s := by
  let b : AudioRingBuffer 64 UInt8 := StaticAudioRingBuffer ⟨128, by decide, by decide⟩ fun _ => 0
  have hb : IsChannel 16 b := ⟨.inl ⟨_, _, rfl⟩, rfl⟩
  obtain ⟨s, hs, hp⟩ := reach_of_any (guarded (ChannelState.step 16) ResetApart) (.start b)
    [.beginWrite, .loadRead, .endWrite, .storeWrite,
      .beginRead, .loadWrite, .updateAudioPts, .mix, .endRead, .storeRead,
      .eofMarker, .pollRead, .pollWrite, .resetWrite, .resetRead]
    (fun s => decide (s.mixed.length = 1 ∧ s.eof = .clearing 0)) (by decide +kernel)
  exact ⟨s, of_decide_eq_true hp, channel_mixes_published hb (reachIf_of_guarded hs)⟩

/-- The callback loads `read_pos_` before the two stores of `reset()` and `write_pos_` between
them: it mixes a second block although only one was published. -/
theorem channel_reset_mixes_stale :
    ∃ (b : AudioRingBuffer 64 UInt8) (s : ChannelState 64), IsChannel 16 b ∧
      Reach (ChannelState.step 16) (.start b) s ∧ ¬ MixesPublished s := by
  let b : AudioRingBuffer 64 UInt8 :=
    StaticAudioRingBuffer ⟨128, by decide, by decide⟩ fun i => UInt8.ofNat i
  obtain ⟨s, hs, hp⟩ := reach_of_any (ChannelState.step 16) (.start b)
    [.beginWrite, .loadRead, .endWrite, .storeWrite,
      .beginRead, .loadWrite, .updateAudioPts, .mix, .endRead, .storeRead,
      .eofMarker, .pollRead, .pollWrite, .beginRead, .resetWrite, .loadWrite,
      .updateAudioPts, .mix]
    (fun s => decide (s.blocks.length < s.mixed.length)) (by decide)
  refine ⟨b, s, ⟨.inl ⟨_, _, rfl⟩, rfl⟩, hs, fun hm => ?_⟩
  have hle := hm.1.length_le
  have hlt : s.blocks.length < s.mixed.length := of_decide_eq_true hp
  omega

end VideoPlayerCore
