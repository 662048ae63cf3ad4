import VideoPlayerCore.CloseSteps

/-!
# Flags and queues while the video side closes

How far the reader is fixes both `_isAlive` flags and tells which coroutines have
ended; the queues keep to their bounds                    (VideoSide.inv_of_reach)
-/

namespace VideoPlayerCore

open Machine

variable {P : Type}

namespace VideoSide

variable {V : Codec P VideoFrame} {timeBase : ℚ} {s t : VideoSide V}

/-- The flags and coroutines when the reader has `n` stages before it. -/
structure InvAt (n : Nat) (s : VideoSide V) : Prop where
  packets : s.pipe.packetQueue.length ≤ packetRoom
  frames : s.pipe.frameQueue.length ≤ videoRoom
  decoderAlive : s.decoderAlive = decide (4 ≤ n)
  videoAlive : s.videoAlive = decide (2 ≤ n)
  running : 4 ≤ n → s.pipe.decoder ≠ .exited
  ended : n ≤ 2 → s.pipe.decoder = .exited
  display : s.display = .exited → n ≤ 1

def Inv (s : VideoSide V) : Prop := s.InvAt s.reader.stagesLeft

theorem inv_start (sync : ClockSync) : Inv (start sync : VideoSide V) where
  packets := Nat.zero_le _
  frames := Nat.zero_le _
  decoderAlive := rfl
  videoAlive := rfl
  running := by
    intro _ h
    cases h
  ended := by
    intro h
    have h5 : 5 ≤ 2 := h
    omega
  display := by
    intro h
    cases h

/-- The reader moves inside the loop or up to `Decoder::close`. -/
theorem InvAt.early {n m : Nat} (h : s.InvAt n) (hn : 4 ≤ n) (hm : 4 ≤ m) : s.InvAt m where
  packets := h.packets
  frames := h.frames
  decoderAlive := by
    rw [h.decoderAlive, decide_eq_true hn, decide_eq_true hm]
  videoAlive := by
    rw [h.videoAlive, decide_eq_true (by omega : 2 ≤ n), decide_eq_true (by omega : 2 ≤ m)]
  running := fun _ => h.running hn
  ended := fun h2 => absurd h2 (by omega)
  display := fun hd => absurd (h.display hd) (by omega)

/-- Behind `Decoder::close` the decoder thread may come to its end. -/
theorem InvAt.late {n : Nat} (hn : n ≤ 3) (hpackets : s.pipe.packetQueue.length ≤ packetRoom)
    (hframes : s.pipe.frameQueue.length ≤ videoRoom) (hdecoder : s.decoderAlive = decide (4 ≤ n))
    (hvideo : s.videoAlive = decide (2 ≤ n)) (hended : n ≤ 2 → s.pipe.decoder = .exited)
    (hdisplay : s.display = .exited → n ≤ 1) : s.InvAt n where
  packets := hpackets
  frames := hframes
  decoderAlive := hdecoder
  videoAlive := hvideo
  running := fun h4 => absurd h4 (by omega)
  ended := hended
  display := hdisplay

/-- Clocks, stop and the reader's own position do not enter the invariant. -/
theorem InvAt.withReader {n : Nat} (h : s.InvAt n) (reader : CloseReader P) (playAlive : Bool)
    (sync : ClockSync) :
    InvAt n { s with reader := reader, playAlive := playAlive, sync := sync } :=
  ⟨h.packets, h.frames, h.decoderAlive, h.videoAlive, h.running, h.ended, h.display⟩

theorem Inv.readerStep (hi : s.Inv) (h : s.readerStep = some t) : t.Inv := by
  unfold VideoSide.readerStep at h
  unfold Inv at hi
  cases hr : s.reader with
  | top =>
    rw [hr] at hi
    change InvAt 5 s at hi
    simp only [hr] at h
    cases h
    have hmove : ∀ m, 4 ≤ m → InvAt m s := fun m hm => hi.early (by decide) hm
    cases s.playAlive
    · exact (hmove 4 (by decide)).withReader .closing _ s.sync
    · exact (hmove 6 (by decide)).withReader .reading _ s.sync
  | reading => simp [hr] at h
  | writing pkt =>
    rw [hr] at hi
    change InvAt 7 s at hi
    simp only [hr] at h
    obtain ⟨pipe, hw, rfl⟩ := Option.map_eq_some_iff.mp h
    unfold Pipe.write at hw
    split at hw
    · cases hw
      have h5 : InvAt 5 s := hi.early (by decide) (by decide)
      refine ⟨?_, h5.2, h5.3, h5.4, h5.5, h5.6, h5.7⟩
      show (s.pipe.packetQueue ++ [pkt]).length ≤ packetRoom
      rw [List.length_append, List.length_singleton]
      omega
    · cases hw
  | closing =>
    rw [hr] at hi
    change InvAt 4 s at hi
    simp only [hr] at h
    cases h
    exact InvAt.late (Nat.le_refl 3) hi.packets hi.frames rfl hi.videoAlive
      (fun h2 => absurd (show 3 ≤ 2 from h2) (by decide))
      fun hd => absurd (hi.display hd) (by decide)
  | joiningDecoder =>
    rw [hr] at hi
    change InvAt 3 s at hi
    simp only [hr] at h
    split at h
    · next hex =>
      cases h
      have hended : s.pipe.decoder = .exited := by
        cases hdec : s.pipe.decoder <;> simp [hdec] at hex
        rfl
      exact InvAt.late (show 2 ≤ 3 by decide) (Nat.zero_le _) hi.frames hi.decoderAlive
        hi.videoAlive (fun _ => hended) fun hd => absurd (hi.display hd) (by decide)
    · cases h
  | stopping =>
    rw [hr] at hi
    change InvAt 2 s at hi
    simp only [hr] at h
    cases h
    exact InvAt.late (show 1 ≤ 3 by decide) hi.packets hi.frames hi.decoderAlive rfl
      (fun _ => hi.ended (by decide)) fun _ => Nat.le_refl 1
  | joiningDisplay =>
    rw [hr] at hi
    change InvAt 1 s at hi
    simp only [hr] at h
    split at h
    · cases h
      exact InvAt.late (show 0 ≤ 3 by decide) hi.packets (Nat.zero_le _) hi.decoderAlive
        hi.videoAlive (fun _ => hi.ended (by decide)) fun _ => Nat.zero_le 1
    · cases h
  | closed => simp [hr] at h

theorem Inv.loopPass {p : LoopPass P} (hi : s.Inv) (h : s.loopPass p = some t) : t.Inv := by
  have hr : s.reader = .reading := by
    cases hr : s.reader <;> first | rfl | simp [VideoSide.loopPass, hr] at h
  unfold Inv at hi
  rw [hr] at hi
  change InvAt 6 s at hi
  have hmove : ∀ m, 4 ≤ m → InvAt m s := fun m hm => hi.early (by decide) hm
  cases p <;> simp only [VideoSide.loopPass, hr] at h <;> cases h
  case write pkt => exact (hmove 7 (by decide)).withReader (.writing pkt) s.playAlive s.sync
  case otherPacket => exact (hmove 5 (by decide)).withReader .top s.playAlive s.sync
  case restart => exact (hmove 5 (by decide)).withReader .top s.playAlive _
  case error => exact (hmove 4 (by decide)).withReader .closing s.playAlive s.sync

/-- What a step of the decoder does to the bounds and to its end. -/
theorem decoderStep_bounds {p q : Pipe V} {room : Nat} {isAlive : Bool}
    (h : p.decoderStep room isAlive = some q) (hp : p.packetQueue.length ≤ packetRoom)
    (hf : p.frameQueue.length ≤ room) :
    q.packetQueue.length ≤ packetRoom ∧ q.frameQueue.length ≤ room ∧
      (q.decoder = .exited → isAlive = false) := by
  obtain ⟨packetQueue, decoder, codec, frameQueue⟩ := p
  cases decoder with
  | top =>
    cases isAlive <;> cases h
    · exact ⟨hp, hf, fun _ => rfl⟩
    · exact ⟨hp, hf, fun h => by cases h⟩
  | reading =>
    cases packetQueue with
    | nil =>
      cases h
      exact ⟨hp, hf, fun h => by cases h⟩
    | cons pkt rest =>
      cases h
      exact ⟨Nat.le_of_succ_le hp, hf, fun h => by cases h⟩
  | emitting eof frames =>
    cases frames with
    | nil =>
      cases eof with
      | false =>
        cases h
        exact ⟨hp, hf, fun h => by cases h⟩
      | true =>
        simp only [Pipe.decoderStep, Pipe.onFrame] at h
        split at h
        · cases h
          refine ⟨hp, ?_, fun h => by cases h⟩
          rw [List.length_append, List.length_singleton]
          omega
        · cases h
    | cons f frames =>
      simp only [Pipe.decoderStep, Pipe.onFrame] at h
      split at h
      · cases h
        refine ⟨hp, ?_, fun h => by cases h⟩
        rw [List.length_append, List.length_singleton]
        omega
      · cases h
  | flushing =>
    cases h
    exact ⟨hp, hf, fun h => by cases h⟩
  | exited => cases h

theorem Inv.decoder {pipe : Pipe V} (hi : s.Inv)
    (h : s.pipe.decoderStep videoRoom s.decoderAlive = some pipe) :
    Inv { s with pipe := pipe } := by
  obtain ⟨hp, hf, hex⟩ := decoderStep_bounds h hi.packets hi.frames
  refine ⟨hp, hf, hi.decoderAlive, hi.videoAlive, ?_, ?_, hi.display⟩
  · intro h4 hexited
    have hdead := hex hexited
    have halive := hi.decoderAlive
    rw [decide_eq_true h4, hdead] at halive
    cases halive
  · intro h2
    rw [show s.pipe = { s.pipe with decoder := .exited } by rw [← hi.ended h2]] at h
    cases h

/-- A step of the display thread takes at most a frame. -/
theorem InvAt.withDisplay {n : Nat} (h : s.InvAt n) (display : VideoDisplay) (sync : ClockSync)
    (pipe : Pipe V) (hdisplay : display = .exited → n ≤ 1)
    (hpackets : pipe.packetQueue = s.pipe.packetQueue) (hdecoder : pipe.decoder = s.pipe.decoder)
    (hframes : pipe.frameQueue.length ≤ s.pipe.frameQueue.length) :
    InvAt n { s with display := display, sync := sync, pipe := pipe } where
  packets := hpackets ▸ h.packets
  frames := Nat.le_trans hframes h.frames
  decoderAlive := h.decoderAlive
  videoAlive := h.videoAlive
  running := fun h4 => hdecoder ▸ h.running h4
  ended := fun h2 => hdecoder ▸ h.ended h2
  display := hdisplay

theorem takeFrame_eq_some {p q : Pipe V} {f : Option VideoFrame}
    (h : p.takeFrame = some (f, q)) :
    p.frameQueue = f :: q.frameQueue ∧ q = { p with frameQueue := q.frameQueue } := by
  unfold Pipe.takeFrame at h
  split at h
  · cases h
  · next g rest hq =>
    cases h
    exact ⟨hq, rfl⟩

theorem Inv.displayStep {now : ℚ} (hi : s.Inv) (h : s.displayStep timeBase now = some t) :
    t.Inv := by
  unfold VideoSide.displayStep at h
  have hlive : ∀ display sync, display ≠ .exited →
      Inv { s with display := display, sync := sync } := fun display sync hne =>
    InvAt.withDisplay hi display sync s.pipe (fun he => absurd he hne) rfl rfl (Nat.le_refl _)
  cases hd : s.display with
  | top =>
    simp only [hd] at h
    by_cases hva : s.videoAlive = true
    · rw [if_pos hva] at h
      cases h
      exact hlive .reading s.sync (by simp)
    · rw [if_neg hva] at h
      cases h
      refine InvAt.withDisplay hi .exited s.sync s.pipe (fun _ => ?_) rfl rfl (Nat.le_refl _)
      by_contra hn
      rw [hi.videoAlive] at hva
      exact hva (decide_eq_true (by omega))
  | reading =>
    simp only [hd] at h
    split at h
    · cases h
      exact hlive .top s.sync (by simp)
    · next pipe htake =>
      cases h
      obtain ⟨hq, hpipe⟩ := takeFrame_eq_some htake
      refine InvAt.withDisplay hi .ending s.sync pipe (fun he => by cases he) ?_ ?_ ?_
      · rw [hpipe]
      · rw [hpipe]
      · rw [hq]
        exact Nat.le_succ _
    · next f pipe htake =>
      cases h
      obtain ⟨hq, hpipe⟩ := takeFrame_eq_some htake
      refine InvAt.withDisplay hi (.calling f) s.sync pipe (fun he => by cases he) ?_ ?_ ?_
      · rw [hpipe]
      · rw [hpipe]
      · rw [hq]
        exact Nat.le_succ _
  | ending =>
    simp only [hd] at h
    cases h
    exact hlive .top s.sync (by simp)
  | calling f =>
    simp only [hd] at h
    cases h
    exact hlive _ _ (by simp)
  | waiting f delay =>
    simp only [hd] at h
    split at h <;> cases h <;> exact hlive _ s.sync (by simp)
  | leaving f delay =>
    simp only [hd] at h
    cases h
    exact hlive _ _ (by simp)
  | exited => simp [hd] at h

theorem Inv.step {a : VideoAct P} (hi : s.Inv) (h : s.step timeBase a = some t) : t.Inv := by
  cases a with
  | stop =>
    cases h
    exact InvAt.withReader hi s.reader false s.sync
  | reader => exact hi.readerStep h
  | pass p => exact hi.loopPass h
  | decoder =>
    obtain ⟨pipe, hpipe, rfl⟩ := Option.map_eq_some_iff.mp h
    exact hi.decoder hpipe
  | display now => exact hi.displayStep h
  | calAudioDelay now pts | updateAudioPts now pts | audioEof =>
    cases h
    exact InvAt.withReader hi s.reader s.playAlive _

theorem inv_of_reach {sync : ClockSync} (h : Reach (step timeBase) (start sync) s) : s.Inv :=
  h.invariant (inv_start sync) fun _ _ _ hi hs => hi.step hs

end VideoSide

end VideoPlayerCore
