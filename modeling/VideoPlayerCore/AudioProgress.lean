import VideoPlayerCore.AudioChunks
import VideoPlayerCore.ClockHandshake

/-!
# The end of the block loop

Every pass of `while (avail)` cuts the frame further (`AudioThread.display_works`).  The loop
waits only where the ring has no room for a block and where `calAudioDelay` waits for the
video.  In the first case the callback has a block to play, and in the second one a call of
`updateVideoPts` lets the loop go on; so from every place in the loop its end can be reached
(`AudioThread.Chunking.ends`).
-/

namespace VideoPlayerCore

open Machine Windows

variable {W : Nat} {A : AudioSetup W}

namespace DisplayPc

/-- What is left to do for the frame that is cut. -/
def work : DisplayPc → Nat
  | .cutting _ rest => 3 * rest.avail + 1
  | .starting _ rest => 3 * rest.avail
  | .filling _ rest => 3 * rest.avail - 1
  | _ => 0

/-- The thread is in the block loop of the frame `d`, or behind it. -/
def Cuts (d : Dequeued) (pc : DisplayPc) : Prop :=
  (∃ rest, pc.job = some (d, rest)) ∨ pc = .endLoop d

theorem Cuts.of_job {d : Dequeued} {rest : Rest} {pc : DisplayPc}
    (h : pc.job = some (d, rest)) : pc.Cuts d := .inl ⟨rest, h⟩

end DisplayPc

/-- Callback steps until a block is played. -/
def CallbackPc.stepsLeft : CallbackPc W → Nat
  | .idle => 3
  | .loaded _ => 2
  | .mixing _ => 1
  | .ending _ => 0

namespace AudioThread

variable {s t : AudioThread W} {d : Dequeued}

/-- The block loop waits: for room in the ring, or for the video. -/
def Waits (A : AudioSetup W) (s : AudioThread W) (now : ℚ) : Prop :=
  match s.pc with
  | .cutting _ rest =>
    s.blocks.writtenSamples = 0 ∧ s.blocks.beginWrite A (rest.pts / A.freq) = none
  | .starting _ _ =>
    let header := A.ofDoubleBytes (read s.blocks.ring.buf s.blocks.buf 8)
    (s.sync.calAudioDelay now header (some 0)).2.pos = true ∧ s.isAlive = true
  | _ => False

/-- The loop of the frame `d` is led on by a step from `s` to `t`, or `s` waits. -/
def Works (A : AudioSetup W) (s t : AudioThread W) (d : Dequeued) (now : ℚ) : Prop :=
  t.pc.Cuts d ∧ (t.pc.work < s.pc.work ∨ t.pc = s.pc ∧ s.Waits A now)

theorem cut_works {rest : Rest} {now : ℚ} (hpc : s.pc = .cutting d rest) :
    Works A s (s.cut A d rest) d now := by
  unfold Works cut
  rw [hpc]
  by_cases havail : rest.avail = 0
  · rw [if_pos havail]
    exact ⟨.inr rfl, .inl (Nat.succ_pos _)⟩
  · rw [if_neg havail]
    by_cases hwritten : s.blocks.writtenSamples = 0
    · rw [if_pos hwritten]
      dsimp only
      split
      · next hnone =>
        refine ⟨.inl ⟨rest, by rw [hpc]; rfl⟩, .inr ⟨hpc, ?_⟩⟩
        unfold Waits
        rw [hpc]
        exact ⟨hwritten, hnone⟩
      · exact ⟨.of_job rfl, .inl (Nat.lt_succ_self _)⟩
    · rw [if_neg hwritten]
      exact ⟨.of_job rfl, .inl (Nat.lt_succ_of_le (Nat.sub_le _ _))⟩

theorem delay_works {rest : Rest} {now : ℚ} (hpc : s.pc = .starting d rest)
    (havail : rest.avail ≠ 0) : Works A s (s.delay A d rest now) d now := by
  unfold Works delay
  rw [hpc]
  dsimp only
  split
  · next hwait =>
    refine ⟨.of_job rfl, .inr ⟨rfl, ?_⟩⟩
    unfold Waits
    rw [hpc]
    exact Bool.and_eq_true_iff.mp hwait
  · refine ⟨.of_job rfl, .inl ?_⟩
    show 3 * rest.avail - 1 < 3 * rest.avail
    omega

theorem fill_works {rest : Rest} {now : ℚ} (hpc : s.pc = .filling d rest)
    (hpos : 0 < s.blocks.fillOf A rest) : Works A s (s.fill A d rest) d now := by
  have hle : s.blocks.fillOf A rest ≤ rest.avail := Nat.min_le_right _ _
  refine ⟨.of_job rfl, .inl ?_⟩
  rw [hpc]
  show 3 * (rest.avail - s.blocks.fillOf A rest) + 1 < 3 * rest.avail - 1
  omega

/-- A step of the thread in the block loop leads on, or waits. -/
theorem display_works {now : ℚ} {e : SwrAnswers} (hinv : Chunking A s) {rest : Rest}
    (hjob : s.pc.job = some (d, rest)) (h : s.display A now e = some t) : Works A s t d now := by
  have hstage := hinv.stage
  cases hpc : s.pc with
  | top | reading | flushing | polling | resetWrite | resetRead | clearing | converting
  | endLoop | leaving | exited =>
    rw [hpc] at hjob
    cases hjob
  | cutting d' rest' =>
    rw [hpc] at hjob
    obtain ⟨rfl, rfl⟩ := Prod.mk.inj (Option.some.inj hjob)
    simp only [display, hpc] at h
    obtain rfl := Option.some.inj h
    exact cut_works hpc
  | starting d' rest' =>
    rw [hpc] at hjob hstage
    obtain ⟨rfl, rfl⟩ := Prod.mk.inj (Option.some.inj hjob)
    simp only [display, hpc] at h
    obtain rfl := Option.some.inj h
    exact delay_works hpc hstage.2.2.1
  | filling d' rest' =>
    rw [hpc] at hjob hstage
    obtain ⟨rfl, rfl⟩ := Prod.mk.inj (Option.some.inj hjob)
    simp only [display, hpc] at h
    obtain rfl := Option.some.inj h
    exact fill_works hpc (BlockWriter.fillOf_pos hstage.1.1.written_lt hstage.2.2)

/-- Whoever moves: the loop has less to do, or the thread is where it was, and if it was the
one to move then it waits. -/
theorem step_works {a : AudioThreadAct} (hinv : Chunking A s) {rest : Rest}
    (hjob : s.pc.job = some (d, rest)) (hs : s.step A a = some t) :
    t.pc.work < s.pc.work ∨
      t.pc = s.pc ∧ ∀ now e, a = .display now e → s.Waits A now := by
  by_cases hdisplay : ∃ now e, a = .display now e
  · obtain ⟨now, e, rfl⟩ := hdisplay
    rcases (display_works hinv hjob hs).2 with hless | ⟨hsame, hwaits⟩
    · exact .inl hless
    · refine .inr ⟨hsame, ?_⟩
      rintro now' e' ⟨⟩
      exact hwaits
  · have hother : ∀ now e, a ≠ .display now e := fun now e ha => hdisplay ⟨now, e, ha⟩
    exact .inr ⟨(step_beside hs hother).1, fun now e ha => absurd ha (hother now e)⟩

/-! ## Nobody has to wait for good -/

/-- Without room in the ring a step of the callback brings it closer to the end of a block. -/
theorem Chunking.callback_closer (h : Chunking A s) {header : ℚ}
    (hfull : s.blocks.beginWrite A header = none) :
    (∃ r, s.callback = .ending r) ∨
      (s.audioCallback A 0).blocks = s.blocks ∧
        (s.audioCallback A 0).callback.stepsLeft < s.callback.stepsLeft := by
  cases hc : s.callback with
  | ending r => exact .inl ⟨r, rfl⟩
  | idle =>
    right
    simp only [audioCallback, hc, true_and]
    exact Nat.lt_succ_self 2
  | loaded r =>
    obtain ⟨played, hsound⟩ := h.sound
    have hstream := (h.streaming.stream h.stage).toStream
    have hnoroom : ¬s.blocks.payloads.length + 1 < played + 8 := by
      rw [← hsound.beginWrite_iff hstream header, hfull]
      exact Bool.false_ne_true
    have hunplayed : played < s.blocks.payloads.length := by omega
    obtain ⟨slot, hslot⟩ :=
      Option.isSome_iff_exists.mp ((hsound.beginRead_iff hstream).mpr hunplayed)
    rw [← hsound.loaded r hc] at hslot
    right
    simp only [audioCallback, hc, hslot, true_and]
    exact Nat.lt_succ_self 1
  | mixing slot =>
    right
    simp only [audioCallback, hc, true_and]
    exact Nat.lt_succ_self 0

theorem Chunking.plays (h : Chunking A s) {header : ℚ}
    (hfull : s.blocks.beginWrite A header = none) :
    ∃ t, ReachIf (AudioThread.step A) (FramesOnly A) s t ∧
      (Chunking A t ∧ t.pc = s.pc ∧ t.blocks = s.blocks) ∧ ∃ r, t.callback = .ending r := by
  refine ReachIf.leads_to (I := fun t => Chunking A t ∧ t.pc = s.pc ∧ t.blocks = s.blocks)
    (measure fun t : AudioThread W => t.callback.stepsLeft).wf ?_ ⟨h, rfl, rfl⟩
  rintro t ⟨hinv, hpc, hblocks⟩
  have hfull' : t.blocks.beginWrite A header = none := by rw [hblocks, hfull]
  rcases hinv.callback_closer hfull' with hending | ⟨hsame, hless⟩
  · exact .inl ⟨⟨hinv, hpc, hblocks⟩, hending⟩
  · have hnext : Chunking A (t.audioCallback A 0) := hinv.step (a := .callback 0) trivial rfl
    exact .inr ⟨_, .single (a := .callback 0) trivial rfl,
      ⟨hnext, (audioCallback_beside 0).1.trans hpc, hsame.trans hblocks⟩, hless⟩

/-- The callback makes room in the ring. -/
theorem Chunking.makes_room (h : Chunking A s) {header : ℚ}
    (hfull : s.blocks.beginWrite A header = none) :
    ∃ t, ReachIf (AudioThread.step A) (FramesOnly A) s t ∧ Chunking A t ∧ t.pc = s.pc ∧
      (t.blocks.beginWrite A header).isSome = true := by
  obtain ⟨t, ht, ⟨hinv, hpc, hblocks⟩, r, hending⟩ := h.plays hfull
  have hrun : ReachIf (AudioThread.step A) (FramesOnly A) t (t.audioCallback A 0) :=
    .single (a := .callback 0) trivial rfl
  have hnext : Chunking A (t.audioCallback A 0) := hinv.step (a := .callback 0) trivial rfl
  refine ⟨_, ht.trans hrun, hnext, (audioCallback_beside 0).1.trans hpc, ?_⟩
  obtain ⟨played, hsound⟩ := hinv.sound
  have hstream := (hinv.streaming.stream hinv.stage).toStream
  have hplayed := hsound.consume hending
  have hblocks' : (t.audioCallback A 0).blocks =
      t.blocks.consume (t.blocks.ring.endRead r A.frameAlignBytes) := by
    simp only [audioCallback, hending]
    rfl
  have hstream' : BlockWriter.Stream A (t.blocks.consume _) t.pc.left :=
    ((hinv.streaming.stream hinv.stage).consume (t.blocks.ring.endRead r A.frameAlignBytes)).toStream
  rw [hblocks', hplayed.beginWrite_iff hstream']
  have hlt := hsound.counts.lt
  rw [slots_eq hstream, ← Nat.add_mul] at hlt
  have hcount := Nat.lt_of_mul_lt_mul_right hlt
  show t.blocks.payloads.length + 1 < played + 1 + 8
  omega

/-- With its first frame the video lets the audio go. -/
theorem calAudioDelay_of_video (sync : ClockSync) (now : ℚ) (pts : Pts) :
    ((sync.updateVideoPts 0 (some 0)).calAudioDelay now pts (some 0)).2 = some 0 := by
  have hgo : ((sync.updateVideoPts 0 (some 0)).startAudio now pts).awaitsVideo = false := by
    rw [← Bool.not_eq_true, ClockSync.startAudio_awaitsVideo]
    rintro ⟨-, hnone⟩
    rw [ClockSync.updateVideoPts_video, Clock.updatePts_startPts] at hnone
    cases hstart : sync.video.startPts with
    | none => simp [hstart] at hnone
    | some x => simp [hstart] at hnone
  unfold ClockSync.calAudioDelay
  dsimp only
  rw [hgo]
  rfl

/-- A thread that waits can be brought to go on. -/
theorem Chunking.unblocked (h : Chunking A s) :
    ∃ t, ReachIf (AudioThread.step A) (FramesOnly A) s t ∧ Chunking A t ∧ t.pc = s.pc ∧ ¬t.Waits A 0 := by
  by_cases hwaits : s.Waits A 0
  · cases hpc : s.pc with
    | cutting d rest =>
      unfold Waits at hwaits
      rw [hpc] at hwaits
      obtain ⟨t, ht, hinv, hpc', hroom⟩ := h.makes_room hwaits.2
      rw [hpc] at hpc'
      refine ⟨t, ht, hinv, hpc', ?_⟩
      unfold Waits
      rw [hpc']
      rintro ⟨-, hnone⟩
      rw [hnone] at hroom
      cases hroom
    | starting d rest =>
      let call : AudioThreadAct := .clock (.updateVideoPts 0 0)
      have hinv : Chunking A { s with sync := s.sync.updateVideoPts 0 (some 0) } :=
        h.step (a := call) trivial rfl
      refine ⟨_, .single (a := call) trivial rfl, hinv, hpc, ?_⟩
      unfold Waits
      rw [hpc]
      rintro ⟨hpos, -⟩
      have hgo : Pts.pos ((s.sync.updateVideoPts 0 (some 0)).calAudioDelay 0 _ (some 0)).2 = true :=
        hpos
      rw [calAudioDelay_of_video] at hgo
      cases hgo
    | top | reading | flushing | polling | resetWrite | resetRead | clearing | converting
    | filling | endLoop | leaving | exited =>
      unfold Waits at hwaits
      rw [hpc] at hwaits
      exact hwaits.elim
  · exact ⟨s, .refl, h, rfl, hwaits⟩

theorem display_enabled {rest : Rest} (hjob : s.pc.job = some (d, rest)) (now : ℚ)
    (e : SwrAnswers) : ∃ t, s.display A now e = some t := by
  unfold display
  split
  case h_14 hpc =>
    rw [hpc] at hjob
    cases hjob
  all_goals exact ⟨_, rfl⟩

/-- The block loop can come to its end. -/
theorem Chunking.ends (h : Chunking A s) {rest : Rest} (hjob : s.pc.job = some (d, rest)) :
    ∃ t, ReachIf (AudioThread.step A) (FramesOnly A) s t ∧ t.pc = .endLoop d := by
  refine ReachIf.leads_to (I := fun s => Chunking A s ∧ s.pc.Cuts d)
    (measure fun s : AudioThread W => s.pc.work).wf (fun s hs => ?_) ⟨h, .of_job hjob⟩
  obtain ⟨hinv, ⟨rest, hjob⟩ | hend⟩ := hs
  · obtain ⟨t, ht, hinv', hpc, hgo⟩ := hinv.unblocked
    rw [← hpc] at hjob
    obtain ⟨u, hu⟩ := display_enabled hjob 0 (goodAnswers 0 fun _ => 0)
    obtain ⟨hcuts, hwork⟩ := display_works hinv' hjob hu
    have hless : u.pc.work < t.pc.work := hwork.resolve_right fun hw => hgo hw.2
    refine .inr ⟨u, ht.tail (a := .display 0 _) trivial hu,
      ⟨hinv'.step (a := .display 0 _) trivial hu, hcuts⟩, ?_⟩
    show u.pc.work < s.pc.work
    rw [← hpc]
    exact hless
  · exact .inl hend

end AudioThread

open AudioThread

/-- In every run of frames of the device's format: the payloads published, the open block and
what is left of the frame are the samples of the frames taken; the payloads are all of one
length, the samples in the open block fewer than that; every store keeps the rules; and from
every place in the block loop its end can be reached, each step of the thread leading there
unless it waits. -/
theorem blocks_chunk (A : AudioSetup W) (memory : Nat → UInt8) (sync : ClockSync)
    (volume channelVolume : Int) (s : AudioThread W)
    (h : ReachIf (step A) (FramesOnly A) (start A memory sync volume channelVolume) s) :
    s.blocks.payloads.flatten ++
        read s.blocks.ring.buf (s.blocks.buf + 8) (s.blocks.writtenSamples * A.bps) ++ s.pc.left =
      s.inputs.flatMap (fun x => A.sampleBytes x.1) ∧
    (∀ payload ∈ s.blocks.payloads, payload.length = A.frameBytes) ∧
    s.blocks.writtenSamples < A.samples ∧
    exec (blockRules A) none s.blocks.stores = some (openBlock A s.blocks s.pc) ∧
    ∀ d rest, s.pc.job = some (d, rest) →
      (∃ t, ReachIf (step A) (FramesOnly A) s t ∧ t.pc = .endLoop d) ∧
      ∀ a t, s.step A a = some t →
        t.pc.work < s.pc.work ∨
          t.pc = s.pc ∧ ∀ now e, a = .display now e → s.Waits A now := by
  have hinv := chunking_of_reach h
  have hstream := hinv.streaming.stream hinv.stage
  refine ⟨?_, hstream.cut, hstream.written_lt, hinv.ordered, fun d rest hjob =>
    ⟨hinv.ends hjob, fun a t hs => step_works hinv hjob hs⟩⟩
  have hfed := hinv.fed
  unfold Fed at hfed
  rw [← hfed, ← hstream.stream]
  by_cases hopen : s.blocks.writtenSamples = 0
  · rw [hopen, Nat.zero_mul, read_zero, read_zero]
  · rw [hstream.buf hopen]

/-- Three samples in blocks of two: one block is published, the other one is open. -/
theorem blocks_chunk_three_samples :
    ∃ s : AudioThread 64, s.blocks.payloads.length = 1 ∧ s.blocks.writtenSamples = 1 ∧
      s.pc.left = [] ∧
      s.blocks.payloads.flatten ++ read s.blocks.ring.buf (s.blocks.buf + 8) (1 * 4) ++ [] =
        s.inputs.flatMap fun x => (smallDevice (1 / 8000)).sampleBytes x.1 := by
  obtain ⟨s, hs, hp⟩ := reachIf_of_any (step (smallDevice (1 / 8000)))
    (FramesOnly (smallDevice (1 / 8000)))
    (start (smallDevice (1 / 8000)) (fun _ => 0) audioOnly 128 128)
    ([.decoder (some (stereoFrame .s16 8000 3 0))] ++ displaySteps 9 (goodAnswers 0 fun _ => 1))
    (fun s => s.blocks.payloads.length = 1 ∧ s.blocks.writtenSamples = 1 ∧ s.pc.left = [])
    (by
      intro a ha s
      rcases List.mem_append.mp ha with ha | ha
      · obtain rfl := List.mem_singleton.mp ha
        rfl
      · obtain rfl := List.eq_of_mem_replicate ha
        trivial)
    (by decide +kernel)
  obtain ⟨hone, hopen, hleft⟩ := of_decide_eq_true hp
  have hstream := (blocks_chunk _ _ _ _ _ s hs).1
  rw [hopen, hleft] at hstream
  exact ⟨s, hone, hopen, hleft, hstream⟩

end VideoPlayerCore
