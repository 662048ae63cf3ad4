import VideoPlayerCore.ClockHandshake
import VideoPlayerCore.CloseSteps

/-!
# The wait loop of the video display thread in a session without audio

Play disables the audio clock and makes the video clock the master.  That clock shows the
pts of the last frame that was presented and does not advance with the wall time: as long
as the thread waits for a frame, each call of `calVideoDelay` returns the same delay.

    delay = pts - video.currentPts, once a frame was seen              (calVideoDelay_running)
    a delay > 0 ends  ↔  there is none          (first part of video_wait_ends_iff)
    increasing frames are all let go  ↔  there is at most one          (second part)
-/

namespace VideoPlayerCore

open Machine

namespace ClockSync

/-- The clocks of a session without audio. -/
def noAudio : ClockSync := fresh .video true false

/-- What the clocks are in a session without audio, before any restart. -/
structure IsNoAudio (s : ClockSync) : Prop where
  type : s.type = .video
  disabled : s.audio.isDisabled = true
  currentPts : s.video.startPts.isSome = s.video.currentPts.isSome

theorem isNoAudio_start : noAudio.IsNoAudio := ⟨rfl, rfl, rfl⟩

variable {s : ClockSync} {now pts duration v x : ℚ}

/-- A clock that has started shows a pts. -/
theorem IsNoAudio.shown (h : s.IsNoAudio) (hv : s.video.startPts = some v) :
    ∃ x, s.video.currentPts = some x := by
  have hsome := h.currentPts
  rw [hv] at hsome
  exact Option.isSome_iff_exists.mp hsome.symm

theorem IsNoAudio.alignVideo (h : s.IsNoAudio) (now : ℚ) (pts : Pts) :
    (s.startVideo now pts).alignVideo = s.startVideo now pts := by
  unfold ClockSync.alignVideo
  rw [if_neg]
  simp [h.disabled]

theorem IsNoAudio.calVideoDelay (h : s.IsNoAudio) (now : ℚ) (pts duration : Pts) :
    s.calVideoDelay now pts duration =
      (s.startVideo now pts, forgive ((s.startVideo now pts).videoDiff pts) duration) := by
  unfold ClockSync.calVideoDelay
  dsimp only
  rw [h.alignVideo, if_neg]
  simp [awaitsAudio, h.disabled]

/-- The first frame is due at once. -/
theorem IsNoAudio.calVideoDelay_first (h : s.IsNoAudio) (hnone : s.video.startPts = none) :
    s.calVideoDelay now (some pts) (some duration) =
      ({ s.tick now with video := s.video.updatePts (some pts) }, some 0) := by
  have hstart : s.startVideo now (some pts) =
      { s.tick now with video := s.video.updatePts (some pts) } := by
    unfold startVideo
    dsimp only
    rw [tick_video, if_pos hnone]
  rw [h.calVideoDelay, hstart]
  simp [videoDiff, getMasterClock, Clock.getTime, h.type, hnone, forgive]

/-- Behind the first frame the delay is what the frame is ahead of the one presented last. -/
theorem IsNoAudio.calVideoDelay_running (h : s.IsNoAudio) (hv : s.video.startPts = some v)
    (hx : s.video.currentPts = some x) :
    s.calVideoDelay now (some pts) (some duration) =
      (s.tick now, forgive (some (pts - x)) (some duration)) := by
  have hstart : s.startVideo now (some pts) = s.tick now := by
    unfold startVideo
    dsimp only
    rw [tick_video, hv, if_neg (by simp)]
  have hsub : pts - v - (x - v) = pts - x := by ring
  rw [h.calVideoDelay, hstart]
  simp [videoDiff, getMasterClock, Clock.getTime, h.type, hv, hx, hsub]

theorem IsNoAudio.tick (h : s.IsNoAudio) (now : ℚ) : (s.tick now).IsNoAudio :=
  ⟨h.type, h.disabled, h.currentPts⟩

theorem IsNoAudio.updatePts (h : s.IsNoAudio) (now pts : ℚ) :
    IsNoAudio { s.tick now with video := s.video.updatePts (some pts) } :=
  ⟨h.type, h.disabled, by simp⟩

/-- Behind a call of `calVideoDelay`. -/
theorem IsNoAudio.called (h : s.IsNoAudio) (now pts duration : ℚ) :
    (s.calVideoDelay now (some pts) (some duration)).1.IsNoAudio := by
  cases hv : s.video.startPts with
  | none =>
    rw [h.calVideoDelay_first hv]
    exact h.updatePts now pts
  | some v =>
    obtain ⟨x, hx⟩ := h.shown hv
    rw [h.calVideoDelay_running hv hx]
    exact h.tick now

theorem IsNoAudio.apply (h : s.IsNoAudio) {c : ClockCall} (hc : c.isVideo = true) :
    (c.apply s).IsNoAudio := by
  cases c with
  | calVideoDelay now pts duration => exact h.called now pts duration
  | updateVideoPts now pts => exact h.updatePts now pts
  | calAudioDelay now pts duration => cases hc
  | updateAudioPts now pts => cases hc

theorem isNoAudio_after {h : List ClockCall} (hvideo : ∀ c ∈ h, c.isVideo = true)
    (hs : s.IsNoAudio) : (s.after h).IsNoAudio := by
  induction h generalizing s with
  | nil => exact hs
  | cons c h ih =>
    obtain ⟨hc, hrest⟩ := List.forall_mem_cons.mp hvideo
    exact ih hrest (hs.apply hc)

/-! ## One frame -/

/-- The frame is not ahead of the one presented last, if there is one. -/
def Due (s : ClockSync) (pts : ℚ) : Prop := ∀ x, s.video.currentPts = some x → pts ≤ x

/-- A wait for the frame ends by itself: called again after the delay, `calVideoDelay` has
no delay any more. -/
def WaitEnds (s : ClockSync) (pts duration : ℚ) : Prop :=
  ∀ t t' d, (s.calVideoDelay t (some pts) (some duration)).2 = some d → 0 < d → t + d ≤ t' →
    ∃ d', ((s.calVideoDelay t (some pts) (some duration)).1.calVideoDelay t' (some pts)
      (some duration)).2 = some d' ∧ d' ≤ 0

theorem forgive_pos (hx : 0 < x) : forgive (some x) (some duration) = some x := by
  refine forgive_not_dueNow fun hdue => ?_
  exact absurd hdue.2 (not_le.mpr hx)

theorem forgive_nonpos (hx : x ≤ 0) : ∃ d, forgive (some x) (some duration) = some d ∧ d ≤ 0 := by
  by_cases hdue : DueNow x duration
  · exact ⟨0, forgive_dueNow hdue, le_rfl⟩
  · exact ⟨x, forgive_not_dueNow hdue, hx⟩

theorem IsNoAudio.delay_of_due (h : s.IsNoAudio) (hdue : s.Due pts) (now duration : ℚ) :
    ∃ d, (s.calVideoDelay now (some pts) (some duration)).2 = some d ∧ d ≤ 0 := by
  cases hv : s.video.startPts with
  | none => exact ⟨0, by rw [h.calVideoDelay_first hv], le_rfl⟩
  | some v =>
    obtain ⟨x, hx⟩ := h.shown hv
    rw [h.calVideoDelay_running hv hx]
    exact forgive_nonpos (sub_nonpos.mpr (hdue x hx))

/-- A frame that is ahead has the same delay at all times. -/
theorem IsNoAudio.delay_of_ahead (h : s.IsNoAudio) (hx : s.video.currentPts = some x)
    (hahead : x < pts) (now duration : ℚ) :
    s.calVideoDelay now (some pts) (some duration) = (s.tick now, some (pts - x)) := by
  obtain ⟨v, hv⟩ := Option.isSome_iff_exists.mp (h.currentPts.trans (hx ▸ rfl))
  rw [h.calVideoDelay_running hv hx, forgive_pos (sub_pos.mpr hahead)]

theorem IsNoAudio.waitEnds_iff (h : s.IsNoAudio) : s.WaitEnds pts duration ↔ s.Due pts := by
  constructor
  · intro hends x hx
    by_contra hnot
    have hahead : x < pts := not_le.mp hnot
    have hfirst := h.delay_of_ahead hx hahead 0 duration
    obtain ⟨d', hd', hle⟩ := hends 0 (0 + (pts - x)) (pts - x) (by rw [hfirst])
      (sub_pos.mpr hahead) le_rfl
    rw [hfirst, (h.tick 0).delay_of_ahead hx hahead] at hd'
    obtain rfl := Option.some.inj hd'
    linarith
  · intro hdue t t' d hd hpos
    obtain ⟨d', hd', hle⟩ := h.delay_of_due hdue t duration
    rw [hd] at hd'
    obtain rfl := Option.some.inj hd'
    exact absurd hle (not_le.mpr hpos)

end ClockSync

/-! ## A sequence of frames -/

/-- `Video::_displayThread` with the frames that are to come. -/
structure FrameLoop where
  sync : ClockSync := ClockSync.noAudio
  rest : List VideoFrame
  display : VideoDisplay := .top
  presented : List VideoFrame := []
  dropped : List VideoFrame := []

namespace FrameLoop

variable (timeBase : ℚ)

/-- What the thread does next, at a wall time; nobody stops it. -/
def step (s : FrameLoop) (now : ℚ) : Option FrameLoop :=
  match s.display with
  | .top => some { s with display := .reading }
  | .reading =>
    match s.rest with
    | [] => some { s with display := .top }
    | f :: rest => some { s with display := .calling f, rest := rest }
  | .ending => some { s with display := .top }
  | .calling f =>
    let (sync, delay) := s.sync.delayOf timeBase now f
    some { s with display := .waiting f delay, sync := sync }
  | .waiting f delay =>
    if delay.pos then some { s with display := .calling f }
    else some { s with display := .leaving f delay }
  | .leaving f delay =>
    let s := { s with display := .top, sync := s.sync.leave timeBase now f delay }
    if delay.neg then some { s with dropped := s.dropped ++ [f] }
    else some { s with presented := s.presented ++ [f] }
  | .exited => none

/-- All frames were presented or dropped. -/
def Done (s : FrameLoop) : Prop := s.rest = [] ∧ s.display = .top

/-- Wherever the thread stands, it can still let go of all frames. -/
def NeverStuck (frames : List VideoFrame) : Prop :=
  ∀ s, Reach (step timeBase) { rest := frames } s → ∃ t, Reach (step timeBase) s t ∧ t.Done

variable {timeBase}

/-- In front of a frame the thread does what `Video::close` finds it doing. -/
theorem step_eq_displayStep {P : Type} {V : Codec P VideoFrame} (s : VideoSide V)
    (halive : s.videoAlive = true) (hread : s.display ≠ .reading) (now : ℚ)
    (rest presented dropped : List VideoFrame) :
    ((step timeBase ⟨s.sync, rest, s.display, presented, dropped⟩ now).map fun t =>
        (t.display, t.sync)) =
      (s.displayStep timeBase now).map fun t => (t.display, t.sync) := by
  unfold step VideoSide.displayStep
  cases hd : s.display with
  | reading => exact absurd hd hread
  | top => simp [halive]
  | ending => rfl
  | calling f => rfl
  | waiting f delay =>
    dsimp only
    rw [halive, Bool.and_true]
    split <;> rfl
  | leaving f delay =>
    dsimp only
    split <;> rfl
  | exited => rfl

/-! ### A frame that is ahead is never let go -/

/-- The thread waits for a frame that is ahead of the video clock. -/
structure Waits (timeBase : ℚ) (f : VideoFrame) (s : FrameLoop) : Prop where
  clocks : s.sync.IsNoAudio
  ahead : ∃ x, s.sync.video.currentPts = some x ∧ x < f.time timeBase
  display : s.display = .calling f ∨ ∃ d, 0 < d ∧ s.display = .waiting f (some d)

theorem Waits.step {f : VideoFrame} {s t : FrameLoop} {now : ℚ} (h : Waits timeBase f s)
    (hs : s.step timeBase now = some t) : Waits timeBase f t := by
  obtain ⟨x, hx, hahead⟩ := h.ahead
  rcases h.display with hd | ⟨d, hpos, hd⟩
  · have hcall := h.clocks.delay_of_ahead hx hahead now (f.length timeBase)
    unfold FrameLoop.step ClockSync.delayOf at hs
    rw [hd] at hs
    dsimp only at hs
    rw [hcall] at hs
    obtain rfl := Option.some.inj hs
    exact ⟨h.clocks.tick now, ⟨x, hx, hahead⟩, .inr ⟨_, sub_pos.mpr hahead, rfl⟩⟩
  · unfold FrameLoop.step at hs
    rw [hd] at hs
    have hwait : Pts.pos (some d) = true := decide_eq_true hpos
    dsimp only at hs
    rw [if_pos hwait] at hs
    obtain rfl := Option.some.inj hs
    exact ⟨h.clocks, ⟨x, hx, hahead⟩, .inl rfl⟩

theorem Waits.forever {f : VideoFrame} {s t : FrameLoop} (h : Waits timeBase f s)
    (ht : Reach (FrameLoop.step timeBase) s t) : ¬t.Done := by
  have hw : Waits timeBase f t := ht.invariant h fun _ _ _ hI hs => hI.step hs
  rintro ⟨-, htop⟩
  rcases hw.display with hd | ⟨d, -, hd⟩
  · rw [htop] at hd
    cases hd
  · rw [htop] at hd
    cases hd

/-- The first frame is presented, and the second one is ahead of it. -/
theorem reach_waits {f g : VideoFrame} (rest : List VideoFrame)
    (hlt : f.time timeBase < g.time timeBase) :
    ∃ s, Reach (step timeBase) { rest := f :: g :: rest } s ∧
      Waits timeBase g s := by
  obtain ⟨sync, hsync, hclocks, hshown⟩ : ∃ sync : ClockSync,
      ClockSync.noAudio.delayOf timeBase 0 f = (sync, some 0) ∧ sync.IsNoAudio ∧
        sync.video.currentPts = some (f.time timeBase) :=
    ⟨_, ClockSync.isNoAudio_start.calVideoDelay_first rfl,
      ClockSync.isNoAudio_start.updatePts 0 _, rfl⟩
  let left := sync.leave timeBase 0 f (some 0)
  have hleft : left = sync.updateVideoPts 0 (some (f.time timeBase)) := if_neg (by decide)
  have hrun : exec (step timeBase) { rest := f :: g :: rest } [0, 0, 0, 0, 0, 0, 0] =
      some ⟨left, rest, .calling g, [f], []⟩ := by
    simp only [exec, step, hsync, Option.bind_some]
    rfl
  refine ⟨_, reach_of_exec hrun, ?_, ⟨f.time timeBase, ?_, hlt⟩, .inl rfl⟩
  · rw [hleft]
    exact hclocks.updatePts 0 _
  · rw [hleft]
    rfl

/-! ### A single frame is let go -/

/-- At most one frame is there, and it is the first one or behind its wait. -/
def Simple (timeBase : ℚ) (s : FrameLoop) : Prop :=
  s.sync.IsNoAudio ∧
    match s.display with
    | .top | .reading => s.rest = [] ∨ s.rest.length = 1 ∧ s.sync.video.currentPts = none
    | .calling f => s.rest = [] ∧ s.sync.Due (f.time timeBase)
    | .waiting _ delay | .leaving _ delay => s.rest = [] ∧ delay.pos = false
    | .ending | .exited => False

/-- How many steps are left at most. -/
def stepsLeft (s : FrameLoop) : Nat :=
  match s.display with
  | .top => 5 * s.rest.length
  | .reading => 3 * s.rest.length + 1
  | .calling _ => 3
  | .waiting _ _ => 2
  | .leaving _ _ => 1
  | .ending | .exited => 0

theorem Simple.step {s : FrameLoop} (h : Simple timeBase s) (hnot : ¬s.Done) (now : ℚ) :
    ∃ t, s.step timeBase now = some t ∧ Simple timeBase t ∧ t.stepsLeft < s.stepsLeft := by
  obtain ⟨sync, rest, display, presented, dropped⟩ := s
  obtain ⟨hclocks, hplace⟩ := h
  cases display with
  | ending => exact hplace.elim
  | exited => exact hplace.elim
  | top =>
    refine ⟨_, rfl, ⟨hclocks, hplace⟩, ?_⟩
    rcases hplace with hnil | ⟨hone, -⟩
    · exact absurd ⟨hnil, rfl⟩ hnot
    · have hlen : rest.length = 1 := hone
      simp only [stepsLeft, hlen]
      omega
  | reading =>
    cases rest with
    | nil => exact ⟨_, rfl, ⟨hclocks, .inl rfl⟩, by simp [stepsLeft]⟩
    | cons f rest =>
      obtain ⟨hone, hnone⟩ := hplace.resolve_left (List.cons_ne_nil _ _)
      obtain rfl : rest = [] := List.length_eq_zero_iff.mp (Nat.succ.inj hone)
      have hdue : sync.Due (f.time timeBase) := fun x hx => by
        rw [hnone] at hx
        cases hx
      exact ⟨_, rfl, ⟨hclocks, rfl, hdue⟩, by simp [stepsLeft]⟩
  | calling f =>
    obtain ⟨hnil, hdue⟩ := hplace
    obtain ⟨d, hd, hle⟩ := hclocks.delay_of_due hdue now (f.length timeBase)
    refine ⟨_, rfl, ⟨hclocks.called now _ _, hnil, ?_⟩, by simp [stepsLeft]⟩
    show Pts.pos (sync.calVideoDelay now _ _).2 = false
    rw [hd]
    exact decide_eq_false (not_lt.mpr hle)
  | waiting f delay =>
    obtain ⟨hnil, hpos⟩ := hplace
    refine ⟨_, if_neg (by simp [hpos]), ⟨hclocks, hnil, hpos⟩, by simp [stepsLeft]⟩
  | leaving f delay =>
    obtain ⟨hnil, -⟩ := hplace
    have hnil : rest = [] := hnil
    have hleave : (sync.leave timeBase now f delay).IsNoAudio := by
      unfold ClockSync.leave
      split
      · exact hclocks
      · exact hclocks.updatePts now _
    unfold FrameLoop.step
    dsimp only
    split
    · exact ⟨_, rfl, ⟨hleave, .inl hnil⟩, by simp [stepsLeft, hnil]⟩
    · exact ⟨_, rfl, ⟨hleave, .inl hnil⟩, by simp [stepsLeft, hnil]⟩

theorem Simple.keeps {s t : FrameLoop} {now : ℚ} (h : Simple timeBase s)
    (hs : s.step timeBase now = some t) : Simple timeBase t := by
  by_cases hdone : s.Done
  · obtain ⟨sync, rest, display, presented, dropped⟩ := s
    obtain ⟨hnil, htop⟩ := hdone
    obtain rfl : display = .top := htop
    obtain rfl := Option.some.inj hs
    exact ⟨h.1, .inl hnil⟩
  · obtain ⟨u, hu, hsimple, -⟩ := h.step hdone now
    rw [hu] at hs
    obtain rfl := Option.some.inj hs
    exact hsimple

theorem Simple.lets_go {s : FrameLoop} (h : Simple timeBase s) :
    ∃ t, Reach (FrameLoop.step timeBase) s t ∧ t.Done := by
  refine ReachIf.leads_to (I := Simple timeBase) (measure stepsLeft).wf (fun s hs => ?_) h
  by_cases hdone : s.Done
  · exact .inl hdone
  · obtain ⟨t, ht, hsimple, hless⟩ := hs.step hdone 0
    exact .inr ⟨t, .single trivial ht, hsimple, hless⟩

theorem neverStuck_iff {frames : List VideoFrame}
    (hincreasing : frames.Pairwise fun f g => f.time timeBase < g.time timeBase) :
    NeverStuck timeBase frames ↔ frames.length ≤ 1 := by
  constructor
  · intro hgo
    match frames, hincreasing with
    | [], _ => exact Nat.zero_le 1
    | [f], _ => exact le_rfl
    | f :: g :: rest, hincreasing =>
      have hlt := List.rel_of_pairwise_cons hincreasing (List.mem_cons_self (a := g))
      obtain ⟨s, hs, hwaits⟩ := reach_waits rest hlt
      obtain ⟨t, ht, hdone⟩ := hgo s hs
      exact absurd hdone (hwaits.forever ht)
  · intro hle s hs
    have hstart : Simple timeBase { rest := frames } := by
      refine ⟨ClockSync.isNoAudio_start, ?_⟩
      match frames, hle with
      | [], _ => exact .inl rfl
      | [f], _ => exact .inr ⟨rfl, rfl⟩
    exact (hs.invariant hstart fun _ _ _ hI hstep => hI.keeps hstep).lets_go

end FrameLoop

/-- In a session without audio a wait ends by itself exactly where there is none to begin with,
and the frames of a sequence with increasing pts are all let go exactly if there is at most
one. -/
theorem video_wait_ends_iff (h : List ClockCall) (hvideo : ∀ c ∈ h, c.isVideo = true)
    (pts duration timeBase : ℚ) (frames : List VideoFrame)
    (hincreasing : frames.Pairwise fun f g => f.time timeBase < g.time timeBase) :
    ((ClockSync.noAudio.after h).WaitEnds pts duration ↔ (ClockSync.noAudio.after h).Due pts) ∧
      (FrameLoop.NeverStuck timeBase frames ↔ frames.length ≤ 1) :=
  ⟨(ClockSync.isNoAudio_after hvideo ClockSync.isNoAudio_start).waitEnds_iff,
    FrameLoop.neverStuck_iff hincreasing⟩

/-- A frame that is presented already is due, and a single frame is let go. -/
theorem video_wait_ends_one_frame :
    (ClockSync.noAudio.after [.calVideoDelay 0 0 (1 / 25), .updateVideoPts 0 0]).WaitEnds 0
        (1 / 25) ∧
      FrameLoop.NeverStuck (1 / 25) [⟨some 0, 1⟩] := by
  have hends := video_wait_ends_iff [.calVideoDelay 0 0 (1 / 25), .updateVideoPts 0 0] (by decide)
    0 (1 / 25) (1 / 25) [⟨some 0, 1⟩] (List.pairwise_singleton _ _)
  refine ⟨hends.1.mpr ?_, hends.2.mpr (Nat.le_refl 1)⟩
  intro x hx
  obtain rfl := Option.some.inj ((show _ = some (0 : ℚ) by decide).symm.trans hx)
  exact le_rfl

/-- The frame at 0 s is presented; the one at 1/25 s has a delay of 1/25 s at all times, and
the display thread gets stuck with it. -/
theorem second_frame_waits :
    let s := ClockSync.noAudio.after [.calVideoDelay 0 0 (1 / 25), .updateVideoPts 0 0]
    (∀ t, (s.calVideoDelay t (some (1 / 25)) (some (1 / 25))).2 = some (1 / 25)) ∧
      ¬s.WaitEnds (1 / 25) (1 / 25) ∧
      ¬FrameLoop.NeverStuck (1 / 25) [⟨some 0, 1⟩, ⟨some 1, 1⟩] := by
  intro s
  have hclocks : s.IsNoAudio := ClockSync.isNoAudio_after (by decide) ClockSync.isNoAudio_start
  have hshown : s.video.currentPts = some 0 := by decide
  refine ⟨fun t => ?_, fun hends => ?_, fun hgo => ?_⟩
  · rw [hclocks.delay_of_ahead hshown (by norm_num), sub_zero]
  · have hdue : (1 / 25 : ℚ) ≤ 0 := hclocks.waitEnds_iff.mp hends 0 hshown
    norm_num at hdue
  · have hone := (FrameLoop.neverStuck_iff (by norm_num [VideoFrame.time])).mp hgo
    exact absurd hone (by decide)

end VideoPlayerCore
