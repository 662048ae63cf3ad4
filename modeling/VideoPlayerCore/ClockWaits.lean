import VideoPlayerCore.ClockOrigin

/-!
# Calls that wait for the other stream

`calAudioDelay` returns 0 or, as long as it waits for the first pts of the video stream, 0.01.
`calVideoDelay` returns a difference of times, which may be 0.01 too; but where it waits for
audio it returns 0.01 for every pts, and again at the next call.

    calVideoDelay waits  ↔  audio is enabled and has not started         (videoWaits_iff)
    calAudioDelay waits  ↔  video is enabled and has not started         (audioWaits_iff)
-/

namespace VideoPlayerCore

namespace ClockSync

variable (s : ClockSync) (now pts duration : ℚ)

/-- The call returns 0.01, and a call behind it does, whatever pts that one has. -/
def VideoWaits : Prop :=
  (s.calVideoDelay now (some pts) (some duration)).2 = some 0.01 ∧
    ∀ now' pts' duration', ((s.calVideoDelay now (some pts) (some duration)).1.calVideoDelay now'
      (some pts') (some duration')).2 = some 0.01

def AudioWaits : Prop := (s.calAudioDelay now (some pts) (some duration)).2 = some 0.01

theorem startVideo_awaitsAudio (pts : Pts) :
    (s.startVideo now pts).awaitsAudio = true ↔
      s.audio.isDisabled = false ∧ s.audio.startPts = none := by
  simp [awaitsAudio]

/-- `calAudioDelay` looks at the video clock as it was before the call. -/
theorem startAudio_awaitsVideo (pts : Pts) :
    (s.startAudio now pts).awaitsVideo = true ↔
      s.video.isDisabled = false ∧ s.video.startPts = none := by
  simp [awaitsVideo]

variable {s now pts duration}

theorem calVideoDelay_of_awaits (ha : s.audio.isDisabled = false) (hnone : s.audio.startPts = none)
    (now : ℚ) (pts duration : Pts) :
    s.calVideoDelay now pts duration = (s.startVideo now pts, some 0.01) := by
  have hwait : (s.startVideo now pts).awaitsAudio = true :=
    (s.startVideo_awaitsAudio now pts).mpr ⟨ha, hnone⟩
  unfold calVideoDelay
  dsimp only
  rw [if_pos hwait]

theorem calVideoDelay_of_not_awaits {pts : Pts} (h : (s.startVideo now pts).awaitsAudio ≠ true)
    (duration : Pts) : s.calVideoDelay now pts duration = ((s.startVideo now pts).alignVideo,
      forgive ((s.startVideo now pts).alignVideo.videoDiff pts) duration) := by
  unfold calVideoDelay
  dsimp only
  rw [if_neg h]

/-- When the video clock has started, the pts of a call changes nothing about the clocks. -/
theorem startVideo_of_started {v : ℚ} (h : s.video.startPts = some v) (now : ℚ) (pts : Pts) :
    s.startVideo now pts = s.tick now := by
  unfold startVideo
  dsimp only
  rw [tick_video, h]
  exact if_neg nofun

/-- A later frame is more than 0.01 ahead. -/
theorem exists_not_waiting {v : ℚ} (hstart : s.video.startPts = some v)
    (hgo : ¬(s.audio.isDisabled = false ∧ s.audio.startPts = none)) :
    ∃ pts, (s.calVideoDelay 0 (some pts) (some 0)).2 ≠ some 0.01 := by
  have hstarted : (s.tick 0).alignVideo.video.startPts = some v := alignVideo_startPts _ hstart
  have hdelay (pts : ℚ) : (s.calVideoDelay 0 (some pts) (some 0)).2 =
      forgive ((Pts.sub (some pts) (some v)).sub (s.tick 0).alignVideo.getMasterClock.getTime)
        (some 0) := by
    rw [calVideoDelay_of_not_awaits (fun h => hgo ((s.startVideo_awaitsAudio 0 _).mp h)),
      startVideo_of_started hstart, videoDiff, hstarted]
  cases htime : (s.tick 0).alignVideo.getMasterClock.getTime with
  | none =>
    refine ⟨0, ?_⟩
    rw [hdelay, htime]
    exact nofun
  | some time =>
    refine ⟨v + time + 1, ?_⟩
    have hone : v + time + 1 - v - time = 1 := by ring
    rw [hdelay, htime, Pts.sub_some, Pts.sub_some, hone]
    norm_num [forgive]

theorem videoWaits_iff :
    s.VideoWaits now pts duration ↔ s.audio.isDisabled = false ∧ s.audio.startPts = none := by
  constructor
  · rintro ⟨-, hagain⟩
    by_contra hgo
    obtain ⟨v, hv⟩ : ∃ v, s.video.startPts.or (some pts) = some v := by
      cases s.video.startPts <;> exact ⟨_, rfl⟩
    have hstart : (s.calVideoDelay now (some pts) (some duration)).1.video.startPts = some v :=
      (s.calVideoDelay_startPts now _ pts).trans hv
    obtain ⟨pts', hpts⟩ := exists_not_waiting hstart (by rwa [calVideoDelay_audio])
    exact hpts (hagain 0 pts' 0)
  · rintro ⟨ha, hnone⟩
    refine ⟨?_, fun now' pts' duration' => ?_⟩
    · rw [calVideoDelay_of_awaits ha hnone]
    · rw [calVideoDelay_of_awaits (by rwa [calVideoDelay_audio]) (by rwa [calVideoDelay_audio])]

theorem audioWaits_iff :
    s.AudioWaits now pts duration ↔ s.video.isDisabled = false ∧ s.video.startPts = none := by
  rw [← s.startAudio_awaitsVideo now (some pts)]
  unfold AudioWaits calAudioDelay
  dsimp only
  by_cases hwait : (s.startAudio now (some pts)).awaitsVideo = true
  · rw [if_pos hwait]
    exact iff_of_true rfl hwait
  · rw [if_neg hwait]
    refine iff_of_false (fun hzero => ?_) hwait
    norm_num at hzero

end ClockSync

/-- The call waits for the other stream. -/
def ClockCall.Waits (s : ClockSync) : ClockCall → Prop
  | .calVideoDelay now pts duration => s.VideoWaits now pts duration
  | .calAudioDelay now pts duration => s.AudioWaits now pts duration
  | .updateVideoPts _ _ | .updateAudioPts _ _ => False

end VideoPlayerCore
