import VideoPlayerCore.ClockWaits

/-!
# The start-up handshake of the display threads

Each display thread waits for the first pts of the other stream: `calAudioDelay` returns
0.01 until the video clock has started, `calVideoDelay` until the audio clock has.  A call
starts the clock of its own side before it looks at the other one.

    calAudioDelay waits  ↔  video is enabled and no video call came before
    calVideoDelay waits  ↔  audio is enabled and no audio call came before

so of two waiting calls of one history both are by the same side      (handshake_resolves)
-/

namespace VideoPlayerCore

/-- A `ClockSync` on which nothing was called yet. -/
def ClockSync.fresh (type : ClockSyncType) (audioDisabled videoDisabled : Bool) : ClockSync :=
  { type := type, audio := { isDisabled := audioDisabled }, video := { isDisabled := videoDisabled } }

/-- `calVideoDelay` and `updateVideoPts` -/
def ClockCall.isVideo (c : ClockCall) : Bool := c.videoPts.isSome

namespace ClockSync

/-- The clocks after a history of calls. -/
def after (s : ClockSync) (h : List ClockCall) : ClockSync := h.foldl ClockCall.apply s

variable (s : ClockSync) (c : ClockCall) (h h' : List ClockCall)

@[simp] theorem after_nil : s.after [] = s := rfl

@[simp] theorem after_cons : s.after (c :: h) = (c.apply s).after h := rfl

theorem after_append : s.after (h ++ h') = (s.after h).after h' := List.foldl_append

theorem apply_audio_isDisabled : (c.apply s).audio.isDisabled = s.audio.isDisabled := by
  cases c <;> simp [ClockCall.apply]

theorem apply_video_isDisabled : (c.apply s).video.isDisabled = s.video.isDisabled := by
  cases c <;> simp [ClockCall.apply]

theorem after_audio_isDisabled : (s.after h).audio.isDisabled = s.audio.isDisabled := by
  induction h generalizing s with
  | nil => rfl
  | cons c h ih => rw [after_cons, ih, apply_audio_isDisabled]

theorem after_video_isDisabled : (s.after h).video.isDisabled = s.video.isDisabled := by
  induction h generalizing s with
  | nil => rfl
  | cons c h ih => rw [after_cons, ih, apply_video_isDisabled]

theorem isVideo_eq_false : c.isVideo = false ↔ c.videoPts = none := by
  cases c <;> simp [ClockCall.isVideo, ClockCall.videoPts]

theorem isVideo_eq_true : c.isVideo = true ↔ c.audioPts = none := by
  cases c <;> simp [ClockCall.isVideo, ClockCall.videoPts, ClockCall.audioPts]

/-- The video clock is started by the first video call. -/
theorem after_video_startPts_eq_none :
    (s.after h).video.startPts = none ↔ s.video.startPts = none ∧ ∀ c ∈ h, c.isVideo = false := by
  induction h generalizing s with
  | nil => simp
  | cons c h ih =>
    rw [after_cons, ih, apply_video_startPts, Option.or_eq_none_iff, List.forall_mem_cons,
      isVideo_eq_false, and_assoc]

theorem after_audio_startPts_eq_none :
    (s.after h).audio.startPts = none ↔ s.audio.startPts = none ∧ ∀ c ∈ h, c.isVideo = true := by
  induction h generalizing s with
  | nil => simp
  | cons c h ih =>
    rw [after_cons, ih, apply_audio_startPts, Option.or_eq_none_iff, List.forall_mem_cons,
      isVideo_eq_true, and_assoc]

end ClockSync

section Fresh

variable {type : ClockSyncType} {audioDisabled videoDisabled : Bool} {h : List ClockCall}

theorem audioWaits_after_fresh {now pts duration : ℚ} :
    ((ClockSync.fresh type audioDisabled videoDisabled).after h).AudioWaits now pts duration ↔
      videoDisabled = false ∧ ∀ c ∈ h, c.isVideo = false := by
  rw [ClockSync.audioWaits_iff, ClockSync.after_video_isDisabled,
    ClockSync.after_video_startPts_eq_none]
  simp [ClockSync.fresh]

theorem videoWaits_after_fresh {now pts duration : ℚ} :
    ((ClockSync.fresh type audioDisabled videoDisabled).after h).VideoWaits now pts duration ↔
      audioDisabled = false ∧ ∀ c ∈ h, c.isVideo = true := by
  rw [ClockSync.videoWaits_iff, ClockSync.after_audio_isDisabled,
    ClockSync.after_audio_startPts_eq_none]
  simp [ClockSync.fresh]

/-- Whoever waits is of the one side, and the calls before are all of that side. -/
theorem waits_after_fresh {c : ClockCall}
    (hwait : c.Waits ((ClockSync.fresh type audioDisabled videoDisabled).after h)) :
    (if c.isVideo then audioDisabled else videoDisabled) = false ∧
      ∀ c' ∈ h, c'.isVideo = c.isVideo := by
  cases c with
  | calVideoDelay now pts duration => exact videoWaits_after_fresh.mp hwait
  | calAudioDelay now pts duration => exact audioWaits_after_fresh.mp hwait
  | updateVideoPts now pts => exact hwait.elim
  | updateAudioPts now pts => exact hwait.elim

end Fresh

/-- A side waits exactly until the first call of the other one, if that is enabled: so long
`calVideoDelay` returns 0.01 whatever it is asked, and behind that it compares the times.  Once
each enabled side has called nobody waits, and of two calls of a history that wait both are
by the same side. -/
theorem handshake_resolves (type : ClockSyncType) (audioDisabled videoDisabled : Bool)
    (h : List ClockCall) :
    let s := (ClockSync.fresh type audioDisabled videoDisabled).after h
    (∀ now pts duration, (s.calAudioDelay now (some pts) (some duration)).2 = some 0.01 ↔
      videoDisabled = false ∧ ∀ c ∈ h, c.isVideo = false) ∧
    (∀ now pts duration, s.VideoWaits now pts duration ↔
      audioDisabled = false ∧ ∀ c ∈ h, c.isVideo = true) ∧
    (∀ now pts duration, s.calVideoDelay now (some pts) (some duration) =
      let started := s.startVideo now (some pts)
      if audioDisabled = false ∧ ∀ c ∈ h, c.isVideo = true then (started, some 0.01)
      else (started.alignVideo,
        ClockSync.forgive (started.alignVideo.videoDiff (some pts)) (some duration))) ∧
    ((videoDisabled = true ∨ ∃ c ∈ h, c.isVideo = true) →
      (audioDisabled = true ∨ ∃ c ∈ h, c.isVideo = false) →
      ∀ (later : List ClockCall) (c : ClockCall), ¬c.Waits (s.after later)) ∧
    ∀ (c : ClockCall) (later : List ClockCall) (c' : ClockCall), c.Waits s →
      c'.Waits (s.after (c :: later)) → c'.isVideo = c.isVideo := by
  intro s
  refine ⟨fun now pts duration => audioWaits_after_fresh,
    fun now pts duration => videoWaits_after_fresh, fun now pts duration => ?_, ?_, ?_⟩
  · have hbranch : (audioDisabled = false ∧ ∀ c ∈ h, c.isVideo = true) ↔
        s.audio.isDisabled = false ∧ s.audio.startPts = none := by
      have hwaits : s.VideoWaits now pts duration ↔
          audioDisabled = false ∧ ∀ c ∈ h, c.isVideo = true := videoWaits_after_fresh
      rw [← hwaits, ClockSync.videoWaits_iff]
    by_cases hwait : audioDisabled = false ∧ ∀ c ∈ h, c.isVideo = true
    · obtain ⟨ha, hnone⟩ := hbranch.mp hwait
      rw [if_pos hwait, ClockSync.calVideoDelay_of_awaits ha hnone]
    · rw [if_neg hwait, ClockSync.calVideoDelay_of_not_awaits fun hawaits =>
        hwait (hbranch.mpr ((s.startVideo_awaitsAudio now _).mp hawaits))]
  · intro hvideo haudio later c hwait
    rw [← ClockSync.after_append] at hwait
    obtain ⟨hother, hsame⟩ := waits_after_fresh hwait
    by_cases hc : c.isVideo = true
    · rw [if_pos hc] at hother
      rcases haudio with hoff | ⟨c', hc', hnot⟩
      · rw [hother] at hoff
        cases hoff
      · rw [hsame c' (List.mem_append_left _ hc'), hc] at hnot
        cases hnot
    · rw [if_neg hc] at hother
      rcases hvideo with hoff | ⟨c', hc', hyes⟩
      · rw [hother] at hoff
        cases hoff
      · exact hc ((hsame c' (List.mem_append_left _ hc')).symm.trans hyes)
  · intro c later c' _ hwait
    rw [← ClockSync.after_append] at hwait
    exact ((waits_after_fresh hwait).2 c (by simp)).symm

end VideoPlayerCore
