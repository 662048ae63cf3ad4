import Mathlib.Data.List.Induction
import Mathlib.Tactic.Linarith
import Mathlib.Tactic.Ring
import VideoPlayerCore.ClockSync

/-!
# The origins of the two clocks

`updatePts` keeps the first `startPts`, so the alignment branch of
`calVideoDelay` moves `currentPts` only: each stream is measured from its own
first timestamp.  With `v0` and `a0` the first pts of the streams,

    calVideoDelay(pts, duration) = forgive (pts - audio.currentPts + (a0 - v0)) duration
                                                     (ClockSync.calVideoDelay_started)

which is the sync law exactly where the offset `a0 - v0` does not show
                                                     (calVideoDelay_law_iff)
-/

namespace VideoPlayerCore

/-- A call on a session's `ClockSync`; no pts is NaN. -/
inductive ClockCall
  | calVideoDelay (now pts duration : ℚ)
  | calAudioDelay (now pts duration : ℚ)
  | updateVideoPts (now pts : ℚ)
  | updateAudioPts (now pts : ℚ)
  deriving DecidableEq

namespace ClockCall

def apply (s : ClockSync) : ClockCall → ClockSync
  | .calVideoDelay now pts duration => (s.calVideoDelay now (some pts) (some duration)).1
  | .calAudioDelay now pts duration => (s.calAudioDelay now (some pts) (some duration)).1
  | .updateVideoPts now pts => s.updateVideoPts now (some pts)
  | .updateAudioPts now pts => s.updateAudioPts now (some pts)

/-- The pts a call shows to the video clock. -/
def videoPts : ClockCall → Option ℚ
  | .calVideoDelay _ pts _ | .updateVideoPts _ pts => some pts
  | .calAudioDelay _ _ _ | .updateAudioPts _ _ => none

/-- The pts a call shows to the audio clock. -/
def audioPts : ClockCall → Option ℚ
  | .calAudioDelay _ pts _ | .updateAudioPts _ pts => some pts
  | .calVideoDelay _ _ _ | .updateVideoPts _ _ => none

end ClockCall

/-- The clocks after a history of calls on a fresh `ClockSync`. -/
def clocksAfter (h : List ClockCall) : ClockSync := h.foldl ClockCall.apply { type := .audio }

def firstVideoPts (h : List ClockCall) : Option ℚ := h.findSome? ClockCall.videoPts

def firstAudioPts (h : List ClockCall) : Option ℚ := h.findSome? ClockCall.audioPts

/-! ## What a call leaves alone -/

section
variable (s : ClockSync) (c : ClockCall)

theorem apply_type : (c.apply s).type = s.type := by
  cases c <;> simp [ClockCall.apply]

/-- A start that is set stays; one that is not is the first pts shown. -/
theorem apply_video_startPts :
    (c.apply s).video.startPts = s.video.startPts.or c.videoPts := by
  cases c with
  | calVideoDelay now pts duration => exact s.calVideoDelay_startPts now _ pts
  | calAudioDelay now pts duration => simp [ClockCall.apply, ClockCall.videoPts]
  | updateVideoPts now pts => rfl
  | updateAudioPts now pts => simp [ClockCall.apply, ClockCall.videoPts]

theorem apply_audio_startPts :
    (c.apply s).audio.startPts = s.audio.startPts.or c.audioPts := by
  cases c with
  | calVideoDelay now pts duration => simp [ClockCall.apply, ClockCall.audioPts]
  | calAudioDelay now pts duration => exact s.calAudioDelay_startPts now _ _
  | updateVideoPts now pts => simp [ClockCall.apply, ClockCall.audioPts]
  | updateAudioPts now pts => rfl

end

/-! ## The clocks after a history -/

theorem clocksAfter_snoc (h : List ClockCall) (c : ClockCall) :
    clocksAfter (h ++ [c]) = c.apply (clocksAfter h) := by
  unfold clocksAfter
  rw [List.foldl_append]
  rfl

theorem clocksAfter_type (h : List ClockCall) : (clocksAfter h).type = .audio := by
  induction h using List.reverseRecOn with
  | nil => rfl
  | append_singleton h c ih => rw [clocksAfter_snoc, apply_type, ih]

theorem clocksAfter_video_startPts (h : List ClockCall) :
    (clocksAfter h).video.startPts = firstVideoPts h := by
  induction h using List.reverseRecOn with
  | nil => rfl
  | append_singleton h c ih =>
    rw [clocksAfter_snoc, apply_video_startPts, ih]
    unfold firstVideoPts
    rw [List.findSome?_append, List.findSome?_singleton]

theorem clocksAfter_audio_startPts (h : List ClockCall) :
    (clocksAfter h).audio.startPts = firstAudioPts h := by
  induction h using List.reverseRecOn with
  | nil => rfl
  | append_singleton h c ih =>
    rw [clocksAfter_snoc, apply_audio_startPts, ih]
    unfold firstAudioPts
    rw [List.findSome?_append, List.findSome?_singleton]

/-! ## The delay once both streams have started -/

/-- With both starts set, the alignment branch leaves the delay as it was: every
stream is measured from its own start. -/
theorem ClockSync.calVideoDelay_started {s : ClockSync} {v0 a0 ac : ℚ} (now pts duration : ℚ)
    (ht : s.type = .audio) (hv : s.video.startPts = some v0)
    (ha : s.audio.startPts = some a0) (hc : s.audio.currentPts = some ac) :
    (s.calVideoDelay now (some pts) (some duration)).2 =
      forgive (some (pts - ac + (a0 - v0))) (some duration) := by
  have hstart : (s.startVideo now (some pts)).video.startPts = some v0 := by
    rw [startVideo_startPts, hv]
    rfl
  have hgo : (s.startVideo now (some pts)).awaitsAudio = false := by
    simp [awaitsAudio, ha]
  have hsub : pts - v0 - (ac - a0) = pts - ac + (a0 - v0) := by ring
  unfold calVideoDelay
  dsimp only
  rw [hgo]
  show forgive ((s.startVideo now (some pts)).alignVideo.videoDiff (some pts)) (some duration) = _
  unfold videoDiff getMasterClock Clock.getTime
  rw [alignVideo_startPts _ hstart]
  simp [ht, ha, hc, hsub]

/-- A clock that has started shows a current pts. -/
theorem apply_audio_currentPts (s : ClockSync) (c : ClockCall)
    (hs : s.audio.startPts.isSome → s.audio.currentPts.isSome)
    (ha : (c.apply s).audio.startPts.isSome) : (c.apply s).audio.currentPts.isSome := by
  cases c with
  | calVideoDelay now pts duration =>
    simp only [ClockCall.apply, ClockSync.calVideoDelay_audio] at ha ⊢
    exact hs ha
  | calAudioDelay now pts duration =>
    show ((s.startAudio now (some pts)).audio.currentPts).isSome
    unfold ClockSync.startAudio
    dsimp only
    split
    · rfl
    · next h => exact hs (Option.isSome_iff_ne_none.mpr h)
  | updateVideoPts now pts => exact hs ha
  | updateAudioPts now pts => rfl

theorem clocksAfter_audio_currentPts (h : List ClockCall)
    (ha : (clocksAfter h).audio.startPts.isSome) :
    (clocksAfter h).audio.currentPts.isSome := by
  induction h using List.reverseRecOn with
  | nil => cases ha
  | append_singleton h c ih =>
    rw [clocksAfter_snoc] at ha ⊢
    exact apply_audio_currentPts _ c ih ha

/-! ## Where an offset of the origins does not show -/

/-- `x` is 0 or slightly late. -/
def DueNow (x duration : ℚ) : Prop := -2 * duration ≤ x ∧ x ≤ 0

instance (x duration : ℚ) : Decidable (DueNow x duration) := inferInstanceAs (Decidable (_ ∧ _))

theorem forgive_dueNow {x d : ℚ} (hx : DueNow x d) :
    ClockSync.forgive (some x) (some d) = some 0 := by
  unfold ClockSync.forgive
  split
  · rfl
  · next hlate =>
    simp only [Pts.slightlyLate_some, decide_eq_true_eq, not_and, not_lt] at hlate
    rw [le_antisymm hx.2 (hlate hx.1)]

theorem forgive_not_dueNow {x d : ℚ} (hx : ¬DueNow x d) :
    ClockSync.forgive (some x) (some d) = some x := by
  unfold ClockSync.forgive
  split
  · next hlate =>
    simp only [Pts.slightlyLate_some, decide_eq_true_eq] at hlate
    exact absurd ⟨hlate.1, le_of_lt hlate.2⟩ hx
  · rfl

theorem zero_dueNow {d : ℚ} (hd : 0 ≤ d) : DueNow 0 d := ⟨by linarith, le_rfl⟩

/-- Two diffs give one delay only if they are equal or both due now. -/
theorem forgive_eq_iff {x y d : ℚ} (hd : 0 ≤ d) :
    ClockSync.forgive (some x) (some d) = ClockSync.forgive (some y) (some d) ↔
      x = y ∨ (DueNow x d ∧ DueNow y d) := by
  by_cases hx : DueNow x d <;> by_cases hy : DueNow y d
  · simp [forgive_dueNow hx, forgive_dueNow hy, hx, hy]
  · rw [forgive_dueNow hx, forgive_not_dueNow hy]
    constructor
    · intro h
      obtain rfl : 0 = y := Option.some.inj h
      exact absurd (zero_dueNow hd) hy
    · rintro (rfl | ⟨-, h⟩)
      · exact absurd hx hy
      · exact absurd h hy
  · rw [forgive_not_dueNow hx, forgive_dueNow hy]
    constructor
    · intro h
      obtain rfl : x = 0 := Option.some.inj h
      exact absurd (zero_dueNow hd) hx
    · rintro (rfl | ⟨h, -⟩)
      · exact absurd hy hx
      · exact absurd h hx
  · simp [forgive_not_dueNow hx, forgive_not_dueNow hy, hx]

/-! ## The sync law -/

/-- The law: both streams are measured from one origin. -/
def SyncLaw (s : ClockSync) (now pts duration : ℚ) : Prop :=
  (s.calVideoDelay now (some pts) (some duration)).2 =
    ClockSync.forgive (Pts.sub (some pts) s.audio.currentPts) (some duration)

instance (s : ClockSync) (now pts duration : ℚ) : Decidable (SyncLaw s now pts duration) :=
  inferInstanceAs (Decidable (_ = _))

/-- The law holds of a call exactly if the streams have one first pts, or the frame
is due now by both origins. -/
theorem calVideoDelay_law_iff (h : List ClockCall) (v0 a0 now pts duration : ℚ)
    (hv : (clocksAfter h).video.startPts = some v0)
    (ha : (clocksAfter h).audio.startPts = some a0) (hd : 0 ≤ duration) :
    ∃ ac, (clocksAfter h).audio.currentPts = some ac ∧
      (SyncLaw (clocksAfter h) now pts duration ↔
        firstVideoPts h = firstAudioPts h ∨
          (DueNow (pts - ac) duration ∧ DueNow (pts - ac + (a0 - v0)) duration)) := by
  have hsome : (clocksAfter h).audio.startPts.isSome := by simp [ha]
  obtain ⟨ac, hc⟩ := Option.isSome_iff_exists.mp (clocksAfter_audio_currentPts h hsome)
  refine ⟨ac, hc, ?_⟩
  unfold SyncLaw
  rw [ClockSync.calVideoDelay_started now pts duration (clocksAfter_type h) hv ha hc, hc,
    Pts.sub_some, forgive_eq_iff hd, ← clocksAfter_video_startPts, ← clocksAfter_audio_startPts,
    hv, ha, Option.some.injEq]
  constructor
  · rintro (h1 | ⟨h1, h2⟩)
    · left
      linarith
    · exact .inr ⟨h2, h1⟩
  · rintro (h1 | ⟨h1, h2⟩)
    · left
      linarith
    · exact .inr ⟨h2, h1⟩

/-- Video starts at 5 s, audio at 3 s; the frame with the timestamp audio is at is
2 s late. -/
theorem calVideoDelay_law_fails :
    let h : List ClockCall :=
      [.calVideoDelay 0 5 (1 / 25), .calAudioDelay 0 3 0, .updateAudioPts 0 7]
    (clocksAfter h).video.startPts = some 5 ∧ (clocksAfter h).audio.startPts = some 3 ∧
      ((clocksAfter h).calVideoDelay 0 (some 7) (some (1 / 25))).2 = some (-2) ∧
      ¬SyncLaw (clocksAfter h) 0 7 (1 / 25) := by
  decide +kernel

/-- Both streams start at 3 s. -/
theorem calVideoDelay_law_same_start :
    SyncLaw (clocksAfter [.calVideoDelay 0 3 (1 / 25), .calAudioDelay 0 3 0]) 0 7 (1 / 25) := by
  obtain ⟨ac, -, hiff⟩ := calVideoDelay_law_iff
    [.calVideoDelay 0 3 (1 / 25), .calAudioDelay 0 3 0] 3 3 0 7 (1 / 25)
    (by decide) (by decide) (by norm_num)
  exact hiff.mpr (.inl (by decide))

end VideoPlayerCore
