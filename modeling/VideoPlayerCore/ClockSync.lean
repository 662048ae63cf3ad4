import Mathlib.Data.Rat.Defs
import Mathlib.Algebra.Order.Ring.Rat

/-!
# ClockSync: the clocks of one playback session

A `double` is an exact rational or NaN: `Pts = Option ℚ`, with `none` for NaN, so
arithmetic with NaN is NaN and every order test with NaN is false.  The wall time
that `getCurrentTime()` returns is an argument (`now`) of each call.
-/

namespace VideoPlayerCore

/-- A `double` over exact rationals; `none` is NaN. -/
abbrev Pts := Option ℚ

namespace Pts

def sub : Pts → Pts → Pts
  | some x, some y => some (x - y)
  | _, _ => none

/-- `d > 0` -/
def pos : Pts → Bool
  | some x => decide (0 < x)
  | none => false

/-- `d < 0` -/
def neg : Pts → Bool
  | some x => decide (x < 0)
  | none => false

/-- `diff >= -2 * duration && diff < 0` -/
def slightlyLate (diff duration : Pts) : Bool :=
  match diff, duration with
  | some x, some d => decide (-2 * d ≤ x ∧ x < 0)
  | _, _ => false

@[simp] theorem sub_some (x y : ℚ) : sub (some x) (some y) = some (x - y) := rfl

@[simp] theorem slightlyLate_some (x d : ℚ) :
    slightlyLate (some x) (some d) = decide (-2 * d ≤ x ∧ x < 0) := rfl

end Pts

inductive ClockSyncType
  | audio
  | video
  | absolute
  deriving DecidableEq, Repr

structure Clock where
  isDisabled : Bool := false
  startPts : Pts := none
  currentPts : Pts := none
  deriving DecidableEq

def Clock.getTime (c : Clock) : Pts := c.currentPts.sub c.startPts

/-- The first `pts` is kept as `startPts`. -/
def Clock.updatePts (c : Clock) (pts : Pts) : Clock :=
  { c with startPts := c.startPts.or pts, currentPts := pts }

structure ClockSync where
  type : ClockSyncType
  audio : Clock := {}
  video : Clock := {}
  absolute : Clock := {}
  deriving DecidableEq

namespace ClockSync

/-- `type` is not reset. -/
def reset (s : ClockSync) : ClockSync :=
  { s with audio := {}, video := {}, absolute := {} }

/-- The three assignments of `reset`, for the sessions that others watch meanwhile. -/
def resetAudio (s : ClockSync) : ClockSync := { s with audio := {} }

def resetVideo (s : ClockSync) : ClockSync := { s with video := {} }

def resetAbsolute (s : ClockSync) : ClockSync := { s with absolute := {} }

theorem reset_eq (s : ClockSync) : s.reset = s.resetAudio.resetVideo.resetAbsolute := rfl

def getMasterClock (s : ClockSync) : Clock :=
  match s.type with
  | .audio => s.audio
  | .video => s.video
  | .absolute => s.absolute

def tick (s : ClockSync) (now : ℚ) : ClockSync :=
  { s with absolute := s.absolute.updatePts (some now) }

/-- `calVideoDelay` up to its waiting branch. -/
def startVideo (s : ClockSync) (now : ℚ) (pts : Pts) : ClockSync :=
  let s := s.tick now
  if s.video.startPts = none then { s with video := s.video.updatePts pts } else s

/-- The waiting branch of `calVideoDelay`: audio is enabled and has not started. -/
def awaitsAudio (s : ClockSync) : Bool := !s.audio.isDisabled && s.audio.startPts.isNone

/-- The branch of the comment "audio and video take the same start". -/
def alignVideo (s : ClockSync) : ClockSync :=
  if s.audio.isDisabled = false ∧ s.audio.startPts ≠ s.video.startPts then
    { s with video := s.video.updatePts s.audio.startPts }
  else s

/-- `targetTime - currentTime` -/
def videoDiff (s : ClockSync) (pts : Pts) : Pts :=
  (pts.sub s.video.startPts).sub s.getMasterClock.getTime

/-- A slightly late frame is due now. -/
def forgive (diff duration : Pts) : Pts :=
  if Pts.slightlyLate diff duration then some 0 else diff

/-- The clocks after the call, and the delay it returns. -/
def calVideoDelay (s : ClockSync) (now : ℚ) (pts duration : Pts) : ClockSync × Pts :=
  let s := s.startVideo now pts
  if s.awaitsAudio then (s, some 0.01)
  else
    let s := s.alignVideo
    (s, forgive (s.videoDiff pts) duration)

/-- `calAudioDelay` up to its waiting branch. -/
def startAudio (s : ClockSync) (now : ℚ) (pts : Pts) : ClockSync :=
  let s := s.tick now
  if s.audio.startPts = none then { s with audio := s.audio.updatePts pts } else s

/-- The waiting branch of `calAudioDelay`: video is enabled and has not started. -/
def awaitsVideo (s : ClockSync) : Bool := !s.video.isDisabled && s.video.startPts.isNone

def calAudioDelay (s : ClockSync) (now : ℚ) (pts _duration : Pts) : ClockSync × Pts :=
  let s := s.startAudio now pts
  (s, if s.awaitsVideo then some 0.01 else some 0)

def updateVideoPts (s : ClockSync) (now : ℚ) (pts : Pts) : ClockSync :=
  let s := s.tick now
  { s with video := s.video.updatePts pts }

def updateAudioPts (s : ClockSync) (now : ℚ) (pts : Pts) : ClockSync :=
  let s := s.tick now
  { s with audio := s.audio.updatePts pts }

end ClockSync

@[simp] theorem Clock.updatePts_isDisabled (c : Clock) (pts : Pts) :
    (c.updatePts pts).isDisabled = c.isDisabled := rfl

@[simp] theorem Clock.updatePts_startPts (c : Clock) (pts : Pts) :
    (c.updatePts pts).startPts = c.startPts.or pts := rfl

@[simp] theorem Clock.updatePts_currentPts (c : Clock) (pts : Pts) :
    (c.updatePts pts).currentPts = pts := rfl

namespace ClockSync

@[simp] theorem tick_audio (s : ClockSync) (now : ℚ) : (s.tick now).audio = s.audio := rfl

@[simp] theorem tick_video (s : ClockSync) (now : ℚ) : (s.tick now).video = s.video := rfl

@[simp] theorem tick_type (s : ClockSync) (now : ℚ) : (s.tick now).type = s.type := rfl

/-! ## What each call does to the clocks -/

section
variable (s : ClockSync) (now : ℚ) (pts duration : Pts)

@[simp] theorem startVideo_audio : (s.startVideo now pts).audio = s.audio := by
  unfold startVideo
  dsimp only
  split <;> rfl

@[simp] theorem startVideo_type : (s.startVideo now pts).type = s.type := by
  unfold startVideo
  dsimp only
  split <;> rfl

@[simp] theorem startVideo_startPts :
    (s.startVideo now pts).video.startPts = s.video.startPts.or pts := by
  unfold startVideo
  dsimp only
  split
  · rfl
  · next h =>
    obtain ⟨v, hv⟩ := Option.ne_none_iff_exists'.mp h
    simp only [tick_video] at hv ⊢
    rw [hv]
    rfl

@[simp] theorem startVideo_isDisabled :
    (s.startVideo now pts).video.isDisabled = s.video.isDisabled := by
  unfold startVideo
  dsimp only
  split <;> rfl

@[simp] theorem startVideo_absolute :
    (s.startVideo now pts).absolute = s.absolute.updatePts (some now) := by
  unfold startVideo
  dsimp only
  split <;> rfl

@[simp] theorem alignVideo_absolute : s.alignVideo.absolute = s.absolute := by
  unfold alignVideo
  split <;> rfl

@[simp] theorem alignVideo_audio : s.alignVideo.audio = s.audio := by
  unfold alignVideo
  split <;> rfl

@[simp] theorem alignVideo_type : s.alignVideo.type = s.type := by
  unfold alignVideo
  split <;> rfl

@[simp] theorem alignVideo_isDisabled : s.alignVideo.video.isDisabled = s.video.isDisabled := by
  unfold alignVideo
  split <;> rfl

/-- The alignment never moves a start that is set. -/
theorem alignVideo_startPts {v : ℚ} (h : s.video.startPts = some v) :
    s.alignVideo.video.startPts = some v := by
  unfold alignVideo
  split
  · simp [h]
  · exact h

@[simp] theorem calVideoDelay_audio : (s.calVideoDelay now pts duration).1.audio = s.audio := by
  unfold calVideoDelay
  dsimp only
  split <;> simp

@[simp] theorem calVideoDelay_type : (s.calVideoDelay now pts duration).1.type = s.type := by
  unfold calVideoDelay
  dsimp only
  split <;> simp

@[simp] theorem calVideoDelay_isDisabled :
    (s.calVideoDelay now pts duration).1.video.isDisabled = s.video.isDisabled := by
  unfold calVideoDelay
  dsimp only
  split <;> simp

/-- Each call begins with `absolute.updatePts(getCurrentTime())`. -/
@[simp] theorem calVideoDelay_absolute : (s.calVideoDelay now pts duration).1.absolute.startPts =
    s.absolute.startPts.or (some now) := by
  unfold calVideoDelay
  dsimp only
  split <;> simp

theorem calVideoDelay_startPts (x : ℚ) :
    (s.calVideoDelay now (some x) duration).1.video.startPts = s.video.startPts.or (some x) := by
  unfold calVideoDelay
  dsimp only
  split
  · simp
  · obtain ⟨v, hv⟩ : ∃ v, s.video.startPts.or (some x) = some v := by
      cases s.video.startPts <;> exact ⟨_, rfl⟩
    rw [hv]
    exact alignVideo_startPts _ (by simpa using hv)

@[simp] theorem startAudio_video : (s.startAudio now pts).video = s.video := by
  unfold startAudio
  dsimp only
  split <;> rfl

@[simp] theorem startAudio_type : (s.startAudio now pts).type = s.type := by
  unfold startAudio
  dsimp only
  split <;> rfl

@[simp] theorem startAudio_isDisabled :
    (s.startAudio now pts).audio.isDisabled = s.audio.isDisabled := by
  unfold startAudio
  dsimp only
  split <;> rfl

@[simp] theorem startAudio_startPts :
    (s.startAudio now pts).audio.startPts = s.audio.startPts.or pts := by
  unfold startAudio
  dsimp only
  split
  · rfl
  · next h =>
    obtain ⟨v, hv⟩ := Option.ne_none_iff_exists'.mp h
    simp only [tick_audio] at hv ⊢
    rw [hv]
    rfl

@[simp] theorem calAudioDelay_video : (s.calAudioDelay now pts duration).1.video = s.video :=
  startAudio_video s now pts

@[simp] theorem calAudioDelay_type : (s.calAudioDelay now pts duration).1.type = s.type :=
  startAudio_type s now pts

@[simp] theorem calAudioDelay_isDisabled :
    (s.calAudioDelay now pts duration).1.audio.isDisabled = s.audio.isDisabled :=
  startAudio_isDisabled s now pts

@[simp] theorem calAudioDelay_startPts :
    (s.calAudioDelay now pts duration).1.audio.startPts = s.audio.startPts.or pts :=
  startAudio_startPts s now pts

@[simp] theorem calAudioDelay_absolute : (s.calAudioDelay now pts duration).1.absolute.startPts =
    s.absolute.startPts.or (some now) := by
  unfold calAudioDelay startAudio
  dsimp only
  split <;> rfl

@[simp] theorem updateVideoPts_audio : (s.updateVideoPts now pts).audio = s.audio := rfl

@[simp] theorem updateVideoPts_video : (s.updateVideoPts now pts).video = s.video.updatePts pts := rfl

@[simp] theorem updateVideoPts_type : (s.updateVideoPts now pts).type = s.type := rfl

@[simp] theorem updateAudioPts_audio : (s.updateAudioPts now pts).audio = s.audio.updatePts pts := rfl

@[simp] theorem updateAudioPts_video : (s.updateAudioPts now pts).video = s.video := rfl

@[simp] theorem updateAudioPts_type : (s.updateAudioPts now pts).type = s.type := rfl

end

end ClockSync

end VideoPlayerCore
