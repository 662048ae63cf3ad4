import VideoPlayerCore.ClockHandshake
import VideoPlayerCore.CloseSteps
import VideoPlayerCore.CursorTimes
import VideoPlayerCore.PlaybackSteps

/-!
# When a frame is shown

What `_displayThread` does with a frame follows from the clocks behind its last call of
`calVideoDelay`: the frame waits until the master clock has come to it, and is shown unless the
clock is more than two durations past it.  Only the last frame can be shown before its time, if
`close` takes the thread out of the wait.

    the lag of a frame is not negative; shown ↔ it is 0 or ≤ 2 * duration  (frames_shown_in_time)
    between two frames that are shown audio and video go on by the same time,
      but for two durations                                                (audio_video_in_step)
-/

namespace VideoPlayerCore

open Machine

variable {P : Type} {V : Codec P VideoFrame}

/-- A frame that has left the wait loop. -/
structure LeftFrame where
  frame : VideoFrame
  /-- behind the last call of `calVideoDelay` -/
  clocks : ClockSync
  delay : Pts
  /-- the restarts before that call -/
  restarts : Nat
  /-- `_isAlive` -/
  alive : Bool
  deriving DecidableEq

/-- `delay < 0` is false -/
def LeftFrame.shown (o : LeftFrame) : Bool := !o.delay.neg

/-- The time that the master clock shows, less the time the frame is for. -/
def LeftFrame.lag (timeBase : ℚ) (o : LeftFrame) : Pts :=
  o.clocks.getMasterClock.getTime.sub
    (Pts.sub (some (o.frame.time timeBase)) o.clocks.video.startPts)

structure TimedSide (V : Codec P VideoFrame) where
  side : VideoSide V
  restarts : Nat := 0
  /-- the clocks behind the last call of `calVideoDelay`, and the restarts before it -/
  called : ClockSync × Nat
  left : List LeftFrame := []

namespace TimedSide

variable (timeBase : ℚ)

def start (sync : ClockSync) : TimedSide V := { side := VideoSide.start sync, called := (sync, 0) }

/-- A step of the video side; calls, frames that leave the loop and restarts are written down. -/
def step (s : TimedSide V) (a : VideoAct P) : Option (TimedSide V) :=
  (s.side.step timeBase a).map fun side =>
    match a, s.side.display with
    | .display _, .calling _ => { s with side := side, called := (side.sync, s.restarts) }
    | .display _, .waiting f delay =>
      if delay.pos && s.side.videoAlive then { s with side := side }
      else
        let o := { frame := f, clocks := s.called.1, delay := delay, restarts := s.called.2
                   alive := s.side.videoAlive }
        { s with side := side, left := s.left ++ [o] }
    | .pass .restart, _ => { s with side := side, restarts := s.restarts + 1 }
    | _, _ => { s with side := side }

end TimedSide

/-! ## The clocks -/

/-- A clock that has started shows a pts. -/
def Clock.Complete (c : Clock) : Prop := c.startPts.isSome = c.currentPts.isSome

theorem Clock.Complete.updatePts (c : Clock) (pts : ℚ) : (c.updatePts (some pts)).Complete := by
  show (c.startPts.or (some pts)).isSome = true
  cases c.startPts with
  | none => rfl
  | some x => rfl

theorem Clock.Complete.getTime {c : Clock} {x : ℚ} (h : c.Complete) (hx : c.startPts = some x) :
    ∃ y, c.currentPts = some y ∧ c.getTime = some (y - x) := by
  have hsome : c.currentPts.isSome = true := by
    rw [← h, hx]
    rfl
  obtain ⟨y, hy⟩ := Option.isSome_iff_exists.mp hsome
  refine ⟨y, hy, ?_⟩
  unfold Clock.getTime
  rw [hx, hy]
  rfl

/-- A clock that has started shows a time. -/
theorem Clock.Complete.time_isSome {c : Clock} (h : c.Complete) (hs : c.startPts.isSome = true) :
    ∃ x, c.getTime = some x := by
  obtain ⟨x, hx⟩ := Option.isSome_iff_exists.mp hs
  obtain ⟨y, -, htime⟩ := h.getTime hx
  exact ⟨y - x, htime⟩

namespace ClockSync

variable {s t u : ClockSync} {now pts duration : ℚ}

/-- What `_readThread` has set before its loop, and every call keeps. -/
structure Playing (s : ClockSync) : Prop where
  enabled : s.type = .audio → s.audio.isDisabled = false
  audio : s.audio.Complete
  video : s.video.Complete

/-- Without an audio stream the video clock is the master. -/
theorem playing_fresh (hasAudio hasVideo : Bool) :
    (fresh (if hasAudio then .audio else .video) (!hasAudio) (!hasVideo)).Playing := by
  refine ⟨fun htype => ?_, rfl, rfl⟩
  cases hasAudio with
  | true => rfl
  | false => cases htype

/-- A clock that has started in `s` has the same start in `t`. -/
structure Settles (s t : ClockSync) : Prop where
  audio : ∀ x, s.audio.startPts = some x → t.audio.startPts = some x
  video : ∀ x, s.video.startPts = some x → t.video.startPts = some x

theorem Settles.refl (s : ClockSync) : Settles s s := ⟨fun _ h => h, fun _ h => h⟩

theorem Settles.trans (h : Settles s t) (h' : Settles t u) : Settles s u :=
  ⟨fun x hx => h'.audio x (h.audio x hx), fun x hx => h'.video x (h.video x hx)⟩

theorem Settles.of_eq (haudio : t.audio = s.audio) (hvideo : t.video = s.video) : Settles s t := by
  constructor
  · rw [haudio]
    exact fun _ h => h
  · rw [hvideo]
    exact fun _ h => h

theorem updatePts_settles {c : Clock} {pts : Pts} {x : ℚ} (h : c.startPts = some x) :
    (c.updatePts pts).startPts = some x := by
  rw [Clock.updatePts_startPts, h]
  rfl

theorem startVideo_settles (s : ClockSync) (now pts : ℚ) :
    Settles s (s.startVideo now (some pts)) := by
  unfold startVideo
  dsimp only
  split
  · exact ⟨fun _ h => h, fun x h => updatePts_settles h⟩
  · exact .of_eq rfl rfl

theorem startVideo_playing (h : s.Playing) : (s.startVideo now (some pts)).Playing := by
  unfold startVideo
  dsimp only
  split
  · exact ⟨h.enabled, h.audio, .updatePts _ _⟩
  · exact ⟨h.enabled, h.audio, h.video⟩

theorem alignVideo_settles (s : ClockSync) : Settles s s.alignVideo := by
  unfold alignVideo
  split
  · exact ⟨fun _ h => h, fun x h => updatePts_settles h⟩
  · exact .refl s

theorem alignVideo_playing (h : s.Playing) (hawaits : s.awaitsAudio = false) :
    s.alignVideo.Playing := by
  unfold alignVideo
  split
  · next hdiffer =>
    cases hstart : s.audio.startPts with
    | none =>
      unfold awaitsAudio at hawaits
      rw [hdiffer.1, hstart] at hawaits
      cases hawaits
    | some x => exact ⟨h.enabled, h.audio, .updatePts _ _⟩
  · exact h

theorem calVideoDelay_settles (s : ClockSync) (now pts duration : ℚ) :
    Settles s (s.calVideoDelay now (some pts) (some duration)).1 := by
  unfold calVideoDelay
  dsimp only
  split
  · exact startVideo_settles s now pts
  · exact (startVideo_settles s now pts).trans (alignVideo_settles _)

theorem calVideoDelay_playing (h : s.Playing) :
    (s.calVideoDelay now (some pts) (some duration)).1.Playing := by
  unfold calVideoDelay
  dsimp only
  split
  · exact startVideo_playing h
  · next hawaits => exact alignVideo_playing (startVideo_playing h) (Bool.eq_false_iff.mpr hawaits)

theorem updateVideoPts_playing (h : s.Playing) : (s.updateVideoPts now (some pts)).Playing :=
  ⟨h.enabled, h.audio, .updatePts _ _⟩

theorem updateVideoPts_settles (s : ClockSync) (now pts : ℚ) :
    Settles s (s.updateVideoPts now (some pts)) :=
  ⟨fun _ h => h, fun _ h => updatePts_settles h⟩

theorem updateAudioPts_playing (h : s.Playing) : (s.updateAudioPts now (some pts)).Playing :=
  ⟨h.enabled, .updatePts _ _, h.video⟩

theorem updateAudioPts_settles (s : ClockSync) (now pts : ℚ) :
    Settles s (s.updateAudioPts now (some pts)) :=
  ⟨fun _ h => updatePts_settles h, fun _ h => h⟩

theorem calAudioDelay_playing (h : s.Playing) :
    (s.calAudioDelay now (some pts) (some duration)).1.Playing := by
  unfold calAudioDelay startAudio
  dsimp only
  split
  · exact ⟨h.enabled, .updatePts _ _, h.video⟩
  · exact ⟨h.enabled, h.audio, h.video⟩

theorem calAudioDelay_settles (s : ClockSync) (now pts duration : ℚ) :
    Settles s (s.calAudioDelay now (some pts) (some duration)).1 := by
  unfold calAudioDelay startAudio
  dsimp only
  split
  · exact ⟨fun _ h => updatePts_settles h, fun _ h => h⟩
  · exact .of_eq rfl rfl

theorem startVideo_isSome (s : ClockSync) (now pts : ℚ) :
    (s.startVideo now (some pts)).video.startPts.isSome = true := by
  rw [startVideo_startPts]
  cases s.video.startPts with
  | none => rfl
  | some x => rfl

/-- What `calVideoDelay` returns for `f`, told from the clocks behind the call. -/
def Decides (timeBase : ℚ) (s : ClockSync) (f : VideoFrame) (delay : Pts) : Prop :=
  delay = some 0.01 ∨ ∃ diff, s.videoDiff (some (f.time timeBase)) = some diff ∧
    delay = forgive (some diff) (some (f.length timeBase))

theorem delayOf_decides (h : s.Playing) (timeBase now : ℚ) (f : VideoFrame) :
    Decides timeBase (s.delayOf timeBase now f).1 f (s.delayOf timeBase now f).2 := by
  unfold delayOf calVideoDelay
  dsimp only
  split
  · exact .inl rfl
  · next hwaits =>
    -- neither the origin of the frames nor the master clock is NaN here
    have hawaits := Bool.eq_false_iff.mpr hwaits
    have hplay := alignVideo_playing (startVideo_playing h) hawaits
    have hvideo := startVideo_isSome s now (f.time timeBase)
    have habsolute := startVideo_absolute s now (some (f.time timeBase))
    generalize s.startVideo now (some (f.time timeBase)) = r at hawaits hplay hvideo habsolute
    obtain ⟨v, hv⟩ := Option.isSome_iff_exists.mp hvideo
    have hv' := (alignVideo_settles r).video v hv
    have htime : ∃ x, r.alignVideo.getMasterClock.getTime = some x := by
      unfold getMasterClock
      cases htype : r.alignVideo.type with
      | audio =>
        refine hplay.audio.time_isSome ?_
        have henabled := hplay.enabled htype
        unfold awaitsAudio at hawaits
        rw [alignVideo_audio] at henabled ⊢
        rw [henabled] at hawaits
        cases hstart : r.audio.startPts with
        | none =>
          rw [hstart] at hawaits
          cases hawaits
        | some x => rfl
      | video => exact hplay.video.time_isSome (by rw [hv']; rfl)
      | absolute =>
        dsimp only
        rw [alignVideo_absolute, habsolute]
        refine (Clock.Complete.updatePts _ _).time_isSome ?_
        rw [Clock.updatePts_startPts]
        cases s.absolute.startPts with
        | none => rfl
        | some x => rfl
    obtain ⟨x, hx⟩ := htime
    refine .inr ⟨f.time timeBase - v - x, ?_, ?_⟩
    · unfold videoDiff
      rw [hv', hx]
      rfl
    · unfold videoDiff
      rw [hv', hx]
      rfl

end ClockSync

/-! ## The steps -/

/-- Behind the wait loop, on the way out if `_isAlive` is 0. -/
def VideoDisplay.out : VideoDisplay → Bool
  | .leaving _ _ | .top | .exited => true
  | _ => false

namespace VideoSide

open ClockSync

variable {timeBase : ℚ} {s t : VideoSide V} {a : VideoAct P}

/-- A step that neither calls `calVideoDelay` nor leaves the wait loop nor restarts. -/
structure Moves (s t : VideoSide V) : Prop where
  playing : s.sync.Playing → t.sync.Playing
  settles : Settles s.sync t.sync
  waits : ∀ f d, t.display = .waiting f d → s.display = .waiting f d
  out : s.videoAlive = false → s.display.out = true → t.videoAlive = false ∧ t.display.out = true

theorem Moves.of_eq (hsync : t.sync = s.sync) (hdisplay : t.display = s.display)
    (halive : s.videoAlive = false → t.videoAlive = false) : Moves s t := by
  constructor
  · rw [hsync]
    exact fun h => h
  · rw [hsync]
    exact .refl _
  · rw [hdisplay]
    exact fun _ _ h => h
  · rw [hdisplay]
    exact fun hdead hout => ⟨halive hdead, hout⟩

/-- Only the clocks change. -/
theorem Moves.of_sync {sync : ClockSync} (hplay : s.sync.Playing → sync.Playing)
    (hsettles : Settles s.sync sync) : Moves s { s with sync := sync } :=
  ⟨hplay, hsettles, fun _ _ h => h, fun hdead hout => ⟨hdead, hout⟩⟩

theorem readerStep_moves (h : s.readerStep = some t) : Moves s t := by
  unfold readerStep at h
  cases hr : s.reader with
  | reading | closed =>
    rw [hr] at h
    cases h
  | top | closing =>
    rw [hr] at h
    obtain rfl := Option.some.inj h
    exact .of_eq rfl rfl (fun hdead => hdead)
  | stopping =>
    rw [hr] at h
    obtain rfl := Option.some.inj h
    exact .of_eq rfl rfl (fun _ => rfl)
  | writing pkt =>
    rw [hr] at h
    obtain ⟨pipe, -, rfl⟩ := Option.map_eq_some_iff.mp h
    exact .of_eq rfl rfl (fun hdead => hdead)
  | joiningDecoder | joiningDisplay =>
    rw [hr] at h
    dsimp only at h
    split at h
    · obtain rfl := Option.some.inj h
      exact .of_eq rfl rfl (fun hdead => hdead)
    · cases h

/-- Where the thread stands outside the wait loop. -/
theorem displayStep_moves {now : ℚ} (h : s.displayStep timeBase now = some t)
    (hcalling : ∀ f, s.display ≠ .calling f) (hwaiting : ∀ f d, s.display ≠ .waiting f d) :
    Moves s t := by
  unfold displayStep at h
  cases hd : s.display with
  | calling f => exact absurd hd (hcalling f)
  | waiting f d => exact absurd hd (hwaiting f d)
  | exited =>
    rw [hd] at h
    cases h
  | top =>
    rw [hd] at h
    obtain rfl := Option.some.inj h
    refine ⟨fun h => h, .refl _, fun f d hw => ?_, fun hdead _ => ⟨hdead, ?_⟩⟩
    · dsimp only at hw
      split at hw <;> cases hw
    · dsimp only
      rw [hdead]
      rfl
  | ending =>
    rw [hd] at h
    obtain rfl := Option.some.inj h
    refine ⟨fun h => h, .refl _, fun f d hw => ?_, fun _ hout => ?_⟩
    · cases hw
    · rw [hd] at hout
      cases hout
  | reading =>
    rw [hd] at h
    refine ⟨fun hplay => ?_, ?_, fun f d hw => ?_, fun _ hout => ?_⟩
    all_goals dsimp only at h
    · split at h <;> obtain rfl := Option.some.inj h <;> exact hplay
    · split at h <;> obtain rfl := Option.some.inj h <;> exact .refl _
    · split at h <;> obtain rfl := Option.some.inj h <;> cases hw
    · rw [hd] at hout
      cases hout
  | leaving f d =>
    rw [hd] at h
    obtain rfl := Option.some.inj h
    refine ⟨fun hplay => ?_, ?_, fun g e hw => ?_, fun hdead _ => ⟨hdead, rfl⟩⟩
    · dsimp only [leave]
      split
      · exact hplay
      · exact updateVideoPts_playing hplay
    · dsimp only [leave]
      split
      · exact .refl _
      · exact updateVideoPts_settles _ _ _
    · cases hw

end VideoSide

namespace TimedSide

open ClockSync

variable {timeBase : ℚ} {s t : TimedSide V} {a : VideoAct P}

/-- What a step does that is written down. -/
inductive Steps (timeBase : ℚ) (s : TimedSide V) : TimedSide V → Prop
  | calls (f : VideoFrame) (now : ℚ) (hd : s.side.display = .calling f) :
      Steps timeBase s
        { s with
          side := { s.side with
            display := .waiting f (s.side.sync.delayOf timeBase now f).2
            sync := (s.side.sync.delayOf timeBase now f).1 }
          called := ((s.side.sync.delayOf timeBase now f).1, s.restarts) }
  | leaves (f : VideoFrame) (delay : Pts) (hd : s.side.display = .waiting f delay)
      (hend : delay.pos = true → s.side.videoAlive = false) :
      Steps timeBase s
        { s with
          side := { s.side with display := .leaving f delay }
          left := s.left ++ [{ frame := f, clocks := s.called.1, delay := delay
                               restarts := s.called.2, alive := s.side.videoAlive }] }
  | restart :
      Steps timeBase s
        { s with
          side := { s.side with
            reader := .top, sync := { s.side.sync.reset with type := .audio } }
          restarts := s.restarts + 1 }
  | moves (side : VideoSide V) (h : s.side.Moves side) : Steps timeBase s { s with side := side }

theorem step_cases (h : s.step timeBase a = some t) : Steps timeBase s t := by
  unfold step at h
  obtain ⟨side, hside, rfl⟩ := Option.map_eq_some_iff.mp h
  cases a with
  | stop =>
    obtain rfl := Option.some.inj hside
    exact .moves _ (.of_eq rfl rfl fun hdead => hdead)
  | reader => exact .moves _ (VideoSide.readerStep_moves hside)
  | decoder =>
    obtain ⟨pipe, -, rfl⟩ := Option.map_eq_some_iff.mp hside
    exact .moves _ (.of_eq rfl rfl fun hdead => hdead)
  | calAudioDelay now pts =>
    obtain rfl := Option.some.inj hside
    exact .moves _ (.of_sync calAudioDelay_playing (calAudioDelay_settles _ _ _ _))
  | updateAudioPts now pts =>
    obtain rfl := Option.some.inj hside
    exact .moves _ (.of_sync updateAudioPts_playing (updateAudioPts_settles _ _ _))
  | audioEof =>
    obtain rfl := Option.some.inj hside
    refine .moves _ (.of_sync (fun hplay => ⟨fun htype => ?_, hplay.audio, hplay.video⟩) ?_)
    · cases htype
    · exact .of_eq rfl rfl
  | pass p =>
    simp only [VideoSide.step] at hside
    unfold VideoSide.loopPass at hside
    cases hr : s.side.reader with
    | reading =>
      rw [hr] at hside
      cases p with
      | restart =>
        obtain rfl := Option.some.inj hside
        exact .restart
      | write pkt | otherPacket | error =>
        obtain rfl := Option.some.inj hside
        exact .moves _ (.of_eq rfl rfl fun hdead => hdead)
    | _ =>
      rw [hr] at hside
      cases hside
  | display now =>
    simp only [VideoSide.step] at hside
    cases hd : s.side.display with
    | calling f =>
      unfold VideoSide.displayStep at hside
      rw [hd] at hside
      obtain rfl := Option.some.inj hside
      exact .calls f now hd
    | waiting f delay =>
      unfold VideoSide.displayStep at hside
      rw [hd] at hside
      dsimp only at hside ⊢
      by_cases hagain : (delay.pos && s.side.videoAlive) = true
      · rw [if_pos hagain] at hside ⊢
        obtain rfl := Option.some.inj hside
        refine .moves _ ⟨fun h => h, .refl _, fun g e hw => ?_, fun _ hout => ?_⟩
        · cases hw
        · rw [hd] at hout
          cases hout
      · rw [if_neg hagain] at hside ⊢
        obtain rfl := Option.some.inj hside
        refine .leaves f delay hd fun hpos => ?_
        rw [hpos, Bool.true_and] at hagain
        exact Bool.eq_false_iff.mpr hagain
    | _ =>
      refine .moves _ (VideoSide.displayStep_moves hside ?_ ?_)
      · intro f hf
        rw [hd] at hf
        cases hf
      · intro f d hf
        rw [hd] at hf
        cases hf

/-! ## Runs -/

/-- What holds in every run. -/
structure Timed (timeBase : ℚ) (s : TimedSide V) : Prop where
  playing : s.side.sync.Playing
  waits : ∀ f d, s.side.display = .waiting f d → s.called.1.Decides timeBase f d
  decided : ∀ o ∈ s.left, o.clocks.Decides timeBase o.frame o.delay
  early : ∀ o ∈ s.left, o.delay.pos = true → o.alive = false
  lastOut : (∃ o ∈ s.left, o.alive = false) →
    s.side.videoAlive = false ∧ s.side.display.out = true
  onlyLast : s.left.Pairwise fun o _ => o.alive = true
  called : s.called.2 ≤ s.restarts ∧
    (s.called.2 = s.restarts → Settles s.called.1 s.side.sync)
  before : ∀ o ∈ s.left, o.restarts ≤ s.called.2 ∧
    (o.restarts = s.called.2 → Settles o.clocks s.called.1)
  pairs : s.left.Pairwise fun o o' => o.restarts = o'.restarts → Settles o.clocks o'.clocks

theorem timed_start {sync : ClockSync} (h : sync.Playing) :
    Timed timeBase (start (V := V) sync) where
  playing := h
  waits := by
    intro f d hd
    cases hd
  decided := by simp [start]
  early := by simp [start]
  lastOut := by simp [start]
  onlyLast := List.Pairwise.nil
  called := ⟨Nat.le_refl _, fun _ => .refl _⟩
  before := by simp [start]
  pairs := List.Pairwise.nil

theorem Timed.step (hs : s.Timed timeBase) (h : s.step timeBase a = some t) : t.Timed timeBase := by
  cases step_cases h with
  | calls f now hd =>
    have hout : ¬∃ o ∈ s.left, o.alive = false := fun hlast => by
      have := (hs.lastOut hlast).2
      rw [hd] at this
      cases this
    refine ⟨calVideoDelay_playing hs.playing, ?_, hs.decided, hs.early, fun hlast => ?_,
      hs.onlyLast, ⟨Nat.le_refl _, fun _ => .refl _⟩, fun o ho => ?_, hs.pairs⟩
    · intro g d hw
      obtain ⟨rfl, rfl⟩ := VideoDisplay.waiting.inj hw
      exact delayOf_decides hs.playing timeBase now f
    · exact absurd hlast hout
    · obtain ⟨hle, hsame⟩ := hs.before o ho
      refine ⟨hle.trans hs.called.1, fun heq => ?_⟩
      -- the calls between are of the same pass through the file
      have hnow : o.restarts = s.restarts := heq
      have hcalled : s.called.2 = s.restarts := le_antisymm hs.called.1 (hnow ▸ hle)
      have hcall := calVideoDelay_settles s.side.sync now (f.time timeBase) (f.length timeBase)
      exact ((hsame (hnow.trans hcalled.symm)).trans (hs.called.2 hcalled)).trans hcall
  | leaves f delay hd hend =>
    have hout : ∀ o ∈ s.left, o.alive = true := fun o ho => by
      by_contra hdead
      have := (hs.lastOut ⟨o, ho, Bool.eq_false_iff.mpr hdead⟩).2
      rw [hd] at this
      cases this
    refine ⟨hs.playing, ?_, ?_, ?_, ?_, ?_, hs.called, ?_, ?_⟩
    · intro g d hw
      cases hw
    · exact List.forall_mem_append.mpr ⟨hs.decided, by simpa using hs.waits f delay hd⟩
    · exact List.forall_mem_append.mpr ⟨hs.early, by simpa using hend⟩
    · rintro ⟨o, ho, hdead⟩
      rcases List.mem_append.mp ho with hold | hnew
      · rw [hout o hold] at hdead
        cases hdead
      · obtain rfl := List.mem_singleton.mp hnew
        exact ⟨hdead, rfl⟩
    · exact List.pairwise_append.mpr
        ⟨hs.onlyLast, List.pairwise_singleton _ _, fun o ho _ _ => hout o ho⟩
    · exact List.forall_mem_append.mpr ⟨hs.before, by simpa using Settles.refl _⟩
    · refine List.pairwise_append.mpr ⟨hs.pairs, List.pairwise_singleton _ _, fun o ho o' ho' => ?_⟩
      obtain rfl := List.mem_singleton.mp ho'
      exact (hs.before o ho).2
  | restart =>
    refine ⟨⟨fun _ => rfl, rfl, rfl⟩, hs.waits, hs.decided, hs.early, hs.lastOut, hs.onlyLast,
      ⟨Nat.le_succ_of_le hs.called.1, fun heq => ?_⟩, hs.before, hs.pairs⟩
    exact absurd heq (Nat.ne_of_lt (Nat.lt_succ_of_le hs.called.1))
  | moves side hmoves =>
    refine ⟨hmoves.playing hs.playing, ?_, hs.decided, hs.early, fun hlast => ?_, hs.onlyLast,
      ⟨hs.called.1, fun heq => (hs.called.2 heq).trans hmoves.settles⟩, hs.before, hs.pairs⟩
    · intro f d hw
      exact hs.waits f d (hmoves.waits f d hw)
    · obtain ⟨hdead, hout⟩ := hs.lastOut hlast
      exact hmoves.out hdead hout

theorem timed_of_reach {sync : ClockSync} (hplay : sync.Playing)
    (h : Reach (step timeBase) (start sync) s) : s.Timed timeBase :=
  h.invariant (timed_start hplay) fun _ _ _ hI hs => hI.step hs

end TimedSide

/-- Only the last frame can leave with `_isAlive` 0. -/
theorem alive_of_dropLast {left : List LeftFrame} (h : left.Pairwise fun o _ => o.alive = true) :
    ∀ o ∈ left.dropLast, o.alive = true := by
  induction h with
  | nil => simp
  | @cons o rest hall _ ih =>
    cases rest with
    | nil => simp
    | cons o' rest =>
      rw [List.dropLast_cons_cons]
      exact List.forall_mem_cons.mpr ⟨hall o' List.mem_cons_self, ih⟩

namespace LeftFrame

variable {timeBase : ℚ} {o : LeftFrame}

theorem lag_eq {diff : ℚ} (h : o.clocks.videoDiff (some (o.frame.time timeBase)) = some diff) :
    o.lag timeBase = some (-diff) := by
  unfold ClockSync.videoDiff at h
  unfold lag
  cases htime : o.clocks.getMasterClock.getTime with
  | none =>
    rw [htime] at h
    cases hstart : o.clocks.video.startPts <;> rw [hstart] at h <;> cases h
  | some x =>
    cases hstart : o.clocks.video.startPts with
    | none =>
      rw [htime, hstart] at h
      cases h
    | some v =>
      rw [htime, hstart] at h
      obtain rfl := Option.some.inj h
      show some (x - (_ - v)) = some (-(_ - v - x))
      congr 1
      ring

/-- A frame that was not late by the last call. -/
theorem lag_of_decides (h : o.clocks.Decides timeBase o.frame o.delay)
    (hpos : o.delay.pos = false) : ∃ lag, o.lag timeBase = some lag ∧ 0 ≤ lag ∧
      (o.shown = true ↔ lag = 0 ∨ lag ≤ 2 * o.frame.length timeBase) := by
  rcases h with hwait | ⟨diff, hdiff, hdelay⟩
  · have hten : Pts.pos (some 0.01) = true := decide_eq_true (by norm_num)
    rw [hwait, hten] at hpos
    cases hpos
  · refine ⟨-diff, lag_eq hdiff, ?_⟩
    unfold shown
    by_cases hdue : DueNow diff (o.frame.length timeBase)
    · rw [hdelay, forgive_dueNow hdue]
      refine ⟨neg_nonneg.mpr hdue.2, ⟨fun _ => .inr ?_, fun _ => rfl⟩⟩
      have := hdue.1
      linarith
    · rw [forgive_not_dueNow hdue] at hdelay
      have hle : diff ≤ 0 := by
        rw [hdelay] at hpos
        exact not_lt.mp (of_decide_eq_false hpos)
      have hiff : (!o.delay.neg) = true ↔ diff = 0 := by
        rw [hdelay]
        show (!decide (diff < 0)) = true ↔ diff = 0
        rw [Bool.not_eq_true', decide_eq_false_iff_not]
        exact ⟨fun h => le_antisymm hle (not_lt.mp h), fun h => by rw [h]; exact lt_irrefl 0⟩
      rw [hiff]
      refine ⟨neg_nonneg.mpr hle, ⟨fun h0 => .inl (by rw [h0, neg_zero]), ?_⟩⟩
      rintro (h0 | hwithin)
      · exact neg_eq_zero.mp h0
      · exact absurd ⟨by linarith, hle⟩ hdue

/-- Shown in time, by the audio clock. -/
structure ByAudio (o : LeftFrame) : Prop where
  shown : o.shown = true
  notEarly : o.delay.pos = false
  type : o.clocks.type = .audio

theorem lag_audio {lag : ℚ} (h : o.lag timeBase = some lag) (htype : o.clocks.type = .audio) :
    ∃ a0 a v0, o.clocks.audio.startPts = some a0 ∧ o.clocks.audio.currentPts = some a ∧
      o.clocks.video.startPts = some v0 ∧ lag = a - a0 - (o.frame.time timeBase - v0) := by
  unfold LeftFrame.lag ClockSync.getMasterClock at h
  rw [htype] at h
  cases htime : o.clocks.audio.getTime with
  | none =>
    rw [htime] at h
    cases hstart : o.clocks.video.startPts <;> rw [hstart] at h <;> cases h
  | some x =>
    obtain ⟨a0, a, ha0, ha, rfl⟩ := Clock.getTime_eq_some htime
    cases hstart : o.clocks.video.startPts with
    | none =>
      rw [htime, hstart] at h
      cases h
    | some v0 =>
      rw [htime, hstart] at h
      exact ⟨a0, a, v0, ha0, ha, rfl, (Option.some.inj h).symm⟩

end LeftFrame

theorem frames_shown_in_time {timeBase : ℚ} {sync : ClockSync} {s : TimedSide V}
    (hplay : sync.Playing) (h : Reach (TimedSide.step timeBase) (.start sync) s) :
    (∀ o ∈ s.left.dropLast, o.alive = true) ∧
    ∀ o ∈ s.left, (o.delay.pos = true → o.alive = false) ∧
      (o.delay.pos = false → ∃ lag, o.lag timeBase = some lag ∧ 0 ≤ lag ∧
        (o.shown = true ↔ lag = 0 ∨ lag ≤ 2 * o.frame.length timeBase)) := by
  have hs := TimedSide.timed_of_reach hplay h
  refine ⟨alive_of_dropLast hs.onlyLast, fun o ho => ⟨hs.early o ho, fun hpos => ?_⟩⟩
  exact LeftFrame.lag_of_decides (hs.decided o ho) hpos

/-- A frame is written, decoded and taken. -/
def deliver (f : VideoFrame) : List (VideoAct VideoFrame) :=
  [.reader, .pass (.write (some f)), .reader, .decoder, .decoder, .decoder, .decoder, .display 0,
    .display 0]

/-- Two frames of 20 ms, the second one shown 5 ms late. -/
def twoFrames : List (VideoAct VideoFrame) :=
  deliver ⟨some 0, 20⟩ ++ [.calAudioDelay 0 3, .display 0, .display 0, .display 0] ++
    deliver ⟨some 20, 20⟩ ++ [.updateAudioPts 0 (3 + 25 / 1000), .display 0, .display 0]

/-- `close` cuts off the wait of a third frame. -/
def cutOff : List (VideoAct VideoFrame) :=
  .display 0 :: deliver ⟨some 40, 20⟩ ++
    [.display 0, .stop, .reader, .reader, .decoder, .reader, .reader, .display 0]

def bothStreams : TimedSide (directCodec VideoFrame) := .start (.fresh .audio false false)

theorem frames_shown_in_time_cut_off : ∃ s : TimedSide (directCodec VideoFrame),
    s.left.map (fun o => (o.lag (1 / 1000), o.shown, o.alive)) =
      [(some 0, true, true), (some (5 / 1000), true, true), (some (-15 / 1000), true, false)] ∧
    ∀ o ∈ s.left.dropLast, o.alive = true := by
  obtain ⟨s, hs, hp⟩ := reach_of_any (TimedSide.step (1 / 1000)) bothStreams (twoFrames ++ cutOff)
    (fun s => s.left.map (fun o => (o.lag (1 / 1000), o.shown, o.alive)) =
      [(some 0, true, true), (some (5 / 1000), true, true), (some (-15 / 1000), true, false)])
    (by decide +kernel)
  exact ⟨s, of_decide_eq_true hp, (frames_shown_in_time (ClockSync.playing_fresh true true) hs).1⟩

theorem audio_video_in_step {timeBase : ℚ} {sync : ClockSync} {s : TimedSide V}
    (hplay : sync.Playing) (h : Reach (TimedSide.step timeBase) (.start sync) s) :
    s.left.Pairwise fun o o' => o.restarts = o'.restarts → o.ByAudio → o'.ByAudio →
      ∃ a a', o.clocks.audio.currentPts = some a ∧ o'.clocks.audio.currentPts = some a' ∧
        -max 0 (2 * o.frame.length timeBase) ≤
          a' - a - (o'.frame.time timeBase - o.frame.time timeBase) ∧
        a' - a - (o'.frame.time timeBase - o.frame.time timeBase) ≤
          max 0 (2 * o'.frame.length timeBase) := by
  have hs := TimedSide.timed_of_reach hplay h
  have hlags : ∀ o ∈ s.left, o.ByAudio → ∃ lag, o.lag timeBase = some lag ∧ 0 ≤ lag ∧
      lag ≤ max 0 (2 * o.frame.length timeBase) := by
    intro o ho hby
    obtain ⟨lag, hlag, hpos, hiff⟩ := LeftFrame.lag_of_decides (hs.decided o ho) hby.notEarly
    refine ⟨lag, hlag, hpos, ?_⟩
    rcases hiff.mp hby.shown with rfl | hwithin
    · exact le_max_left _ _
    · exact hwithin.trans (le_max_right _ _)
  refine hs.pairs.imp_of_mem fun {o o'} ho ho' hsettles hsame hby hby' => ?_
  obtain ⟨lag, hlag, hpos, hle⟩ := hlags o ho hby
  obtain ⟨lag', hlag', hpos', hle'⟩ := hlags o' ho' hby'
  obtain ⟨a0, a, v0, ha0, ha, hv0, rfl⟩ := LeftFrame.lag_audio hlag hby.type
  obtain ⟨b0, a', w0, hb0, ha', hw0, rfl⟩ := LeftFrame.lag_audio hlag' hby'.type
  -- both frames are told by the same origins
  obtain rfl : a0 = b0 := Option.some.inj (((hsettles hsame).audio a0 ha0).symm.trans hb0)
  obtain rfl : v0 = w0 := Option.some.inj (((hsettles hsame).video v0 hv0).symm.trans hw0)
  refine ⟨a, a', ha, ha', ?_, ?_⟩
  · linarith
  · linarith

theorem audio_video_in_step_two : ∃ s : TimedSide (directCodec VideoFrame),
    s.left.map (fun o => (o.clocks.audio.currentPts, o.shown, o.clocks.type)) =
      [(some 3, true, .audio), (some (3 + 25 / 1000), true, .audio)] ∧
    s.left.Pairwise fun o o' => o.restarts = o'.restarts → o.ByAudio → o'.ByAudio →
      ∃ a a', o.clocks.audio.currentPts = some a ∧ o'.clocks.audio.currentPts = some a' ∧
        -max 0 (2 * o.frame.length (1 / 1000)) ≤
          a' - a - (o'.frame.time (1 / 1000) - o.frame.time (1 / 1000)) ∧
        a' - a - (o'.frame.time (1 / 1000) - o.frame.time (1 / 1000)) ≤
          max 0 (2 * o'.frame.length (1 / 1000)) := by
  obtain ⟨s, hs, hp⟩ := reach_of_any (TimedSide.step (1 / 1000)) bothStreams twoFrames
    (fun s => s.left.map (fun o => (o.clocks.audio.currentPts, o.shown, o.clocks.type)) =
      [(some 3, true, .audio), (some (3 + 25 / 1000), true, .audio)])
    (by decide +kernel)
  exact ⟨s, of_decide_eq_true hp, audio_video_in_step (ClockSync.playing_fresh true true) hs⟩

end VideoPlayerCore
