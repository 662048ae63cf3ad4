import VideoPlayerCore.ClockOrigin
import VideoPlayerCore.PlaybackSteps

/-!
# The times of onCursorTimeChanged

`_interruptCb` reports the time of the master clock whenever the demuxer asks it.  As long as
the streams and the wall clock go forward and the reader does not restart, no clock goes back:

    Forward → c.apply s has every clock onward                        (apply_audio, apply_absolute)
    same master, no restart → the cursor is never negative and never back      (cursor_never_back)

The three clocks are not aligned with each other, so the cursor can jump when audio ends and
the absolute clock becomes the master                                   (cursor_back_at_audio_end)
-/

namespace VideoPlayerCore

open Machine

/-! ## A clock that goes onward -/

namespace Clock

variable {c d e : Clock} {pts : ℚ}

/-- A clock that has not started shows nothing, one that has is not before its start. -/
def Runs (c : Clock) : Prop :=
  (c.startPts = none ∧ c.currentPts = none) ∨
    ∃ x y, c.startPts = some x ∧ c.currentPts = some y ∧ x ≤ y

/-- `pts` is not before what the clock shows. -/
def Shows (c : Clock) (pts : ℚ) : Prop := ∀ x ∈ c.currentPts, x ≤ pts

instance (c : Clock) (pts : ℚ) : Decidable (c.Shows pts) :=
  inferInstanceAs (Decidable (∀ x ∈ c.currentPts, x ≤ pts))

structure Onward (c d : Clock) : Prop where
  runs : c.Runs → d.Runs
  time : ∀ x, c.getTime = some x → ∃ y, d.getTime = some y ∧ x ≤ y

theorem Onward.of_eq (hstart : d.startPts = c.startPts) (hcurrent : d.currentPts = c.currentPts) :
    Onward c d := by
  refine ⟨fun h => ?_, fun x hx => ⟨x, ?_, le_rfl⟩⟩
  · unfold Runs at h ⊢
    rw [hstart, hcurrent]
    exact h
  · unfold getTime at hx ⊢
    rw [hstart, hcurrent]
    exact hx

theorem Onward.trans (hcd : Onward c d) (hde : Onward d e) : Onward c e := by
  refine ⟨fun h => hde.runs (hcd.runs h), fun x hx => ?_⟩
  obtain ⟨y, hy, hxy⟩ := hcd.time x hx
  obtain ⟨z, hz, hyz⟩ := hde.time y hy
  exact ⟨z, hz, hxy.trans hyz⟩

/-- The times of a clock that runs. -/
theorem getTime_eq_some {x : ℚ} (hx : c.getTime = some x) :
    ∃ a b, c.startPts = some a ∧ c.currentPts = some b ∧ x = b - a := by
  unfold getTime at hx
  cases hstart : c.startPts with
  | none =>
    rw [hstart] at hx
    cases hcurrent : c.currentPts <;> rw [hcurrent] at hx <;> cases hx
  | some a =>
    cases hcurrent : c.currentPts with
    | none =>
      rw [hstart, hcurrent] at hx
      cases hx
    | some b =>
      rw [hstart, hcurrent] at hx
      exact ⟨a, b, rfl, rfl, (Option.some.inj hx).symm⟩

theorem Onward.update (h : c.Shows pts) : Onward c (c.updatePts (some pts)) := by
  refine ⟨fun hruns => .inr ?_, fun x hx => ?_⟩
  · rcases hruns with ⟨hstart, -⟩ | ⟨a, b, hstart, hcurrent, hab⟩
    · exact ⟨pts, pts, by rw [updatePts_startPts, hstart]; rfl, rfl, le_rfl⟩
    · exact ⟨a, pts, by rw [updatePts_startPts, hstart]; rfl, rfl, hab.trans (h b hcurrent)⟩
  · obtain ⟨a, b, hstart, hcurrent, rfl⟩ := getTime_eq_some hx
    refine ⟨pts - a, ?_, sub_le_sub_right (h b hcurrent) a⟩
    unfold getTime
    rw [updatePts_startPts, updatePts_currentPts, hstart]
    rfl

/-- The first pts starts the clock. -/
theorem Onward.first (h : c.startPts = none) : Onward c (c.updatePts (some pts)) := by
  refine ⟨fun _ => .inr ⟨pts, pts, ?_, rfl, le_rfl⟩, fun x hx => ?_⟩
  · rw [updatePts_startPts, h]
    rfl
  · obtain ⟨a, b, hstart, -⟩ := getTime_eq_some hx
    rw [h] at hstart
    cases hstart

theorem Runs.nonneg {x : ℚ} (h : c.Runs) (hx : c.getTime = some x) : 0 ≤ x := by
  obtain ⟨a, b, hstart, hcurrent, rfl⟩ := getTime_eq_some hx
  rcases h with ⟨hnone, -⟩ | ⟨a', b', hstart', hcurrent', hab⟩
  · rw [hnone] at hstart
    cases hstart
  · rw [hstart] at hstart'
    rw [hcurrent] at hcurrent'
    obtain rfl := Option.some.inj hstart'
    obtain rfl := Option.some.inj hcurrent'
    exact sub_nonneg.mpr hab

end Clock

/-! ## The calls -/

/-- The wall time of a call. -/
def ClockCall.now : ClockCall → ℚ
  | .calVideoDelay now _ _ | .calAudioDelay now _ _ | .updateVideoPts now _
  | .updateAudioPts now _ => now

/-- Neither the wall clock nor audio goes back. -/
def ClockCall.Forward (s : ClockSync) (c : ClockCall) : Prop :=
  s.absolute.Shows c.now ∧
    match c with
    | .updateAudioPts _ pts => s.audio.Shows pts
    | _ => True

/-- Video does not go back; without audio its clock has the pts of one of its own frames. -/
def ClockCall.VideoForward (s : ClockSync) : ClockCall → Prop
  | .updateVideoPts _ pts => s.video.Shows pts
  | _ => True

instance (s : ClockSync) : (c : ClockCall) → Decidable (c.Forward s)
  | .calVideoDelay _ _ _ | .calAudioDelay _ _ _ | .updateVideoPts _ _ =>
    inferInstanceAs (Decidable (_ ∧ True))
  | .updateAudioPts _ _ => inferInstanceAs (Decidable (_ ∧ Clock.Shows _ _))

instance (s : ClockSync) : (c : ClockCall) → Decidable (c.VideoForward s)
  | .calVideoDelay _ _ _ | .calAudioDelay _ _ _ | .updateAudioPts _ _ => .isTrue trivial
  | .updateVideoPts _ _ => inferInstanceAs (Decidable (Clock.Shows _ _))

section
variable (s : ClockSync) (c : ClockCall)

theorem apply_absolute_eq : (c.apply s).absolute = s.absolute.updatePts (some c.now) := by
  cases c with
  | calVideoDelay now pts duration =>
    simp only [ClockCall.apply, ClockSync.calVideoDelay, ClockSync.startVideo,
      ClockSync.alignVideo]
    split_ifs <;> rfl
  | calAudioDelay now pts duration =>
    simp only [ClockCall.apply, ClockSync.calAudioDelay, ClockSync.startAudio]
    split_ifs <;> rfl
  | updateVideoPts now pts => rfl
  | updateAudioPts now pts => rfl

end

variable {s : ClockSync} {c : ClockCall}

theorem apply_absolute (h : c.Forward s) : Clock.Onward s.absolute (c.apply s).absolute := by
  rw [apply_absolute_eq]
  exact .update h.1

/-- `calAudioDelay` shows its pts to a clock that has not started only. -/
theorem apply_audio (h : c.Forward s) : Clock.Onward s.audio (c.apply s).audio := by
  cases c with
  | calVideoDelay now pts duration =>
    exact .of_eq (by simp [ClockCall.apply]) (by simp [ClockCall.apply])
  | calAudioDelay now pts duration =>
    simp only [ClockCall.apply, ClockSync.calAudioDelay, ClockSync.startAudio]
    split
    · next hnone => exact .first hnone
    · exact .of_eq rfl rfl
  | updateVideoPts now pts => exact .of_eq rfl rfl
  | updateAudioPts now pts => exact .update h.2

/-- Without audio there is nothing to align to. -/
theorem apply_video (h : c.VideoForward s) (haudio : s.audio.startPts = none) :
    Clock.Onward s.video (c.apply s).video := by
  cases c with
  | calVideoDelay now pts duration =>
    have hstart : Clock.Onward s.video (s.startVideo now (some pts)).video := by
      unfold ClockSync.startVideo
      dsimp only
      split
      · next hnone => exact .first hnone
      · exact .of_eq rfl rfl
    simp only [ClockCall.apply, ClockSync.calVideoDelay]
    split
    · exact hstart
    · next hawaits =>
      have hdisabled : (s.startVideo now (some pts)).audio.isDisabled = true := by
        unfold ClockSync.awaitsAudio at hawaits
        rw [ClockSync.startVideo_audio, haudio] at hawaits
        rw [ClockSync.startVideo_audio]
        simpa using hawaits
      unfold ClockSync.alignVideo
      rw [if_neg fun hand => by rw [hdisabled] at hand; exact absurd hand.1 (by decide)]
      exact hstart
  | calAudioDelay now pts duration =>
    exact .of_eq (by simp [ClockCall.apply]) (by simp [ClockCall.apply])
  | updateVideoPts now pts => exact .update h
  | updateAudioPts now pts => exact .of_eq rfl rfl

/-! ## Sessions -/

namespace Session

variable {P B : Type} {V : Codec P VideoFrame} {A : Codec P B} {cfg : SessionConfig}
  {s t : Session V A} {a : SessionAct P}

/-- `_interruptCb`: the time that `onCursorTimeChanged` gets, and whether to give up. -/
def interruptCb (s : Session V A) : Option Pts × Bool :=
  (if s.isPaused then none else some s.sync.getMasterClock.getTime, !s.isAlive)

/-- The call of the clocks in a step. -/
def clockCall (cfg : SessionConfig) (s : Session V A) : SessionAct P → Option ClockCall
  | .calVideoDelay now =>
    match s.video.display with
    | .presenting f => some (.calVideoDelay now (f.time cfg.timeBase) (f.length cfg.timeBase))
    | _ => none
  | .calAudioDelay now pts => some (.calAudioDelay now pts 0)
  | .showFrame now =>
    match s.video.display with
    | .presenting f => some (.updateVideoPts now (f.time cfg.timeBase))
    | _ => none
  | .audioCallback now pts => some (.updateAudioPts now pts)
  | _ => none

/-- The wall clock goes forward, and the stream that a clock can be the master of; the callback
has a channel only if audio is open. -/
def Forward (cfg : SessionConfig) (s : Session V A) (a : SessionAct P) : Prop :=
  (∀ c ∈ clockCall cfg s a, c.Forward s.sync ∧
      (cfg.audioOpen = false → c.VideoForward s.sync)) ∧
    (a matches .audioCallback _ _ → cfg.audioOpen = true)

instance (cfg : SessionConfig) (s : Session V A) (a : SessionAct P) :
    Decidable (Forward cfg s a) :=
  inferInstanceAs (Decidable (_ ∧ _))

/-- A step of the restart branch. -/
def Restarts (s : Session V A) : SessionAct P → Bool
  | .reader => (s.reader matches .restart _)
  | _ => false

/-- The clocks show the same. -/
structure SameClocks (s t : ClockSync) : Prop where
  audio : t.audio.startPts = s.audio.startPts ∧ t.audio.currentPts = s.audio.currentPts
  video : t.video.startPts = s.video.startPts ∧ t.video.currentPts = s.video.currentPts
  absolute : t.absolute = s.absolute

theorem SameClocks.of_eq {u v : ClockSync} (h : v = u) : SameClocks u v := by
  rw [h]
  exact ⟨⟨rfl, rfl⟩, ⟨rfl, rfl⟩, rfl⟩

theorem onVideo_sync {f : Lane V → Option (Lane V)} (h : s.onVideo cfg f = some t) :
    t.sync = s.sync ∧ t.audio = s.audio := by
  unfold onVideo at h
  split at h
  · obtain ⟨l, -, rfl⟩ := Option.map_eq_some_iff.mp h
    exact ⟨rfl, rfl⟩
  · cases h

theorem onAudio_sync {f : Lane A → Option (Lane A)} (h : s.onAudio cfg f = some t) :
    t.sync = s.sync ∧ cfg.audioOpen = true := by
  unfold onAudio at h
  split at h
  · next hopen =>
    obtain ⟨l, -, rfl⟩ := Option.map_eq_some_iff.mp h
    exact ⟨rfl, hopen⟩
  · cases h

theorem readerStep_clocks (h : s.readerStep cfg = some t) (hr : ∀ r, s.reader ≠ .restart r) :
    SameClocks s.sync t.sync := by
  unfold readerStep at h
  split at h
  · obtain rfl := Option.some.inj h
    dsimp only
    split <;> exact ⟨⟨rfl, rfl⟩, ⟨rfl, rfl⟩, rfl⟩
  · obtain rfl := Option.some.inj h
    exact ⟨⟨rfl, rfl⟩, ⟨rfl, rfl⟩, rfl⟩
  · obtain rfl := Option.some.inj h
    exact ⟨⟨rfl, rfl⟩, ⟨rfl, rfl⟩, rfl⟩
  · refine .of_eq ?_
    split_ifs at h <;> obtain rfl := Option.some.inj h <;> rfl
  · cases h
  · obtain ⟨l, -, rfl⟩ := Option.map_eq_some_iff.mp h
    exact .of_eq rfl
  · obtain ⟨l, -, rfl⟩ := Option.map_eq_some_iff.mp h
    exact .of_eq rfl
  · obtain ⟨l, -, rfl⟩ := Option.map_eq_some_iff.mp h
    exact .of_eq rfl
  · obtain ⟨l, -, rfl⟩ := Option.map_eq_some_iff.mp h
    exact .of_eq rfl
  · refine .of_eq ?_
    split_ifs at h <;> obtain rfl := Option.some.inj h <;> rfl
  · refine .of_eq ?_
    split_ifs at h <;> obtain rfl := Option.some.inj h <;> rfl
  · next r hreader => exact absurd hreader (hr r)
  · cases h

/-- A step calls the clocks, restarts, or leaves them as they are. -/
theorem step_clocks (h : s.step cfg a = some t) (hr : Restarts s a = false) :
    (∃ c, clockCall cfg s a = some c ∧ t.sync = c.apply s.sync) ∨ SameClocks s.sync t.sync := by
  cases a with
  | reader =>
    refine .inr (readerStep_clocks h fun r hreader => ?_)
    unfold Restarts at hr
    rw [hreader] at hr
    cases hr
  | readFrame r =>
    refine .inr (.of_eq ?_)
    simp only [Session.step, readFrame] at h
    split at h <;> cases h <;> rfl
  | decodeVideo | takeVideo | dropFrame | videoEof => exact .inr (.of_eq (onVideo_sync h).1)
  | decodeAudio | takeAudio | blocksDone | audioEof => exact .inr (.of_eq (onAudio_sync h).1)
  | calVideoDelay now =>
    simp only [Session.step] at h
    split at h
    · next f hdisplay =>
      obtain rfl := Option.some.inj h
      exact .inl ⟨.calVideoDelay now (f.time cfg.timeBase) (f.length cfg.timeBase),
        by simp only [clockCall, hdisplay], rfl⟩
    · cases h
  | calAudioDelay now pts =>
    simp only [Session.step] at h
    split at h
    · obtain rfl := Option.some.inj h
      exact .inl ⟨.calAudioDelay now pts 0, rfl, rfl⟩
    · cases h
  | showFrame now =>
    simp only [Session.step] at h
    split at h
    · next f hdisplay =>
      exact .inl ⟨.updateVideoPts now (f.time cfg.timeBase), by simp only [clockCall, hdisplay],
        (onVideo_sync h).1⟩
    · cases h
  | audioAbsolute =>
    simp only [Session.step] at h
    split at h
    · obtain rfl := Option.some.inj h
      exact .inr ⟨⟨rfl, rfl⟩, ⟨rfl, rfl⟩, rfl⟩
    · cases h
  | audioCallback now pts =>
    obtain rfl := Option.some.inj h
    exact .inl ⟨.updateAudioPts now pts, rfl, rfl⟩
  | setIsPaused value | stop =>
    obtain rfl := Option.some.inj h
    exact .inr (.of_eq rfl)

/-! ## No clock goes back -/

structure Cursors (cfg : SessionConfig) (s : Session V A) : Prop where
  audio : s.sync.audio.Runs
  absolute : s.sync.absolute.Runs
  video : cfg.audioOpen = false → s.sync.video.Runs
  /-- without audio its clock is never called -/
  silent : cfg.audioOpen = false → s.sync.audio.startPts = none ∧ s.audio.display = .polling
  master : s.sync.type = .video → cfg.audioOpen = false

/-- The clocks that can be the master do not go back. -/
structure Onward (cfg : SessionConfig) (s t : Session V A) : Prop where
  audio : s.sync.audio.Onward t.sync.audio
  absolute : s.sync.absolute.Onward t.sync.absolute
  video : cfg.audioOpen = false → s.sync.video.Onward t.sync.video

theorem cursors_start (cfg : SessionConfig) : Cursors cfg ({} : Session V A) :=
  ⟨.inl ⟨rfl, rfl⟩, .inl ⟨rfl, rfl⟩, fun _ => .inl ⟨rfl, rfl⟩, fun _ => ⟨rfl, rfl⟩,
    fun h => by cases h⟩

theorem Cursors.onward (h : Cursors cfg s) (hok : Forward cfg s a) (hr : Restarts s a = false)
    (hs : s.step cfg a = some t) : Onward cfg s t := by
  rcases step_clocks hs hr with ⟨c, hc, hsync⟩ | hsame
  · obtain ⟨hforward, hvideo⟩ := hok.1 c hc
    refine ⟨?_, ?_, fun hopen => ?_⟩
    · rw [hsync]
      exact apply_audio hforward
    · rw [hsync]
      exact apply_absolute hforward
    · rw [hsync]
      exact apply_video (hvideo hopen) (h.silent hopen).1
  · refine ⟨.of_eq hsame.audio.1 hsame.audio.2, ?_, fun _ => .of_eq hsame.video.1 hsame.video.2⟩
    rw [hsame.absolute]
    exact .of_eq rfl rfl

/-- The reader starts no audio, and takes VIDEO for the master only where there is none. -/
theorem readerStep_audio (h : s.readerStep cfg = some t) :
    t.audio.display = s.audio.display ∧
      (s.sync.audio.startPts = none → t.sync.audio.startPts = none) ∧
      (t.sync.type = .video → s.sync.type = .video ∨ cfg.audioOpen = false) := by
  unfold readerStep at h
  split at h
  · obtain rfl := Option.some.inj h
    cases hopen : cfg.audioOpen with
    | true => exact ⟨rfl, id, .inl⟩
    | false => exact ⟨rfl, id, fun _ => .inr rfl⟩
  · obtain rfl := Option.some.inj h
    exact ⟨rfl, id, .inl⟩
  · obtain rfl := Option.some.inj h
    exact ⟨rfl, id, .inl⟩
  · split_ifs at h <;> obtain rfl := Option.some.inj h <;> exact ⟨rfl, id, .inl⟩
  · cases h
  · obtain ⟨l, -, rfl⟩ := Option.map_eq_some_iff.mp h
    exact ⟨rfl, id, .inl⟩
  · obtain ⟨l, hl, rfl⟩ := Option.map_eq_some_iff.mp h
    obtain ⟨pipe, -, rfl⟩ := Option.map_eq_some_iff.mp hl
    exact ⟨rfl, id, .inl⟩
  · obtain ⟨l, -, rfl⟩ := Option.map_eq_some_iff.mp h
    exact ⟨rfl, id, .inl⟩
  · obtain ⟨l, hl, rfl⟩ := Option.map_eq_some_iff.mp h
    obtain ⟨pipe, -, rfl⟩ := Option.map_eq_some_iff.mp hl
    exact ⟨rfl, id, .inl⟩
  · split_ifs at h <;> obtain rfl := Option.some.inj h <;> exact ⟨rfl, id, .inl⟩
  · split_ifs at h <;> obtain rfl := Option.some.inj h <;> exact ⟨rfl, id, .inl⟩
  · next r _ =>
    obtain rfl := Option.some.inj h
    cases r with
    | resetAudio => exact ⟨rfl, fun _ => rfl, .inl⟩
    | setType => exact ⟨rfl, id, fun htype => by cases htype⟩
    | _ => exact ⟨rfl, id, .inl⟩
  · cases h

theorem Cursors.silent_step (h : Cursors cfg s) (hok : Forward cfg s a)
    (hs : s.step cfg a = some t) (hopen : cfg.audioOpen = false) :
    t.sync.audio.startPts = none ∧ t.audio.display = .polling := by
  obtain ⟨hstart, hdisplay⟩ := h.silent hopen
  have honVideo {f : Lane V → Option (Lane V)} (hs : s.onVideo cfg f = some t) :
      t.sync.audio.startPts = none ∧ t.audio.display = .polling := by
    obtain ⟨hsync, haudio⟩ := onVideo_sync hs
    rw [hsync, haudio]
    exact ⟨hstart, hdisplay⟩
  cases a with
  | reader =>
    obtain ⟨hsame, hnone, -⟩ := readerStep_audio hs
    exact ⟨hnone hstart, hsame.trans hdisplay⟩
  | readFrame r =>
    simp only [Session.step, readFrame] at hs
    split at hs <;> cases hs <;> exact ⟨hstart, hdisplay⟩
  | decodeVideo | takeVideo | dropFrame | videoEof => exact honVideo hs
  | decodeAudio | takeAudio | blocksDone | audioEof =>
    obtain ⟨-, htrue⟩ := onAudio_sync hs
    rw [hopen] at htrue
    cases htrue
  | calVideoDelay now =>
    simp only [Session.step] at hs
    split at hs
    · obtain rfl := Option.some.inj hs
      exact ⟨by simpa using hstart, hdisplay⟩
    · cases hs
  | calAudioDelay now pts =>
    simp only [Session.step, hdisplay] at hs
    cases hs
  | showFrame now =>
    simp only [Session.step] at hs
    split at hs
    · obtain ⟨hsync, haudio⟩ := onVideo_sync hs
      rw [hsync, haudio]
      exact ⟨hstart, hdisplay⟩
    · cases hs
  | audioAbsolute =>
    simp only [Session.step, hdisplay] at hs
    cases hs
  | audioCallback now pts =>
    have htrue := hok.2 rfl
    rw [hopen] at htrue
    cases htrue
  | setIsPaused value | stop =>
    obtain rfl := Option.some.inj hs
    exact ⟨hstart, hdisplay⟩

theorem Cursors.master_step (h : Cursors cfg s) (hs : s.step cfg a = some t)
    (htype : t.sync.type = .video) : cfg.audioOpen = false := by
  by_cases hreader : a = .reader
  · subst hreader
    exact ((readerStep_audio hs).2.2 htype).elim h.master id
  · refine h.master ?_
    cases a with
    | reader => exact absurd rfl hreader
    | readFrame r =>
      simp only [Session.step, readFrame] at hs
      split at hs <;> cases hs <;> exact htype
    | decodeVideo | takeVideo | dropFrame | videoEof =>
      rw [(onVideo_sync hs).1] at htype
      exact htype
    | decodeAudio | takeAudio | blocksDone | audioEof =>
      rw [(onAudio_sync hs).1] at htype
      exact htype
    | calVideoDelay now | calAudioDelay now pts =>
      simp only [Session.step] at hs
      split at hs
      · obtain rfl := Option.some.inj hs
        simpa using htype
      · cases hs
    | showFrame now =>
      simp only [Session.step] at hs
      split at hs
      · rw [(onVideo_sync hs).1] at htype
        exact htype
      · cases hs
    | audioAbsolute =>
      simp only [Session.step] at hs
      split at hs
      · obtain rfl := Option.some.inj hs
        cases htype
      · cases hs
    | audioCallback now pts | setIsPaused value | stop =>
      obtain rfl := Option.some.inj hs
      exact htype

/-- The restart branch makes the clocks anew. -/
theorem Cursors.restart {r : Restart} (h : Cursors cfg s)
    (hsilent : cfg.audioOpen = false → (s.restartStep r).sync.audio.startPts = none ∧
      (s.restartStep r).audio.display = .polling)
    (hmaster : (s.restartStep r).sync.type = .video → cfg.audioOpen = false) :
    Cursors cfg (s.restartStep r) := by
  cases r with
  | resetAudio => exact ⟨.inl ⟨rfl, rfl⟩, h.absolute, h.video, hsilent, hmaster⟩
  | resetVideo => exact ⟨h.audio, h.absolute, fun _ => .inl ⟨rfl, rfl⟩, hsilent, hmaster⟩
  | resetAbsolute => exact ⟨h.audio, .inl ⟨rfl, rfl⟩, h.video, hsilent, hmaster⟩
  | seek | clearEof | clearVideoEof | clearAudioEof | setType =>
    exact ⟨h.audio, h.absolute, h.video, hsilent, hmaster⟩

theorem Cursors.step (h : Cursors cfg s) (hok : Forward cfg s a) (hs : s.step cfg a = some t) :
    Cursors cfg t := by
  have hsilent := h.silent_step hok hs
  have hmaster := h.master_step hs
  cases hr : Restarts s a with
  | false =>
    obtain ⟨haudio, habsolute, hvideo⟩ := h.onward hok hr hs
    exact ⟨haudio.runs h.audio, habsolute.runs h.absolute,
      fun hopen => (hvideo hopen).runs (h.video hopen), hsilent, hmaster⟩
  | true =>
    unfold Restarts at hr
    split at hr
    · cases hreader : s.reader with
      | restart r =>
        simp only [Session.step, readerStep, hreader] at hs
        obtain rfl := Option.some.inj hs
        exact h.restart hsilent hmaster
      | _ =>
        rw [hreader] at hr
        cases hr
    · cases hr

theorem cursors_of_reach (hs : ReachIf (Session.step cfg) (Forward cfg) {} s) : Cursors cfg s :=
  hs.invariant (cursors_start cfg) fun _ _ _ hI hok hstep => hI.step hok hstep

theorem onward_of_reach (h : Cursors cfg s)
    (hst : ReachIf (Session.step cfg) (fun u b => Forward cfg u b ∧ Restarts u b = false) s t) :
    Cursors cfg t ∧ Onward cfg s t := by
  refine hst.invariant (I := fun t => Cursors cfg t ∧ Onward cfg s t)
    ⟨h, .of_eq rfl rfl, .of_eq rfl rfl, fun _ => .of_eq rfl rfl⟩ fun u b v hI hok hstep => ?_
  obtain ⟨hu, haudio, habsolute, hvideo⟩ := hI
  obtain ⟨haudio', habsolute', hvideo'⟩ := hu.onward hok.1 hok.2 hstep
  exact ⟨hu.step hok.1 hstep, haudio.trans haudio', habsolute.trans habsolute',
    fun hopen => (hvideo hopen).trans (hvideo' hopen)⟩

end Session

open Session

/-- As long as the wall clock and the streams go forward, the times that `onCursorTimeChanged`
gets are not negative, and none is before an earlier one of the same iteration and master. -/
theorem cursor_never_back {P B : Type} {V : Codec P VideoFrame} {A : Codec P B}
    (cfg : SessionConfig) {s t : Session V A} {x : ℚ} {time : Pts}
    (hs : ReachIf (Session.step cfg) (Forward cfg) {} s)
    (hst : ReachIf (Session.step cfg) (fun u a => Forward cfg u a ∧ Restarts u a = false) s t)
    (htype : t.sync.type = s.sync.type) (hx : s.interruptCb.1 = some (some x))
    (htime : t.interruptCb.1 = some time) : 0 ≤ x ∧ ∃ y, time = some y ∧ x ≤ y := by
  have hcursors := cursors_of_reach hs
  obtain ⟨-, haudio, habsolute, hvideo⟩ := onward_of_reach hcursors hst
  have hmaster : s.sync.getMasterClock.getTime = some x := by
    unfold interruptCb at hx
    split at hx
    · cases hx
    · exact Option.some.inj hx
  have htime' : t.sync.getMasterClock.getTime = time := by
    unfold interruptCb at htime
    split at htime
    · cases htime
    · exact Option.some.inj htime
  rw [← htime']
  unfold ClockSync.getMasterClock at hmaster ⊢
  rw [htype]
  cases hsync : s.sync.type with
  | audio =>
    rw [hsync] at hmaster
    exact ⟨hcursors.audio.nonneg hmaster, haudio.time x hmaster⟩
  | video =>
    have hopen := hcursors.master hsync
    rw [hsync] at hmaster
    exact ⟨(hcursors.video hopen).nonneg hmaster, (hvideo hopen).time x hmaster⟩
  | absolute =>
    rw [hsync] at hmaster
    exact ⟨hcursors.absolute.nonneg hmaster, habsolute.time x hmaster⟩

/-- A file with both streams that is played once. -/
def playedOnce : SessionConfig := ⟨true, true, false, 1⟩

abbrev PlayedSession : Type := Session (directCodec VideoFrame) (directCodec VideoFrame)

/-- Audio begins at 10, the first frame is at 0: its clock is brought to 10, and back. -/
theorem cursor_never_back_two_blocks : ∃ s t : PlayedSession,
    s.interruptCb.1 = some (some 0) ∧ s.sync.video.currentPts = some 10 ∧
      t.interruptCb.1 = some (some 2) ∧ t.sync.video.currentPts = some 0 ∧
      ((0 : ℚ) ≤ 0 ∧ ∃ y, (some 2 : Pts) = some y ∧ (0 : ℚ) ≤ y) := by
  obtain ⟨s, hs, hp⟩ := reach_of_any
    (guarded (Session.step playedOnce) (Forward playedOnce)) ({} : PlayedSession)
    [.reader, .reader, .reader, .reader, .readFrame (.videoPacket ⟨some 0, 1⟩), .reader,
      .decodeVideo, .decodeVideo, .decodeVideo, .takeVideo, .calVideoDelay 1,
      .audioCallback 1 10, .calVideoDelay 1]
    (fun s => s.interruptCb.1 = some (some 0) ∧ s.sync.video.currentPts = some 10 ∧
      (exec (guarded (Session.step playedOnce)
        (fun u a => Forward playedOnce u a ∧ Restarts u a = false)) s
        [.showFrame 2, .audioCallback 2 12]).any (fun t => t.interruptCb.1 = some (some 2) ∧
          t.sync.video.currentPts = some 0 ∧ t.sync.type = s.sync.type) = true)
    (by decide +kernel)
  obtain ⟨hfirst, hbrought, hrun⟩ := of_decide_eq_true hp
  obtain ⟨t, ht, hq⟩ := reach_of_any _ s _ _ hrun
  obtain ⟨hsecond, hback, htype⟩ := of_decide_eq_true hq
  exact ⟨s, t, hfirst, hbrought, hsecond, hback, cursor_never_back playedOnce
    (reachIf_of_guarded hs) (reachIf_of_guarded ht) htype hfirst hsecond⟩

/-- Two seconds of audio in one: behind `audioEof` the cursor is back at one. -/
theorem cursor_back_at_audio_end : ∃ s t : PlayedSession,
    ReachIf (Session.step playedOnce) (Forward playedOnce) {} s ∧
      ReachIf (Session.step playedOnce)
        (fun u a => Forward playedOnce u a ∧ Restarts u a = false) s t ∧
      s.interruptCb.1 = some (some 2) ∧ t.interruptCb.1 = some (some 1) := by
  obtain ⟨s, hs, hp⟩ := reach_of_any
    (guarded (Session.step playedOnce) (Forward playedOnce)) ({} : PlayedSession)
    [.reader, .reader, .reader, .audioCallback 1 10, .audioCallback 2 12]
    (fun s => s.interruptCb.1 = some (some 2) ∧
      (exec (guarded (Session.step playedOnce)
        (fun u a => Forward playedOnce u a ∧ Restarts u a = false)) s
        [.reader, .readFrame .endOfFile, .reader, .reader, .decodeAudio, .decodeAudio,
          .decodeAudio, .takeAudio, .audioEof, .audioAbsolute]).any
        (fun t => t.interruptCb.1 = some (some 1)) = true) (by decide +kernel)
  obtain ⟨hfirst, hrun⟩ := of_decide_eq_true hp
  obtain ⟨t, ht, hq⟩ := reach_of_any _ s _ _ hrun
  exact ⟨s, t, reachIf_of_guarded hs, reachIf_of_guarded ht, hfirst, of_decide_eq_true hq⟩

end VideoPlayerCore
