import VideoPlayerCore.AudioThread
import VideoPlayerCore.Histories

/-!
# The volume of a channel

`Audio::setVolume` stores `_volume`.  `Channel::volume` is what `_audioCallback` mixes with; no
constructor sets it, and `_displayThread` copies `_volume` into it when it begins a frame.  So a
block is mixed at the volume that was set when the thread last began a frame, and at no
other                                                                     (volume_of_last_frame)
-/

namespace VideoPlayerCore

open Histories Machine

variable {W : Nat}

inductive VolumeEvent
  /-- `Audio::setVolume` -/
  | set (value : Int)
  /-- `_displayThread` has a frame to cut. -/
  | begun
  /-- `SDL_MixAudioFormat` with this volume -/
  | mixed (value : Int)
  deriving DecidableEq

/-- The volume that is set, and the one that was when a frame was last begun. -/
structure Volumes where
  volume : Int
  begun : Option Int := none

def Volumes.after (v : Volumes) : VolumeEvent → Volumes
  | .set value => { v with volume := value }
  | .begun => { v with begun := some v.volume }
  | .mixed _ => v

def volumesAfter (volume : Int) (history : List VolumeEvent) : Volumes :=
  history.foldl Volumes.after { volume := volume }

theorem volumesAfter_concat (volume : Int) (history : List VolumeEvent) (x : VolumeEvent) :
    volumesAfter volume (history ++ [x]) = (volumesAfter volume history).after x :=
  List.foldl_concat ..

namespace AudioThread

variable (A : AudioSetup W) (s : AudioThread W)

/-- What a step does with volumes. -/
def volumeEvent : AudioThreadAct → Option VolumeEvent
  | .setVolume value => some (.set value)
  | .display _ e =>
    match s.pc with
    | .converting d => (s.resampler.prepare A d.frame d.id e).2.map fun _ => .begun
    | _ => none
  | .callback _ =>
    match s.callback with
    | .mixing _ => some (.mixed s.channelVolume)
    | _ => none
  | _ => none

end AudioThread

structure VolumeRun (W : Nat) where
  thread : AudioThread W
  history : List VolumeEvent := []

def VolumeRun.step (A : AudioSetup W) (s : VolumeRun W) (a : AudioThreadAct) :
    Option (VolumeRun W) :=
  (s.thread.step A a).map fun thread =>
    { thread := thread, history := s.history ++ (s.thread.volumeEvent A a).toList }

namespace AudioThread

variable {A : AudioSetup W} {s t : AudioThread W}

/-! ## Before the first frame -/

/-- No frame is begun: nothing is in the ring, and the callback has nothing of it. -/
structure Blank (s : AudioThread W) : Prop where
  writePos : s.blocks.ring.writePos = 0
  readPos : s.blocks.ring.readPos = 0
  writtenSamples : s.blocks.writtenSamples = 0
  callback : s.callback = .idle ∨ s.callback = .loaded 0
  job : s.pc.job = none

theorem beginRead_empty (A : AudioSetup W) (b : AudioRingBuffer W UInt8) :
    b.beginRead 0 0 A.frameAlignBytes = none := by
  have hpos : (0 : BitVec W) < A.frameAlignBytes := by
    have hle := A.le_frameAlignBytes
    rw [BitVec.lt_def]
    simp only [BitVec.ofNat_eq_ofNat, BitVec.toNat_ofNat, Nat.zero_mod]
    omega
  unfold AudioRingBuffer.beginRead
  dsimp only
  rw [if_pos]
  left
  simpa using hpos

/-- The callback finds the ring empty. -/
theorem Blank.callbackTo {callback : CallbackPc W} (h : Blank s) (hto : s.CallbackTo A callback) :
    callback = .idle ∨ callback = .loaded 0 := by
  cases hto with
  | keep => exact h.callback
  | load hidle => exact .inr (by rw [h.readPos])
  | refuse r hloaded => exact .inl rfl
  | grant r slot hloaded hslot =>
    rcases h.callback with hidle | hzero
    · rw [hidle] at hloaded
      cases hloaded
    · obtain rfl : r = 0 := CallbackPc.loaded.inj (hloaded.symm.trans hzero)
      rw [h.writePos, beginRead_empty] at hslot
      cases hslot
  | mix slot hmixing =>
    rcases h.callback with hidle | hzero
    · rw [hidle] at hmixing
      cases hmixing
    · rw [hzero] at hmixing
      cases hmixing

/-- Until a frame is begun nothing is put into the ring. -/
theorem Blank.moves (h : Blank s) (hs : s.Moves A t) (ht : t.pc.job = none) : Blank t := by
  have hjob {d : Dequeued} {rest : Rest} (hpc : s.pc.job = some (d, rest)) : False := by
    rw [h.job] at hpc
    cases hpc
  cases hs with
  | aside sync volume queue isAlive closing callback hwaited hto =>
    exact ⟨h.writePos, h.readPos, h.writtenSamples, h.callbackTo hto, ht⟩
  | consume r hending =>
    rcases h.callback with hidle | hzero
    · rw [hidle] at hending
      cases hending
    · rw [hzero] at hending
      cases hending
  | drain queue hclosing =>
    exact ⟨h.writePos, h.readPos, h.writtenSamples, h.callback, ht⟩
  | begin | leave | idle | marker | take | poll | drained | skip | endLoop | exit | clear =>
    exact ⟨h.writePos, h.readPos, h.writtenSamples, h.callback, ht⟩
  | flush hpc =>
    refine ⟨?_, ?_, ?_, h.callback, rfl⟩ <;>
      simp only [BlockWriter.flush, h.writtenSamples, if_true]
    · exact h.writePos
    · exact h.readPos
  | resetWrite hpc => exact ⟨rfl, h.readPos, h.writtenSamples, h.callback, rfl⟩
  | resetRead hpc => exact ⟨h.writePos, rfl, h.writtenSamples, h.callback, rfl⟩
  | prepare => cases ht
  | done d rest hpc | sleep d rest hpc | resume d rest hpc | wait d rest sync hpc
  | play d rest sync hpc | fill d rest hpc =>
    exact (hjob (by rw [hpc]; rfl)).elim
  | beginWrite d rest b hpc => exact (hjob (by rw [hpc]; rfl)).elim

/-! ## The volumes -/

theorem cut_volumes (d : Dequeued) (rest : Rest) :
    (s.cut A d rest).volume = s.volume ∧ (s.cut A d rest).channelVolume = s.channelVolume := by
  unfold cut
  split
  · exact ⟨rfl, rfl⟩
  · split
    · dsimp only
      split
      · exact ⟨rfl, rfl⟩
      · exact ⟨rfl, rfl⟩
    · exact ⟨rfl, rfl⟩

/-- A frame to cut is one that is begun. -/
theorem display_volumes {now : ℚ} {e : SwrAnswers} (hs : s.display A now e = some t) :
    t.volume = s.volume ∧
      (s.volumeEvent A (.display now e) = some .begun ∧ t.channelVolume = s.volume ∨
        s.volumeEvent A (.display now e) = none ∧ t.channelVolume = s.channelVolume ∧
          (s.pc.job = none → t.pc.job = none)) := by
  simp only [volumeEvent]
  cases hpc : s.pc <;> simp only [display, hpc] at hs
  case exited => cases hs
  all_goals obtain rfl := Option.some.inj hs
  case converting d =>
    dsimp only
    unfold prepare
    cases hprepare : s.resampler.prepare A d.frame d.id e with
    | mk r out =>
      cases out with
      | none => exact ⟨rfl, .inr ⟨rfl, rfl, fun _ => rfl⟩⟩
      | some o => exact ⟨rfl, .inl ⟨rfl, rfl⟩⟩
  case top =>
    refine ⟨rfl, .inr ⟨rfl, rfl, fun _ => ?_⟩⟩
    dsimp only
    split <;> rfl
  case reading =>
    unfold takeFrame
    split <;> exact ⟨rfl, .inr ⟨rfl, rfl, fun _ => rfl⟩⟩
  case polling =>
    refine ⟨rfl, .inr ⟨rfl, rfl, fun _ => ?_⟩⟩
    dsimp only
    split <;> rfl
  case cutting d rest =>
    obtain ⟨hvolume, hchannel⟩ := cut_volumes (A := A) (s := s) d rest
    exact ⟨hvolume, .inr ⟨rfl, hchannel, fun h => by cases h⟩⟩
  case starting | filling => exact ⟨rfl, .inr ⟨rfl, rfl, fun h => by cases h⟩⟩
  all_goals exact ⟨rfl, .inr ⟨rfl, rfl, fun _ => rfl⟩⟩

/-- The others copy no volume. -/
theorem audioCallback_volumes (now : ℚ) :
    (s.audioCallback A now).volume = s.volume ∧
      (s.audioCallback A now).channelVolume = s.channelVolume := by
  unfold audioCallback
  dsimp only
  split
  · exact ⟨rfl, rfl⟩
  · split
    · exact ⟨rfl, rfl⟩
    · exact ⟨rfl, rfl⟩
  · exact ⟨rfl, rfl⟩
  · exact ⟨rfl, rfl⟩

theorem close_volumes (hs : s.close = some t) :
    t.volume = s.volume ∧ t.channelVolume = s.channelVolume := by
  unfold close at hs
  repeat' split at hs
  all_goals cases hs
  all_goals exact ⟨rfl, rfl⟩

/-- The volumes of the thread are those that the history says; before the first frame it is
blank. -/
structure Heard (s : AudioThread W) (v : Volumes) : Prop where
  volume : s.volume = v.volume
  begun : ∀ value, v.begun = some value → s.channelVolume = value
  blank : v.begun = none → Blank s

theorem Heard.step {v : Volumes} {a : AudioThreadAct} (h : Heard s v)
    (hs : s.step A a = some t) :
    Heard t (((s.volumeEvent A a).map v.after).getD v) := by
  have hother (hne : ∀ now e, a ≠ .display now e)
      (hvolumes : t.volume = s.volume ∧ t.channelVolume = s.channelVolume) : Heard t v := by
    refine ⟨hvolumes.1.trans h.volume, fun value hbegun => ?_, fun hbegun => ?_⟩
    · exact hvolumes.2.trans (h.begun value hbegun)
    · have hblank := h.blank hbegun
      exact hblank.moves (step_moves hs) (by rw [(step_beside hs hne).1, hblank.job])
  cases a with
  | display now e =>
    obtain ⟨hvolume, ⟨hevent, hchannel⟩ | ⟨hevent, hchannel, hjob⟩⟩ := display_volumes hs
    · rw [hevent]
      refine ⟨hvolume.trans h.volume, fun value hbegun => ?_, fun hbegun => by cases hbegun⟩
      obtain rfl := Option.some.inj hbegun
      exact hchannel.trans h.volume
    · rw [hevent]
      refine ⟨hvolume.trans h.volume, fun value hbegun => ?_, fun hbegun => ?_⟩
      · exact hchannel.trans (h.begun value hbegun)
      · have hblank := h.blank hbegun
        exact hblank.moves (step_moves hs) (hjob hblank.job)
  | setVolume value =>
    have hmoves := step_moves hs
    obtain rfl := Option.some.inj hs
    exact ⟨rfl, h.begun, fun hbegun => (h.blank hbegun).moves hmoves (h.blank hbegun).job⟩
  | callback now =>
    have hvolumes := audioCallback_volumes (A := A) (s := s) now
    rw [Option.some.inj hs] at hvolumes
    have hsame : ((s.volumeEvent A (.callback now)).map v.after).getD v = v := by
      simp only [volumeEvent]
      split <;> rfl
    rw [hsame]
    exact hother (by simp) hvolumes
  | close => exact hother (by simp) (close_volumes hs)
  | decoder frame =>
    refine hother (by simp) ?_
    obtain ⟨-, hs⟩ := Option.ite_none_right_eq_some.mp hs
    obtain rfl := Option.some.inj hs
    exact ⟨rfl, rfl⟩
  | clock | restart =>
    refine hother (by simp) ?_
    obtain rfl := Option.some.inj hs
    exact ⟨rfl, rfl⟩

/-- A block is in the callback's hands only behind the first frame. -/
theorem Heard.mixed {v : Volumes} {a : AudioThreadAct} {value : Int} (h : Heard s v)
    (hevent : s.volumeEvent A a = some (.mixed value)) : v.begun = some value := by
  cases a with
  | callback now =>
    simp only [volumeEvent] at hevent
    split at hevent
    · next slot hmixing =>
      obtain rfl := VolumeEvent.mixed.inj (Option.some.inj hevent)
      cases hbegun : v.begun with
      | some value => rw [h.begun value hbegun]
      | none =>
        rcases (h.blank hbegun).callback with hidle | hloaded
        · rw [hidle] at hmixing
          cases hmixing
        · rw [hloaded] at hmixing
          cases hmixing
    · cases hevent
  | display now e =>
    simp only [volumeEvent] at hevent
    split at hevent
    · obtain ⟨o, -, ho⟩ := Option.map_eq_some_iff.mp hevent
      cases ho
    · cases hevent
  | _ => cases hevent

theorem heard_start (A : AudioSetup W) (memory : Nat → UInt8) (sync : ClockSync)
    (volume channelVolume : Int) :
    Heard (start A memory sync volume channelVolume) { volume := volume } :=
  ⟨rfl, fun value h => (by cases h), fun _ => ⟨rfl, rfl, rfl, .inl rfl, rfl⟩⟩

end AudioThread

open AudioThread

/-- Whatever `Channel::volume` was before: a block is mixed behind the first frame that is begun,
at the volume that was set when the last one was. -/
theorem volume_of_last_frame (A : AudioSetup W) (memory : Nat → UInt8) (sync : ClockSync)
    (volume channelVolume : Int) {s : VolumeRun W}
    (h : Reach (VolumeRun.step A) { thread := start A memory sync volume channelVolume } s) :
    AtEach (fun before x => ∀ value, x = .mixed value →
      (volumesAfter volume before).begun = some value) s.history := by
  suffices hinv : Heard s.thread (volumesAfter volume s.history) ∧
      AtEach (fun before x => ∀ value, x = .mixed value →
        (volumesAfter volume before).begun = some value) s.history from hinv.2
  refine h.invariant
    (I := fun s => Heard s.thread (volumesAfter volume s.history) ∧
      AtEach (fun before x => ∀ value, x = .mixed value →
        (volumesAfter volume before).begun = some value) s.history)
    ⟨heard_start A memory sync volume channelVolume, atEach_nil⟩ fun u a v hI hs => ?_
  obtain ⟨hheard, heach⟩ := hI
  obtain ⟨thread, hthread, rfl⟩ := Option.map_eq_some_iff.mp hs
  have hstep := hheard.step hthread
  dsimp only
  cases hevent : u.thread.volumeEvent A a with
  | none =>
    rw [hevent] at hstep
    rw [Option.toList_none, List.append_nil]
    exact ⟨hstep, heach⟩
  | some x =>
    rw [hevent] at hstep
    rw [Option.toList_some, volumesAfter_concat, atEach_concat]
    refine ⟨hstep, heach, fun value hx => ?_⟩
    obtain rfl := hx
    exact hheard.mixed hevent

/-- A block that is in the ring when the volume is set is mixed at the old one. -/
theorem volume_of_last_frame_late :
    ∃ s : VolumeRun 64,
      s.history = [.set 64, .begun, .set 30, .mixed 64, .begun, .mixed 30] ∧
        (volumesAfter 128 [.set 64, .begun, .set 30]).begun = some 64 := by
  obtain ⟨s, hreach, hend⟩ := reach_of_any (VolumeRun.step (smallDevice (1 / 8000)))
    { thread := start (smallDevice (1 / 8000)) (fun _ => 0) audioOnly 128 (-7) }
    ([.setVolume 64, .decoder (some (stereoFrame .s16 8000 2 0))] ++
      displaySteps 8 (goodAnswers 0 fun _ => 1) ++ [.setVolume 30] ++
      List.replicate 4 (.callback 0) ++ [.decoder (some (stereoFrame .s16 8000 2 2))] ++
      displaySteps 8 (goodAnswers 0 fun _ => 1) ++ List.replicate 4 (.callback 0))
    (fun s => decide (s.history = [.set 64, .begun, .set 30, .mixed 64, .begun, .mixed 30]))
    (by decide +kernel)
  have hhistory := of_decide_eq_true hend
  have heach := volume_of_last_frame _ _ _ _ _ hreach
  exact ⟨s, hhistory,
    heach [.set 64, .begun, .set 30] (.mixed 64) [.begun, .mixed 30] hhistory 64 rfl⟩

end VideoPlayerCore
