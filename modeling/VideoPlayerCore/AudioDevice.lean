import Mathlib.Data.List.Basic
import VideoPlayerCore.Machine

/-!
# The audio device shared by all sessions

`Audio::open` and `Audio::close` of every session work on the same statics: the
channel count, the device, its format and the set of channels the callback mixes.
`open` counts a session once its decoder is open; `close` uncounts every session,
also one that never opened audio, and closes the device at 0.

If only counted sessions close, and no device is opened over another one, the count
is the number of counted sessions and the device lives exactly as long as they do
                                                        (audio_count_tracks_sessions)
A session without audio that closes leaves the count short            (Inv.close_uncounted)
and may stop the device under another one                (audio_close_uncounted_stops_device)
-/

namespace VideoPlayerCore

open Machine

/-- `SDL_AudioSpec::format` of an opened device. -/
inductive DeviceFormat
  | s16sys
  | s32sys
  | f32sys
  | other
  deriving DecidableEq

inductive SampleFormat
  | s16
  | s32
  | flt
  deriving DecidableEq

/-- The `switch (_spec.format)` of `Audio::open`; `none` is `AV_SAMPLE_FMT_NONE`. -/
def DeviceFormat.forceFormat : DeviceFormat → Option SampleFormat
  | .s16sys => some .s16
  | .s32sys => some .s32
  | .f32sys => some .flt
  | .other => none

/-- A message on `_audioChan`; a channel is named by its session. -/
inductive ChannelMessage
  | addChannel (session : Nat)
  | removeChannel (session : Nat)
  deriving DecidableEq

/-- Where a session's reader stands between `Play::start` and the end of
`Audio::close`. -/
inductive AudioPhase
  /-- no `Audio::open` yet -/
  | started
  /-- `Audio::open` failed in `Decoder::open` -/
  | noDecoder
  /-- `Decoder::open` succeeded, the locked block comes next -/
  | decoding
  /-- the locked block went through, the channel comes next -/
  | ready
  /-- `Audio::open` returned from the locked block, without a channel -/
  | refused
  /-- `Audio::open` is done -/
  | playing
  /-- `Audio::close` before its locked block -/
  | closing (counted : Bool)
  | closed
  deriving DecidableEq

/-- `_audioChannleCount++` has been executed for the session and its `close` has not
uncounted it. -/
def AudioPhase.isCounted : AudioPhase → Bool
  | .ready | .refused | .playing => true
  | .closing counted => counted
  | .started | .noDecoder | .decoding | .closed => false

/-- The statics of audio.cpp, the devices SDL has open, and the sessions. -/
structure AudioDevice where
  audioChannleCount : Int := 0
  audioId : Nat := 0
  forceFormat : Option SampleFormat := none
  sdlInit : Bool := false
  devices : List Nat := []
  audioChan : List ChannelMessage := []
  audioChannels : List Nat := []
  sessions : List AudioPhase := []
  deriving DecidableEq

/-- What SDL answers in the locked block: does `SDL_Init` succeed, and the device
and format of `SDL_OpenAudioDevice`, or its failure. -/
structure SdlAnswer where
  initOk : Bool
  device : Option (Nat × DeviceFormat)

inductive AudioAct
  | start
  | openDecoder (i : Nat) (ok : Bool)
  | openDevice (i : Nat) (answer : SdlAnswer)
  | addChannel (i : Nat)
  | beginClose (i : Nat)
  | endClose (i : Nat)
  | callback

namespace AudioDevice

def setPhase (s : AudioDevice) (i : Nat) (p : AudioPhase) : AudioDevice :=
  { s with sessions := s.sessions.set i p }

/-- `SDL_OpenAudioDevice` and the `switch` after it; SDL's new id is not one of a
device that is open. -/
def openAudioDevice (s : AudioDevice) (i : Nat) :
    Option (Nat × DeviceFormat) → Option AudioDevice
  | none => some ({ s with audioId := 0 }.setPhase i .refused)
  | some (id, format) =>
    if 2 ≤ id ∧ id ∉ s.devices then
      let s := { s with audioId := id, devices := id :: s.devices }
      match format.forceFormat with
      | none => some (s.setPhase i .refused)
      | some f => some ({ s with forceFormat := some f }.setPhase i .ready)
    else none

/-- The locked block of `Audio::open`.  After a failed `SDL_Init` it returns -1, which
the caller reads as success. -/
def openLocked (s : AudioDevice) (i : Nat) (answer : SdlAnswer) : Option AudioDevice :=
  let s := { s with audioChannleCount := s.audioChannleCount + 1 }
  if s.forceFormat = none then
    if s.sdlInit ∨ answer.initOk then
      openAudioDevice { s with sdlInit := true } i answer.device
    else some (s.setPhase i .refused)
  else some (s.setPhase i .ready)

/-- The locked block of `Audio::close`. -/
def closeLocked (s : AudioDevice) : AudioDevice :=
  let s := { s with audioChannleCount := s.audioChannleCount - 1 }
  if s.audioChannleCount = 0 then
    let s :=
      if 2 ≤ s.audioId then
        { s with devices := s.devices.erase s.audioId, audioId := 0, forceFormat := none }
      else s
    { s with audioChannels := [] }
  else s

/-- `Audio::close` up to its locked block. -/
def beginClose (s : AudioDevice) (i : Nat) : Option AudioDevice :=
  match s.sessions[i]? with
  | some .playing =>
    some ({ s with audioChan := s.audioChan ++ [ChannelMessage.removeChannel i] }.setPhase i (.closing true))
  | some .refused => some (s.setPhase i (.closing true))
  | some .started | some .noDecoder => some (s.setPhase i (.closing false))
  | _ => none

/-- The message loop of `Audio::_audioCallback`. -/
def popMessage (s : AudioDevice) : Option AudioDevice :=
  match s.audioChan with
  | [] => none
  | .addChannel i :: rest =>
    some { s with audioChan := rest, audioChannels := s.audioChannels.insert i }
  | .removeChannel i :: rest =>
    some { s with audioChan := rest, audioChannels := s.audioChannels.erase i }

def step (s : AudioDevice) : AudioAct → Option AudioDevice
  | .start => some { s with sessions := s.sessions ++ [.started] }
  | .openDecoder i ok =>
    if s.sessions[i]? = some .started then
      some (s.setPhase i (if ok then .decoding else .noDecoder))
    else none
  | .openDevice i answer =>
    if s.sessions[i]? = some .decoding then s.openLocked i answer else none
  | .addChannel i =>
    if s.sessions[i]? = some .ready then
      some ({ s with audioChan := s.audioChan ++ [ChannelMessage.addChannel i] }.setPhase i .playing)
    else none
  | .beginClose i => s.beginClose i
  | .endClose i =>
    match s.sessions[i]? with
    | some (.closing _) => some (s.closeLocked.setPhase i .closed)
    | _ => none
  | .callback => s.popMessage

/-- The number of sessions whose `open` passed the counting step and that have not
closed yet. -/
def counted (s : AudioDevice) : Nat := s.sessions.countP AudioPhase.isCounted

/-- What the count relies on: only a counted session closes. -/
def ClosesCounted (s : AudioDevice) : AudioAct → Prop
  | .endClose i => s.sessions[i]? = some (.closing true)
  | _ => True

/-- What the device relies on: `SDL_OpenAudioDevice` is called only while no device is open. -/
def OpensAlone (s : AudioDevice) : AudioAct → Prop
  | .openDevice _ answer => s.forceFormat = none → s.sdlInit ∨ answer.initOk → s.audioId < 2
  | _ => True

def Balanced (s : AudioDevice) (a : AudioAct) : Prop := s.ClosesCounted a ∧ s.OpensAlone a

instance (s : AudioDevice) : (a : AudioAct) → Decidable (s.ClosesCounted a)
  | .start | .openDecoder _ _ | .openDevice _ _ | .addChannel _ | .beginClose _ | .callback =>
    .isTrue trivial
  | .endClose i => inferInstanceAs (Decidable (s.sessions[i]? = some (.closing true)))

instance (s : AudioDevice) : (a : AudioAct) → Decidable (s.OpensAlone a)
  | .start | .openDecoder _ _ | .addChannel _ | .beginClose _ | .endClose _ | .callback =>
    .isTrue trivial
  | .openDevice _ answer =>
    inferInstanceAs (Decidable (s.forceFormat = none → s.sdlInit ∨ answer.initOk → s.audioId < 2))

instance (s : AudioDevice) (a : AudioAct) : Decidable (s.Balanced a) :=
  inferInstanceAs (Decidable (_ ∧ _))

/-! ## The number of counted sessions -/

@[simp] theorem setPhase_audioChannleCount (s : AudioDevice) (i : Nat) (p : AudioPhase) :
    (s.setPhase i p).audioChannleCount = s.audioChannleCount := rfl

@[simp] theorem setPhase_audioId (s : AudioDevice) (i : Nat) (p : AudioPhase) :
    (s.setPhase i p).audioId = s.audioId := rfl

@[simp] theorem setPhase_forceFormat (s : AudioDevice) (i : Nat) (p : AudioPhase) :
    (s.setPhase i p).forceFormat = s.forceFormat := rfl

@[simp] theorem setPhase_devices (s : AudioDevice) (i : Nat) (p : AudioPhase) :
    (s.setPhase i p).devices = s.devices := rfl

/-- A session that changes its phase moves the number by its own share. -/
theorem counted_setPhase {s : AudioDevice} {i : Nat} {p : AudioPhase} (q : AudioPhase)
    (h : s.sessions[i]? = some p) :
    (s.setPhase i q).counted + p.isCounted.toNat = s.counted + q.isCounted.toNat := by
  obtain ⟨hi, rfl⟩ := List.getElem?_eq_some_iff.mp h
  unfold counted setPhase
  rw [List.countP_set hi]
  by_cases hp : s.sessions[i].isCounted = true
  · have hpos : 0 < s.sessions.countP AudioPhase.isCounted :=
      List.countP_pos_iff.mpr ⟨_, List.getElem_mem hi, hp⟩
    cases hq : q.isCounted <;> simp [hp] <;> omega
  · cases hq : q.isCounted <;> simp [hp]

theorem counted_pos {s : AudioDevice} {i : Nat} {p : AudioPhase} (h : s.sessions[i]? = some p)
    (hp : p.isCounted = true) : 0 < s.counted :=
  List.countP_pos_iff.mpr ⟨p, List.mem_of_getElem? h, hp⟩

/-- A second counted session. -/
theorem counted_gt_one {s : AudioDevice} {i j : Nat} {p q : AudioPhase} (hij : i ≠ j)
    (hi : s.sessions[i]? = some p) (hp : p.isCounted = true) (hj : s.sessions[j]? = some q)
    (hq : q.isCounted = true) : 1 < s.counted := by
  have hrest : (s.setPhase i .closed).sessions[j]? = some q := by
    unfold setPhase
    rw [List.getElem?_set_ne hij, hj]
  have hpos := counted_pos hrest hq
  have hmove := counted_setPhase .closed hi
  have hclosed : AudioPhase.closed.isCounted.toNat = 0 := rfl
  rw [hp, Bool.toNat_true, hclosed] at hmove
  omega

/-- A session that moves between phases of equal share. -/
theorem counted_setPhase_same {s : AudioDevice} {i : Nat} {p q : AudioPhase}
    (h : s.sessions[i]? = some p) (hpq : p.isCounted = q.isCounted) :
    (s.setPhase i q).counted = s.counted := by
  have hmove := counted_setPhase q h
  rw [hpq] at hmove
  omega

theorem counted_start (s : AudioDevice) :
    counted { s with sessions := s.sessions ++ [.started] } = s.counted := by
  unfold counted
  rw [List.countP_append]
  rfl

/-- What the locked block of `open` can do. -/
inductive OpensLocked (s : AudioDevice) (i : Nat) (answer : SdlAnswer) : AudioDevice → Prop
  | shared (hf : s.forceFormat ≠ none) : OpensLocked s i answer
      ({ s with audioChannleCount := s.audioChannleCount + 1 }.setPhase i .ready)
  | initError (hf : s.forceFormat = none) (hinit : ¬(s.sdlInit ∨ answer.initOk)) :
      OpensLocked s i answer
        ({ s with audioChannleCount := s.audioChannleCount + 1 }.setPhase i .refused)
  | deviceError (hf : s.forceFormat = none) (hinit : s.sdlInit ∨ answer.initOk)
      (hdevice : answer.device = none) : OpensLocked s i answer
        ({ s with
            audioChannleCount := s.audioChannleCount + 1
            sdlInit := true
            audioId := 0 }.setPhase i .refused)
  | opened (hf : s.forceFormat = none) (hinit : s.sdlInit ∨ answer.initOk) (id : Nat)
      (format : DeviceFormat) (hdevice : answer.device = some (id, format)) (hid : 2 ≤ id) :
      OpensLocked s i answer
        ({ s with
            audioChannleCount := s.audioChannleCount + 1
            sdlInit := true
            audioId := id
            devices := id :: s.devices
            forceFormat := format.forceFormat }.setPhase i
          (if format.forceFormat = none then .refused else .ready))

theorem openLocked_cases {s t : AudioDevice} {i : Nat} {answer : SdlAnswer}
    (h : s.openLocked i answer = some t) : s.OpensLocked i answer t := by
  unfold AudioDevice.openLocked at h
  dsimp only at h
  split at h
  · next hf =>
    split at h
    · next hinit =>
      unfold openAudioDevice at h
      split at h
      · next hdevice =>
        obtain rfl := Option.some.inj h
        exact .deviceError hf hinit hdevice
      · next id format hdevice =>
        split at h
        · next hnew =>
          have hopened := OpensLocked.opened hf hinit id format hdevice hnew.1 (i := i)
          dsimp only at h
          split at h
          · next hformat =>
            obtain rfl := Option.some.inj h
            simpa [hformat, hf] using hopened
          · next f hformat =>
            obtain rfl := Option.some.inj h
            simpa [hformat] using hopened
        · cases h
    · next hinit =>
      obtain rfl := Option.some.inj h
      exact .initError hf hinit
  · next hf =>
    obtain rfl := Option.some.inj h
    exact .shared hf

@[simp] theorem closeLocked_audioChannleCount (s : AudioDevice) :
    s.closeLocked.audioChannleCount = s.audioChannleCount - 1 := by
  unfold closeLocked
  dsimp only
  split
  · split <;> rfl
  · rfl

@[simp] theorem closeLocked_sessions (s : AudioDevice) : s.closeLocked.sessions = s.sessions := by
  unfold closeLocked
  dsimp only
  split
  · split <;> rfl
  · rfl

theorem closeLocked_counted (s : AudioDevice) (i : Nat) :
    (s.closeLocked.setPhase i .closed).counted = (s.setPhase i .closed).counted := by
  unfold counted setPhase
  rw [closeLocked_sessions]

/-- Beside `openLocked` and `closeLocked` a step moves no count, and no device. -/
theorem step_outside {s t : AudioDevice} {a : AudioAct} (h : s.step a = some t)
    (hopen : ∀ i answer, a ≠ .openDevice i answer) (hclose : ∀ i, a ≠ .endClose i) :
    t.counted = s.counted ∧ t.audioChannleCount = s.audioChannleCount ∧ t.devices = s.devices ∧
      t.audioId = s.audioId ∧ t.forceFormat = s.forceFormat := by
  cases a with
  | start =>
    obtain rfl := Option.some.inj h
    exact ⟨counted_start s, rfl, rfl, rfl, rfl⟩
  | openDecoder i ok =>
    simp only [AudioDevice.step] at h
    split at h
    · next hp =>
      obtain rfl := Option.some.inj h
      exact ⟨counted_setPhase_same hp (by cases ok <;> rfl), rfl, rfl, rfl, rfl⟩
    · cases h
  | openDevice i answer => exact absurd rfl (hopen i answer)
  | addChannel i =>
    simp only [AudioDevice.step] at h
    split at h
    · next hp =>
      obtain rfl := Option.some.inj h
      exact ⟨counted_setPhase_same (s := { s with audioChan := _ }) hp rfl, rfl, rfl, rfl, rfl⟩
    · cases h
  | beginClose i =>
    simp only [AudioDevice.step, AudioDevice.beginClose] at h
    split at h
    · next hp =>
      obtain rfl := Option.some.inj h
      exact ⟨counted_setPhase_same (s := { s with audioChan := _ }) hp rfl, rfl, rfl, rfl, rfl⟩
    · next hp =>
      obtain rfl := Option.some.inj h
      exact ⟨counted_setPhase_same hp rfl, rfl, rfl, rfl, rfl⟩
    · next hp =>
      obtain rfl := Option.some.inj h
      exact ⟨counted_setPhase_same hp rfl, rfl, rfl, rfl, rfl⟩
    · next hp =>
      obtain rfl := Option.some.inj h
      exact ⟨counted_setPhase_same hp rfl, rfl, rfl, rfl, rfl⟩
    · cases h
  | endClose i => exact absurd rfl (hclose i)
  | callback =>
    simp only [AudioDevice.step, popMessage] at h
    split at h
    · cases h
    · obtain rfl := Option.some.inj h
      exact ⟨rfl, rfl, rfl, rfl, rfl⟩
    · obtain rfl := Option.some.inj h
      exact ⟨rfl, rfl, rfl, rfl, rfl⟩

/-! ## The count -/

/-- The locked block of `open` counts the session, whatever SDL answers. -/
theorem openLocked_counts {s t : AudioDevice} {i : Nat} {answer : SdlAnswer}
    (hp : s.sessions[i]? = some .decoding) (h : s.openLocked i answer = some t) :
    t.audioChannleCount = s.audioChannleCount + 1 ∧ t.counted = s.counted + 1 := by
  have hmove {q : AudioPhase} (hq : q.isCounted = true) :
      (s.setPhase i q).counted = s.counted + 1 := by
    have hshare := counted_setPhase q hp
    have hdecoding : AudioPhase.decoding.isCounted.toNat = 0 := rfl
    rw [hq, Bool.toNat_true, hdecoding] at hshare
    exact hshare
  cases openLocked_cases h with
  | shared => exact ⟨rfl, hmove rfl⟩
  | initError => exact ⟨rfl, hmove rfl⟩
  | deviceError => exact ⟨rfl, hmove rfl⟩
  | opened => exact ⟨rfl, hmove (by split <;> rfl)⟩

/-- What one step preserves if only a counted session closes. -/
theorem count_step {s t : AudioDevice} {a : AudioAct} (hcount : s.audioChannleCount = s.counted)
    (hok : s.ClosesCounted a) (h : s.step a = some t) : t.audioChannleCount = t.counted := by
  by_cases hopen : ∃ i answer, a = .openDevice i answer
  · obtain ⟨i, answer, rfl⟩ := hopen
    simp only [AudioDevice.step] at h
    split at h
    · next hp =>
      obtain ⟨hnew, hmore⟩ := openLocked_counts hp h
      omega
    · cases h
  by_cases hclose : ∃ i, a = .endClose i
  · obtain ⟨i, rfl⟩ := hclose
    have hp : s.sessions[i]? = some (.closing true) := hok
    simp only [AudioDevice.step, hp] at h
    obtain rfl := Option.some.inj h
    have hmove : (s.setPhase i .closed).counted + 1 = s.counted := counted_setPhase .closed hp
    rw [closeLocked_counted, setPhase_audioChannleCount, closeLocked_audioChannleCount]
    omega
  · obtain ⟨hsame, hcounted, -⟩ := step_outside h
      (fun i answer ha => hopen ⟨i, answer, ha⟩) fun i ha => hclose ⟨i, ha⟩
    rw [hsame, hcounted, hcount]

/-! ## The device -/

structure Inv (s : AudioDevice) : Prop where
  count : s.audioChannleCount = s.counted
  devices : s.devices = if 2 ≤ s.audioId then [s.audioId] else []
  format : s.forceFormat ≠ none → 2 ≤ s.audioId
  idle : s.counted = 0 → s.audioId < 2

theorem inv_start : Inv {} :=
  ⟨rfl, rfl, fun h => absurd rfl h, fun _ => by decide⟩

/-- `closeLocked` closes the device exactly if it uncounts the last session. -/
theorem closeLocked_of_one {s : AudioDevice} (hi : s.Inv) (h1 : s.counted = 1) :
    s.closeLocked.audioId < 2 ∧ s.closeLocked.devices = [] ∧
      s.closeLocked.forceFormat = none := by
  have hzero : s.audioChannleCount - 1 = 0 := by
    rw [hi.count, h1]
    rfl
  unfold closeLocked
  dsimp only
  rw [if_pos hzero]
  by_cases hid : 2 ≤ s.audioId
  · rw [if_pos hid]
    refine ⟨Nat.zero_lt_two, ?_, rfl⟩
    show s.devices.erase s.audioId = []
    rw [hi.devices, if_pos hid, List.erase_cons_head]
  · rw [if_neg hid]
    refine ⟨Nat.lt_of_not_le hid, ?_, ?_⟩
    · show s.devices = []
      rw [hi.devices, if_neg hid]
    · show s.forceFormat = none
      by_contra hf
      exact hid (hi.format hf)

theorem closeLocked_of_more {s : AudioDevice} (hi : s.Inv) (h1 : 1 < s.counted) :
    s.closeLocked = { s with audioChannleCount := s.audioChannleCount - 1 } := by
  have hne : s.audioChannleCount - 1 ≠ 0 := by
    have hcount := hi.count
    omega
  unfold closeLocked
  dsimp only
  rw [if_neg hne]

/-- The locked block of `open` in a run in which no device is open. -/
theorem Inv.openLocked {s t : AudioDevice} {i : Nat} {answer : SdlAnswer} (hi : s.Inv)
    (hp : s.sessions[i]? = some .decoding) (hok : s.OpensAlone (.openDevice i answer))
    (h : s.openLocked i answer = some t) : t.Inv := by
  obtain ⟨hnew, hmore⟩ := openLocked_counts hp h
  have hcount : t.audioChannleCount = t.counted := by
    have hcount := hi.count
    omega
  have hidle : t.counted = 0 → t.audioId < 2 := by omega
  have hnone : s.forceFormat = none → s.sdlInit ∨ answer.initOk → s.devices = [] := by
    intro hf hinit
    rw [hi.devices, if_neg (Nat.not_le.mpr (hok hf hinit))]
  cases openLocked_cases h with
  | shared => exact ⟨hcount, hi.devices, hi.format, hidle⟩
  | initError => exact ⟨hcount, hi.devices, hi.format, hidle⟩
  | deviceError hf hinit => exact ⟨hcount, hnone hf hinit, fun h => absurd hf h, hidle⟩
  | opened hf hinit id format hdevice hid =>
    refine ⟨hcount, ?_, fun _ => hid, hidle⟩
    show id :: s.devices = if 2 ≤ id then [id] else []
    rw [hnone hf hinit, if_pos hid]

/-- The locked block of `close` of a counted session. -/
theorem Inv.closeLocked {s : AudioDevice} {i : Nat} (hi : s.Inv)
    (hp : s.sessions[i]? = some (.closing true)) : (s.closeLocked.setPhase i .closed).Inv := by
  have hmove : (s.setPhase i .closed).counted + 1 = s.counted := counted_setPhase .closed hp
  have hcount : (s.closeLocked.setPhase i .closed).audioChannleCount =
      (s.closeLocked.setPhase i .closed).counted :=
    count_step hi.count (a := .endClose i) hp (by simp only [AudioDevice.step, hp])
  have hn := closeLocked_counted s i
  by_cases h1 : s.counted = 1
  · obtain ⟨hid, hd, hf⟩ := closeLocked_of_one hi h1
    refine ⟨hcount, ?_, fun h => absurd hf h, fun _ => hid⟩
    rw [setPhase_devices, setPhase_audioId, hd, if_neg (by omega)]
  · have hmore : 1 < s.counted := by omega
    rw [closeLocked_of_more hi hmore] at hcount hn ⊢
    refine ⟨hcount, hi.devices, hi.format, fun h0 => ?_⟩
    rw [hn] at h0
    omega

/-- What one balanced step preserves. -/
theorem Inv.step {s t : AudioDevice} {a : AudioAct} (hi : s.Inv) (hok : s.Balanced a)
    (h : s.step a = some t) : t.Inv := by
  by_cases hopen : ∃ i answer, a = .openDevice i answer
  · obtain ⟨i, answer, rfl⟩ := hopen
    simp only [AudioDevice.step] at h
    split at h
    · next hp => exact hi.openLocked hp hok.2 h
    · cases h
  by_cases hclose : ∃ i, a = .endClose i
  · obtain ⟨i, rfl⟩ := hclose
    have hp : s.sessions[i]? = some (.closing true) := hok.1
    simp only [AudioDevice.step, hp] at h
    obtain rfl := Option.some.inj h
    exact hi.closeLocked hp
  · obtain ⟨hsame, hcount, hdevices, hid, hformat⟩ := step_outside h
      (fun i answer ha => hopen ⟨i, answer, ha⟩) fun i ha => hclose ⟨i, ha⟩
    refine ⟨by rw [hcount, hsame, hi.count], by rw [hdevices, hid, hi.devices], ?_, ?_⟩
    · rw [hformat, hid]
      exact hi.format
    · rw [hsame, hid]
      exact hi.idle

theorem inv_of_reach {s : AudioDevice} (h : ReachIf step Balanced {} s) : s.Inv :=
  h.invariant inv_start fun _ _ _ hi hok hs => hi.step hok hs

/-- A close that leaves a counted session behind touches neither the device nor the
channels. -/
theorem Inv.close_keeps_device {s t : AudioDevice} {a : AudioAct} {i j : Nat} {p : AudioPhase}
    (hi : s.Inv) (ha : a = .beginClose i ∨ a = .endClose i) (hok : s.Balanced a)
    (h : s.step a = some t) (hij : i ≠ j) (hj : s.sessions[j]? = some p)
    (hp : p.isCounted = true) : t.devices = s.devices ∧ t.audioChannels = s.audioChannels := by
  rcases ha with rfl | rfl
  · simp only [AudioDevice.step, AudioDevice.beginClose] at h
    split at h <;> cases h <;> exact ⟨rfl, rfl⟩
  · have hc : s.sessions[i]? = some (.closing true) := hok.1
    have hmore := counted_gt_one hij hc rfl hj hp
    simp only [AudioDevice.step, hc, closeLocked_of_more hi hmore] at h
    cases h
    exact ⟨rfl, rfl⟩

/-- Uncounting a session that was never counted leaves the count short. -/
theorem Inv.close_uncounted {s t : AudioDevice} {i : Nat} (hi : s.Inv)
    (hp : s.sessions[i]? = some (.closing false)) (h : s.step (.endClose i) = some t) :
    t.audioChannleCount = t.counted - 1 := by
  have hmove : (s.setPhase i .closed).counted = s.counted := counted_setPhase .closed hp
  have hcount := hi.count
  simp only [AudioDevice.step, hp] at h
  cases h
  rw [closeLocked_counted, setPhase_audioChannleCount, closeLocked_audioChannleCount]
  omega

end AudioDevice

open AudioDevice

/-- In a run whose steps are all balanced the count is the number of counted sessions,
a close next to a counted session leaves the device and the channels alone, and without
counted sessions no device is open. -/
theorem audio_count_tracks_sessions (s : AudioDevice) (h : ReachIf step Balanced {} s) :
    s.audioChannleCount = s.counted ∧
      (∀ i j p a t, (a = .beginClose i ∨ a = .endClose i) → s.Balanced a → s.step a = some t →
        i ≠ j → s.sessions[j]? = some p → p.isCounted = true →
        t.devices = s.devices ∧ t.audioChannels = s.audioChannels) ∧
      (s.counted = 0 → s.devices = []) := by
  have hi := inv_of_reach h
  refine ⟨hi.count, ?_, ?_⟩
  · intro i j p a t ha hok hs hij hj hp
    exact hi.close_keeps_device ha hok hs hij hj hp
  · intro h0
    have hid := hi.idle h0
    rw [hi.devices, if_neg (by omega)]

/-- Two sessions open audio, the first one closes. -/
def twoSessions : List AudioAct :=
  [.start, .openDecoder 0 true, .openDevice 0 ⟨true, some (2, .f32sys)⟩, .addChannel 0, .start,
    .openDecoder 1 true, .openDevice 1 ⟨true, none⟩, .addChannel 1, .callback, .callback,
    .beginClose 0, .endClose 0]

theorem audio_count_tracks_two_sessions :
    ∃ s : AudioDevice, s.audioChannleCount = s.counted ∧ s.counted = 1 ∧ s.devices = [2] := by
  obtain ⟨s, hs, hp⟩ := reach_of_any (guarded step Balanced) {} twoSessions
    (fun s => s.counted = 1 ∧ s.devices = [2]) (by decide)
  exact ⟨s, (audio_count_tracks_sessions s (reachIf_of_guarded hs)).1, by simpa using hp⟩

/-- Session 0 plays; session 1 has no audio stream and closes. -/
def closeWithoutAudio : List AudioAct :=
  [.start, .openDecoder 0 true, .openDevice 0 ⟨true, some (2, .f32sys)⟩, .addChannel 0,
    .callback, .start, .beginClose 1, .endClose 1]

/-- The close of session 1 takes the count to 0: it closes the device and clears the
channels under session 0. -/
theorem audio_close_uncounted_stops_device :
    ∃ s, Reach step {} s ∧ s.sessions = [.playing, .closed] ∧ s.counted = 1 ∧
      s.audioChannleCount = 0 ∧ s.devices = [] ∧ s.audioChannels = [] := by
  obtain ⟨s, hs, hp⟩ := reach_of_any step {} closeWithoutAudio
    (fun s => s.sessions = [.playing, .closed] ∧ s.counted = 1 ∧ s.audioChannleCount = 0 ∧
      s.devices = [] ∧ s.audioChannels = []) (by decide)
  exact ⟨s, hs, by simpa using hp⟩

end VideoPlayerCore
