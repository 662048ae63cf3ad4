import VideoPlayerCore.ChannelReset
import VideoPlayerCore.DeviceChannels

/-!
# `Audio::_audioCallback` with the channels of all sessions

The callback reads its messages, fills the device's buffer with silence and goes through its
channels, in whatever order the set of channels has: from each it takes a block if one is there.
The display threads write blocks meanwhile, and reset their rings at the end of a stream.  All
that is done on a ring is a step of `ChannelSteps`; what `SDL_MixAudioFormat` makes of buffer,
samples and volume is open.

    the channel of each session runs as `ChannelState.step` does                    (ring_reach)
    s.mixed i <+: (s.rings i).blocks, apart from torn resets
    stream = silence with the blocks of the callback mixed into it      (device_plays_published)

`SDL_CloseAudioDevice` returns when the callback is done, so a close that brings the count to
0 clears the channels between two callbacks.
-/

namespace VideoPlayerCore

open Machine Rosters

variable {W : Nat}

/-- A block that was mixed: the `double` at its start, and the samples. -/
structure Pick where
  session : Nat
  block : List UInt8
  volume : Int
  deriving DecidableEq

/-- The device's buffer is `len` bytes long; `mix` is `SDL_MixAudioFormat`. -/
structure Sdl where
  len : Nat
  mix : List UInt8 → List UInt8 → Int → List UInt8

namespace Sdl

/-- `memset(stream, 0, len)` -/
def silence (sdl : Sdl) : List UInt8 := List.replicate sdl.len 0

/-- `SDL_MixAudioFormat(stream, aBuf + 8, _spec.format, len, audio->volume)` -/
def mixPick (sdl : Sdl) (stream : List UInt8) (p : Pick) : List UInt8 :=
  sdl.mix stream ((p.block.drop 8).take sdl.len) p.volume

/-- The buffer behind the callback. -/
def play (sdl : Sdl) (picks : List Pick) : List UInt8 := picks.foldl sdl.mixPick sdl.silence

theorem play_concat (sdl : Sdl) (picks : List Pick) (p : Pick) :
    sdl.play (picks ++ [p]) = sdl.mixPick (sdl.play picks) p := by
  unfold play
  rw [List.foldl_append, List.foldl_cons, List.foldl_nil]

end Sdl

/-- Where the callback stands. -/
inductive MixPc
  | idle
  /-- `while (_audioChan.try_pop(msg))` -/
  | reading
  /-- the loop over `_audioChannels`, with the channels that it has before it -/
  | looping (left : List Nat)
  /-- it has a block of this channel -/
  | holding (i : Nat) (left : List Nat)
  deriving DecidableEq

/-- A run of the callback: the channels in the order of the loop, and what it did. -/
structure MixRun where
  order : List Nat := []
  picks : List Pick := []
  stream : List UInt8 := []
  deriving DecidableEq

structure DeviceMix (W : Nat) where
  device : AudioDevice := {}
  rings : Nat → ChannelState W
  volumes : Nat → Int
  callback : MixPc := .idle
  /-- the callback that runs -/
  current : MixRun := {}
  /-- the callbacks before it -/
  played : List MixRun := []

inductive MixAct
  /-- a step of a session's `open` or `close` -/
  | session (a : AudioAct)
  /-- a session's display thread at its ring -/
  | display (i : Nat) (a : ChannelAct)
  /-- `_channel->volume = _volume` -/
  | setVolume (i : Nat) (value : Int)
  /-- SDL calls the callback. -/
  | wake
  | read
  /-- no message is left -/
  | silence (order : List Nat)
  /-- the callback at the ring of the channel in turn -/
  | channel (a : ChannelAct)
  | finish

/-- The callback's side of a ring. -/
def ChannelAct.byCallback : ChannelAct → Bool
  | .beginRead | .loadWrite | .updateAudioPts | .mix | .endRead | .storeRead => true
  | _ => false

/-- `begin_read` has returned a block. -/
def ChannelState.holds (s : ChannelState W) : Bool :=
  match s.q.consumer with
  | .reading _ _ _ => true
  | _ => false

/-- The block that `begin_read` has returned. -/
def ChannelState.held (s : ChannelState W) : List UInt8 :=
  match s.q.consumer with
  | .reading call slot _ => s.q.ring.window slot call.frames
  | _ => []

/-! ## What a step on a ring does to the blocks that were mixed -/

namespace ChannelState

variable {F : BitVec W} {s t : ChannelState W} {a : ChannelAct}

theorem step_display (h : s.step F a = some t) (ha : a.byCallback = false) :
    t.mixed = s.mixed ∧ t.callback = s.callback := by
  have hdisplay {b : RingAct W UInt8} (h : s.display b = some t) :
      t.mixed = s.mixed ∧ t.callback = s.callback := by
    unfold ChannelState.display at h
    split at h
    · obtain ⟨q, -, rfl⟩ := Option.map_eq_some_iff.mp h
      exact ⟨rfl, rfl⟩
    · cases h
  cases a with
  | beginWrite | loadRead | fill | endWrite => exact hdisplay h
  | storeWrite =>
    simp only [ChannelState.step, ChannelState.storeWrite] at h
    split at h
    · obtain ⟨u, hu, rfl⟩ := Option.map_eq_some_iff.mp h
      unfold ChannelState.display at hu
      split at hu
      · obtain ⟨q, -, rfl⟩ := Option.map_eq_some_iff.mp hu
        exact ⟨rfl, rfl⟩
      · cases hu
    · cases h
  | eofMarker | pollRead | pollWrite | resetWrite | resetRead | clear =>
    simp only [ChannelState.step, ChannelState.eofMarker, ChannelState.pollRead,
      ChannelState.pollWrite, ChannelState.resetWrite, ChannelState.resetRead,
      ChannelState.clear] at h
    (repeat' split at h) <;> cases h <;> exact ⟨rfl, rfl⟩
  | beginRead | loadWrite | updateAudioPts | mix | endRead | storeRead => cases ha

theorem step_onCallback {b : RingAct W UInt8} (h : s.onCallback b = some t) :
    t.mixed = s.mixed ∧ t.callback = s.callback := by
  obtain ⟨q, -, rfl⟩ := Option.map_eq_some_iff.mp h
  exact ⟨rfl, rfl⟩

theorem step_updateAudioPts (h : s.updateAudioPts = some t) :
    t.mixed = s.mixed ∧ s.callback = .fresh := by
  unfold ChannelState.updateAudioPts at h
  split at h
  · next hcallback =>
    obtain rfl := Option.some.inj h
    exact ⟨rfl, hcallback⟩
  · cases h

theorem step_mix (h : s.mix = some t) :
    t.mixed = s.mixed ++ [s.held] ∧ s.callback = .timed ∧ t.callback = .mixed := by
  unfold ChannelState.mix at h
  unfold held
  split at h
  · next hconsumer hcallback =>
    obtain rfl := Option.some.inj h
    rw [hconsumer]
    exact ⟨rfl, hcallback, rfl⟩
  · cases h

theorem step_endRead (h : s.endRead = some t) :
    t.mixed = s.mixed ∧ t.callback = s.callback := by
  unfold ChannelState.endRead at h
  split at h
  · exact step_onCallback h
  · cases h

theorem step_storeRead (h : s.storeRead = some t) : t.mixed = s.mixed := by
  obtain ⟨u, hu, rfl⟩ := Option.map_eq_some_iff.mp h
  exact (step_onCallback hu).1

end ChannelState

namespace DeviceMix

variable (sdl : Sdl) (F : BitVec W) (s : DeviceMix W)

def start (bufs : Nat → AudioRingBuffer W UInt8) (volumes : Nat → Int) : DeviceMix W :=
  { rings := fun i => .start (bufs i), volumes := volumes }

def setRing (i : Nat) (ring : ChannelState W) : DeviceMix W :=
  { s with rings := Function.update s.rings i ring }

/-- The callback reads its own messages. -/
def sessionStep (a : AudioAct) : Option (DeviceMix W) :=
  match a with
  | .callback => none
  | .endClose i =>
    if s.callback = .idle ∨ s.device.audioChannleCount ≠ 1 then
      (s.device.step (.endClose i)).map fun device => { s with device := device }
    else none
  | a => (s.device.step a).map fun device => { s with device := device }

/-- The thread runs until `Audio::close` waits for it, behind which it takes the channel back. -/
def display (i : Nat) (a : ChannelAct) : Option (DeviceMix W) :=
  if s.device.Plays i ∧ a.byCallback = false then ((s.rings i).step F a).map (s.setRing i)
  else none

/-- The channel that the callback is at. -/
def turn : Option Nat :=
  match s.callback with
  | .looping (i :: _) | .holding i _ => some i
  | _ => none

/-- The body of the loop over the channels, access by access. -/
def channel (a : ChannelAct) : Option (DeviceMix W) :=
  match s.callback, a with
  | .looping (i :: _), .beginRead => ((s.rings i).step F .beginRead).map (s.setRing i)
  | .looping (i :: left), .loadWrite =>
    ((s.rings i).step F .loadWrite).map fun ring =>
      { s.setRing i ring with callback := if ring.holds then .holding i left else .looping left }
  | .holding i _, .updateAudioPts => ((s.rings i).step F .updateAudioPts).map (s.setRing i)
  | .holding i _, .mix =>
    let pick : Pick := { session := i, block := (s.rings i).held, volume := s.volumes i }
    ((s.rings i).step F .mix).map fun ring =>
      { s.setRing i ring with
        current := { s.current with
          picks := s.current.picks ++ [pick], stream := sdl.mixPick s.current.stream pick } }
  | .holding i _, .endRead => ((s.rings i).step F .endRead).map (s.setRing i)
  | .holding i left, .storeRead =>
    ((s.rings i).step F .storeRead).map fun ring =>
      { s.setRing i ring with callback := .looping left }
  | _, _ => none

def step : MixAct → Option (DeviceMix W)
  | .session a => s.sessionStep a
  | .display i a => s.display F i a
  | .setVolume i value => some { s with volumes := Function.update s.volumes i value }
  | .wake =>
    if s.callback = .idle ∧ s.device.devices ≠ [] then some { s with callback := .reading }
    else none
  | .read =>
    match s.callback with
    | .reading => s.device.popMessage.map fun device => { s with device := device }
    | _ => none
  | .silence order =>
    if s.callback = .reading ∧ s.device.audioChan = [] ∧ order.Perm s.device.audioChannels then
      some { s with
        callback := .looping order
        current := { order := order, stream := sdl.silence } }
    else none
  | .channel a => s.channel sdl F a
  | .finish =>
    match s.callback with
    | .looping [] => some { s with
        callback := .idle, current := {}, played := s.played ++ [s.current] }
    | _ => none

/-- All that was mixed, in order. -/
def picks : List Pick := (s.played ++ [s.current]).flatMap MixRun.picks

/-- The blocks of a session that were mixed. -/
def mixed (i : Nat) : List (List UInt8) := (s.picks.filter (·.session = i)).map Pick.block

/-- `ResetApart`, for the channel in turn. -/
def Apart (s : DeviceMix W) : MixAct → Prop
  | .channel a => ∀ i ∈ s.turn, ResetApart (s.rings i) a
  | _ => True

/-- Only counted sessions close. -/
def ClosesCounted (s : DeviceMix W) : MixAct → Prop
  | .session a => s.device.ClosesCounted a
  | _ => True

instance (s : DeviceMix W) : (a : MixAct) → Decidable (s.Apart a)
  | .channel _ =>
    -- not the instance that tries every number
    Option.decidableForallMem _
  | .session _ | .display _ _ | .setVolume _ _ | .wake | .read | .silence _ | .finish =>
    .isTrue trivial

/-! ## One step -/

variable {sdl F s} {t : DeviceMix W} {i : Nat}

theorem sessionStep_cases {a : AudioAct} (h : s.sessionStep a = some t) :
    ∃ device, s.device.step a = some device ∧ t = { s with device := device } := by
  unfold sessionStep at h
  split at h
  · cases h
  · split at h
    · obtain ⟨device, hdevice, rfl⟩ := Option.map_eq_some_iff.mp h
      exact ⟨device, hdevice, rfl⟩
    · cases h
  · obtain ⟨device, hdevice, rfl⟩ := Option.map_eq_some_iff.mp h
    exact ⟨device, hdevice, rfl⟩

/-- What the callback does at the ring of the channel in turn. -/
inductive Turned (sdl : Sdl) (F : BitVec W) (s : DeviceMix W) (i : Nat) (ring : ChannelState W) :
    ChannelAct → DeviceMix W → Prop
  | looks {left : List Nat} (hcallback : s.callback = .looping (i :: left)) :
      Turned sdl F s i ring .beginRead (s.setRing i ring)
  | finds {left : List Nat} (hcallback : s.callback = .looping (i :: left)) :
      Turned sdl F s i ring .loadWrite { s.setRing i ring with callback := .holding i left }
  | passes {left : List Nat} (hcallback : s.callback = .looping (i :: left)) :
      Turned sdl F s i ring .loadWrite { s.setRing i ring with callback := .looping left }
  | times {left : List Nat} (hcallback : s.callback = .holding i left) :
      Turned sdl F s i ring .updateAudioPts (s.setRing i ring)
  | mixes {left : List Nat} (hcallback : s.callback = .holding i left) (pick : Pick)
      (hpick : pick = { session := i, block := (s.rings i).held, volume := s.volumes i }) :
      Turned sdl F s i ring .mix { s.setRing i ring with
        current := { s.current with
          picks := s.current.picks ++ [pick], stream := sdl.mixPick s.current.stream pick } }
  | ends {left : List Nat} (hcallback : s.callback = .holding i left) :
      Turned sdl F s i ring .endRead (s.setRing i ring)
  | leaves {left : List Nat} (hcallback : s.callback = .holding i left) :
      Turned sdl F s i ring .storeRead { s.setRing i ring with callback := .looping left }

theorem channel_cases {a : ChannelAct} (h : s.channel sdl F a = some t) :
    ∃ i ring, i ∈ s.turn ∧ (s.rings i).step F a = some ring ∧ Turned sdl F s i ring a t := by
  unfold DeviceMix.channel at h
  unfold turn
  split at h
  · next i left hcallback =>
    obtain ⟨ring, hring, rfl⟩ := Option.map_eq_some_iff.mp h
    exact ⟨i, ring, by rw [hcallback]; rfl, hring, .looks hcallback⟩
  · next i left hcallback =>
    obtain ⟨ring, hring, rfl⟩ := Option.map_eq_some_iff.mp h
    refine ⟨i, ring, by rw [hcallback]; rfl, hring, ?_⟩
    split
    · exact .finds hcallback
    · exact .passes hcallback
  · next i left hcallback =>
    obtain ⟨ring, hring, rfl⟩ := Option.map_eq_some_iff.mp h
    exact ⟨i, ring, by rw [hcallback]; rfl, hring, .times hcallback⟩
  · next i left hcallback =>
    obtain ⟨ring, hring, rfl⟩ := Option.map_eq_some_iff.mp h
    exact ⟨i, ring, by rw [hcallback]; rfl, hring, .mixes hcallback _ rfl⟩
  · next i left hcallback =>
    obtain ⟨ring, hring, rfl⟩ := Option.map_eq_some_iff.mp h
    exact ⟨i, ring, by rw [hcallback]; rfl, hring, .ends hcallback⟩
  · next i left hcallback =>
    obtain ⟨ring, hring, rfl⟩ := Option.map_eq_some_iff.mp h
    exact ⟨i, ring, by rw [hcallback]; rfl, hring, .leaves hcallback⟩
  · cases h

namespace Turned

variable {ring : ChannelState W} {a : ChannelAct}

theorem rings (h : Turned sdl F s i ring a t) : t.rings = Function.update s.rings i ring := by
  cases h <;> rfl

theorem device (h : Turned sdl F s i ring a t) : t.device = s.device := by
  cases h <;> rfl

theorem played (h : Turned sdl F s i ring a t) : t.played = s.played := by
  cases h <;> rfl

end Turned

/-- A step is one of the device, or one of a ring, or touches neither. -/
inductive Parts (F : BitVec W) (s : DeviceMix W) (a : MixAct) (t : DeviceMix W) : Prop
  | device (b : AudioAct) (hcounted : s.ClosesCounted a → s.device.ClosesCounted b)
      (hstep : s.device.step b = some t.device) (hrings : t.rings = s.rings) : Parts F s a t
  | ring (i : Nat) (b : ChannelAct) (ring : ChannelState W)
      (hapart : s.Apart a → ResetApart (s.rings i) b) (hstep : (s.rings i).step F b = some ring)
      (hrings : t.rings = Function.update s.rings i ring) (hdevice : t.device = s.device) :
      Parts F s a t
  | neither (hdevice : t.device = s.device) (hrings : t.rings = s.rings) : Parts F s a t

theorem step_parts {a : MixAct} (h : s.step sdl F a = some t) : Parts F s a t := by
  cases a with
  | session a =>
    obtain ⟨device, hdevice, rfl⟩ := sessionStep_cases h
    exact .device a (fun hok => hok) hdevice rfl
  | display i a =>
    simp only [DeviceMix.step, DeviceMix.display] at h
    split at h
    · next hready =>
      obtain ⟨ring, hring, rfl⟩ := Option.map_eq_some_iff.mp h
      refine .ring i a ring (fun _ hload => ?_) hring rfl rfl
      rw [hload] at hready
      cases hready.2
    · cases h
  | setVolume i value =>
    obtain rfl := Option.some.inj h
    exact .neither rfl rfl
  | wake =>
    simp only [DeviceMix.step] at h
    split at h
    · obtain rfl := Option.some.inj h
      exact .neither rfl rfl
    · cases h
  | read =>
    simp only [DeviceMix.step] at h
    split at h
    · obtain ⟨device, hdevice, rfl⟩ := Option.map_eq_some_iff.mp h
      exact .device .callback (fun _ => trivial) hdevice rfl
    · cases h
  | silence order =>
    simp only [DeviceMix.step] at h
    split at h
    · obtain rfl := Option.some.inj h
      exact .neither rfl rfl
    · cases h
  | channel a =>
    obtain ⟨i, ring, hturn, hring, hturned⟩ := channel_cases h
    exact .ring i a ring (fun hapart => hapart i hturn) hring hturned.rings hturned.device
  | finish =>
    simp only [DeviceMix.step] at h
    split at h
    · obtain rfl := Option.some.inj h
      exact .neither rfl rfl
    · cases h

/-- What the sessions see is a run of their own. -/
theorem device_reach {s₀ : DeviceMix W} (h : Reach (step sdl F) s₀ s) :
    Reach AudioDevice.step s₀.device s.device := by
  induction h with
  | refl => exact .refl
  | tail _ _ hs ih =>
    cases step_parts hs with
    | device b _ hb => exact ih.tail trivial hb
    | ring _ _ _ _ _ _ hsame => exact hsame ▸ ih
    | neither hsame => exact hsame ▸ ih

theorem device_counted {s₀ : DeviceMix W} (h : ReachIf (step sdl F) ClosesCounted s₀ s) :
    ReachIf AudioDevice.step AudioDevice.ClosesCounted s₀.device s.device := by
  induction h with
  | refl => exact .refl
  | tail _ hok hs ih =>
    cases step_parts hs with
    | device b hcounted hb => exact ih.tail (hcounted hok) hb
    | ring _ _ _ _ _ _ hsame => exact hsame ▸ ih
    | neither hsame => exact hsame ▸ ih

/-- Between torn resets the channel of each session runs as it does alone. -/
theorem ring_reach {s₀ : DeviceMix W} (h : ReachIf (step sdl F) Apart s₀ s) (i : Nat) :
    ReachIf (ChannelState.step F) ResetApart (s₀.rings i) (s.rings i) := by
  induction h with
  | refl => exact .refl
  | tail _ hok hs ih =>
    cases step_parts hs with
    | device _ _ _ hsame => exact hsame ▸ ih
    | ring j b ring hapart hring hrings =>
      rw [hrings]
      by_cases hi : i = j
      · subst hi
        rw [Function.update_self]
        exact ih.tail (hapart hok) hring
      · rw [Function.update_of_ne hi]
        exact ih
    | neither _ hsame => exact hsame ▸ ih

end DeviceMix

/-! ## What was mixed -/

/-- The callback mixed at most one block of each channel, in the order of its loop. -/
structure MixRun.Right (sdl : Sdl) (r : MixRun) : Prop where
  stream : r.stream = sdl.play r.picks
  sessions : (r.picks.map Pick.session).Sublist r.order
  nodup : r.order.Nodup

/-- While the callback holds a block, it may still mix it, or has. -/
def CallbackPhase.ahead (i : Nat) (left : List Nat) : CallbackPhase → List Nat
  | .fresh | .timed => i :: left
  | .mixed => left

theorem CallbackPhase.ahead_sublist (i : Nat) (left : List Nat) (phase : CallbackPhase) :
    (phase.ahead i left).Sublist (i :: left) := by
  cases phase with
  | fresh => exact List.Sublist.refl _
  | timed => exact List.Sublist.refl _
  | mixed => exact List.sublist_cons_self i left

theorem CallbackPhase.sublist_ahead (i : Nat) (left : List Nat) (phase : CallbackPhase) :
    left.Sublist (phase.ahead i left) := by
  cases phase with
  | fresh => exact List.sublist_cons_self i left
  | timed => exact List.sublist_cons_self i left
  | mixed => exact List.Sublist.refl _

namespace DeviceMix

variable {sdl : Sdl} {F : BitVec W} {s t : DeviceMix W} {i : Nat}

/-- The channels of which the callback may still mix a block. -/
def ahead (s : DeviceMix W) : List Nat :=
  match s.callback with
  | .looping left => left
  | .holding i left => (s.rings i).callback.ahead i left
  | _ => []

/-- The callback that runs. -/
structure Running (sdl : Sdl) (s : DeviceMix W) : Prop where
  stream : s.current.stream = sdl.play s.current.picks
  sessions : (s.current.picks.map Pick.session ++ s.ahead).Sublist s.current.order
  nodup : s.current.order.Nodup

def CurrentRight (sdl : Sdl) (s : DeviceMix W) : Prop :=
  match s.callback with
  | .idle | .reading => s.current = {}
  | .looping _ | .holding _ _ => s.Running sdl

structure Mixes (sdl : Sdl) (s : DeviceMix W) : Prop where
  mixed : ∀ i, s.mixed i = (s.rings i).mixed
  played : ∀ r ∈ s.played, r.Right sdl
  current : s.CurrentRight sdl

theorem picks_eq (s : DeviceMix W) :
    s.picks = s.played.flatMap MixRun.picks ++ s.current.picks := by
  unfold picks
  rw [List.flatMap_append, List.flatMap_singleton]

theorem mixed_congr (h : t.picks = s.picks) (i : Nat) : t.mixed i = s.mixed i := by
  unfold mixed
  rw [h]

theorem picks_congr (hplayed : t.played = s.played)
    (hcurrent : t.current.picks = s.current.picks) : t.picks = s.picks := by
  rw [picks_eq, picks_eq, hplayed, hcurrent]

theorem mixed_of_pick {p : Pick} (hplayed : t.played = s.played)
    (hcurrent : t.current.picks = s.current.picks ++ [p]) (i : Nat) :
    t.mixed i = s.mixed i ++ if p.session = i then [p.block] else [] := by
  unfold mixed
  rw [picks_eq, picks_eq, hplayed, hcurrent, ← List.append_assoc, List.filter_append,
    List.map_append]
  by_cases hp : p.session = i
  · rw [if_pos hp, List.filter_cons_of_pos (by simpa using hp), List.filter_nil, List.map_singleton]
  · rw [if_neg hp, List.filter_cons_of_neg (by simpa using hp), List.filter_nil, List.map_nil]

/-- The callback does nothing, and no block is mixed. -/
theorem Mixes.aside (h : Mixes sdl s) (hrings : ∀ i, (t.rings i).mixed = (s.rings i).mixed ∧
      (t.rings i).callback = (s.rings i).callback) (hplayed : t.played = s.played)
    (hcurrent : t.current = s.current) (hcallback : t.callback = s.callback) : Mixes sdl t := by
  refine ⟨fun i => ?_, by rw [hplayed]; exact h.played, ?_⟩
  · rw [mixed_congr (picks_congr hplayed (by rw [hcurrent])), (hrings i).1]
    exact h.mixed i
  · have hright := h.current
    have hahead : t.ahead = s.ahead := by
      unfold ahead
      rw [hcallback]
      split
      · rfl
      · rw [(hrings _).2]
      · rfl
    unfold CurrentRight at hright ⊢
    rw [hcallback]
    split at hright
    · rwa [hcurrent]
    · rwa [hcurrent]
    · exact ⟨by rw [hcurrent]; exact hright.stream, by rw [hcurrent, hahead]; exact hright.sessions,
        by rw [hcurrent]; exact hright.nodup⟩
    · exact ⟨by rw [hcurrent]; exact hright.stream, by rw [hcurrent, hahead]; exact hright.sessions,
        by rw [hcurrent]; exact hright.nodup⟩

theorem ring_mixed {ring : ChannelState W} (hrings : t.rings = Function.update s.rings i ring)
    (hmixed : ring.mixed = (s.rings i).mixed) (j : Nat) :
    (t.rings j).mixed = (s.rings j).mixed := by
  rw [hrings]
  by_cases hj : j = i
  · rw [hj, Function.update_self, hmixed]
  · rw [Function.update_of_ne hj]

theorem Running.current (h : s.Running sdl) (hidle : s.callback ≠ .idle)
    (hreading : s.callback ≠ .reading) : s.CurrentRight sdl := by
  unfold CurrentRight
  split
  · next hcallback => exact absurd hcallback hidle
  · next hcallback => exact absurd hcallback hreading
  · exact h
  · exact h

/-- The callback goes on at a ring without a block more. -/
theorem Mixes.onward {ring : ChannelState W} (h : Mixes sdl s) (hrun : s.Running sdl)
    (hrings : t.rings = Function.update s.rings i ring)
    (hmixed : ring.mixed = (s.rings i).mixed) (hplayed : t.played = s.played)
    (hcurrent : t.current = s.current) (hahead : t.ahead.Sublist s.ahead)
    (hidle : t.callback ≠ .idle) (hreading : t.callback ≠ .reading) : Mixes sdl t := by
  refine ⟨fun j => ?_, by rw [hplayed]; exact h.played, Running.current ?_ hidle hreading⟩
  · rw [mixed_congr (picks_congr hplayed (by rw [hcurrent])), ring_mixed hrings hmixed]
    exact h.mixed j
  · refine ⟨by rw [hcurrent]; exact hrun.stream, ?_, by rw [hcurrent]; exact hrun.nodup⟩
    rw [hcurrent]
    exact (hahead.append_left _).trans hrun.sessions

/-- The callback mixes the block that it holds. -/
theorem Mixes.mix {ring : ChannelState W} {left : List Nat} {pick : Pick} (h : Mixes sdl s)
    (hcallback : s.callback = .holding i left) (hrun : s.Running sdl)
    (hring : (s.rings i).step F .mix = some ring)
    (hpick : pick = { session := i, block := (s.rings i).held, volume := s.volumes i })
    (hrings : t.rings = Function.update s.rings i ring) (hplayed : t.played = s.played)
    (hcurrent : t.current = { s.current with
      picks := s.current.picks ++ [pick], stream := sdl.mixPick s.current.stream pick })
    (hstays : t.callback = s.callback) : Mixes sdl t := by
  obtain ⟨hmixed, htimed, hphase⟩ := ChannelState.step_mix hring
  have hahead : s.ahead = i :: left := by
    unfold ahead
    rw [hcallback]
    dsimp only
    rw [htimed]
    rfl
  have hahead' : t.ahead = left := by
    unfold ahead
    rw [hstays, hcallback]
    dsimp only
    rw [hrings, Function.update_self, hphase]
    rfl
  have hsessions := hrun.sessions
  rw [hahead] at hsessions
  refine ⟨fun j => ?_, by rw [hplayed]; exact h.played, Running.current ⟨?_, ?_, ?_⟩ ?_ ?_⟩
  · rw [mixed_of_pick hplayed (by rw [hcurrent]), h.mixed j, hrings, hpick]
    by_cases hj : j = i
    · rw [hj, Function.update_self, hmixed, if_pos rfl]
    · rw [Function.update_of_ne hj, if_neg (Ne.symm hj), List.append_nil]
  · rw [hcurrent, Sdl.play_concat, ← hrun.stream]
  · -- the channel is now among the sessions of the picks, and no longer ahead
    rw [hahead', hcurrent, List.map_append, hpick, List.append_assoc]
    exact hsessions
  · rw [hcurrent]
    exact hrun.nodup
  · rw [hstays, hcallback]
    simp
  · rw [hstays, hcallback]
    simp

/-- The callback at its channel. -/
theorem Mixes.channel {a : ChannelAct} (h : Mixes sdl s) (hs : s.channel sdl F a = some t) :
    Mixes sdl t := by
  obtain ⟨i, ring, -, hring, hturned⟩ := channel_cases hs
  have hright := h.current
  unfold CurrentRight at hright
  cases hturned with
  | looks hcallback =>
    rw [hcallback] at hright
    refine h.onward hright rfl (ChannelState.step_onCallback hring).1 rfl rfl ?_ ?_ ?_
    all_goals simp [ahead, setRing, hcallback]
  | finds hcallback =>
    rw [hcallback] at hright
    refine h.onward hright rfl (ChannelState.step_onCallback hring).1 rfl rfl ?_ nofun nofun
    unfold ahead
    rw [hcallback]
    exact CallbackPhase.ahead_sublist _ _ _
  | passes hcallback =>
    rw [hcallback] at hright
    refine h.onward hright rfl (ChannelState.step_onCallback hring).1 rfl rfl ?_ nofun nofun
    unfold ahead
    rw [hcallback]
    exact List.sublist_cons_self _ _
  | times hcallback =>
    rw [hcallback] at hright
    obtain ⟨hmixed, hfresh⟩ := ChannelState.step_updateAudioPts hring
    refine h.onward hright rfl hmixed rfl rfl ?_ ?_ ?_
    · unfold ahead setRing
      dsimp only
      rw [hcallback]
      dsimp only
      rw [hfresh]
      exact CallbackPhase.ahead_sublist _ _ _
    · simp [setRing, hcallback]
    · simp [setRing, hcallback]
  | mixes hcallback pick hpick =>
    rw [hcallback] at hright
    exact h.mix hcallback hright hring hpick rfl rfl rfl rfl
  | ends hcallback =>
    rw [hcallback] at hright
    obtain ⟨hmixed, hphase⟩ := ChannelState.step_endRead hring
    refine h.onward hright rfl hmixed rfl rfl ?_ ?_ ?_
    all_goals simp [ahead, setRing, hcallback, hphase]
  | leaves hcallback =>
    rw [hcallback] at hright
    refine h.onward hright rfl (ChannelState.step_storeRead hring) rfl rfl ?_ nofun nofun
    unfold ahead
    rw [hcallback]
    exact CallbackPhase.sublist_ahead _ _ _

theorem Mixes.finish (h : Mixes sdl s) (hcallback : s.callback = .looping []) :
    Mixes sdl { s with
      callback := .idle, current := {}, played := s.played ++ [s.current] } := by
  have hright := h.current
  unfold CurrentRight at hright
  rw [hcallback] at hright
  have hsessions := hright.sessions
  have hahead : s.ahead = [] := by
    unfold ahead
    rw [hcallback]
  rw [hahead, List.append_nil] at hsessions
  refine ⟨fun i => ?_, fun r hr => ?_, rfl⟩
  · refine (mixed_congr ?_ i).trans (h.mixed i)
    rw [picks_eq, picks_eq, List.flatMap_append, List.flatMap_singleton, List.append_nil]
  · rcases List.mem_append.mp hr with hr | hr
    · exact h.played r hr
    · rw [List.mem_singleton.mp hr]
      exact ⟨hright.stream, hsessions, hright.nodup⟩

theorem Mixes.step {a : MixAct} (h : Mixes sdl s) (hnodup : s.device.audioChannels.Nodup)
    (hs : s.step sdl F a = some t) : Mixes sdl t := by
  cases a with
  | session a =>
    obtain ⟨device, -, rfl⟩ := sessionStep_cases hs
    exact h.aside (fun _ => ⟨rfl, rfl⟩) rfl rfl rfl
  | display i a =>
    simp only [DeviceMix.step, DeviceMix.display] at hs
    split at hs
    · next hready =>
      obtain ⟨ring, hring, rfl⟩ := Option.map_eq_some_iff.mp hs
      obtain ⟨hmixed, hphase⟩ := ChannelState.step_display hring hready.2
      refine h.aside (fun j => ?_) rfl rfl rfl
      unfold setRing
      dsimp only
      by_cases hj : j = i
      · rw [hj, Function.update_self]
        exact ⟨hmixed, hphase⟩
      · rw [Function.update_of_ne hj]
        exact ⟨rfl, rfl⟩
    · cases hs
  | setVolume i value =>
    obtain rfl := Option.some.inj hs
    exact h.aside (fun _ => ⟨rfl, rfl⟩) rfl rfl rfl
  | wake =>
    simp only [DeviceMix.step] at hs
    split at hs
    · next hidle =>
      obtain rfl := Option.some.inj hs
      have hright := h.current
      unfold CurrentRight at hright
      rw [hidle.1] at hright
      exact ⟨h.mixed, h.played, hright⟩
    · cases hs
  | read =>
    simp only [DeviceMix.step] at hs
    split at hs
    · obtain ⟨device, -, rfl⟩ := Option.map_eq_some_iff.mp hs
      exact h.aside (fun _ => ⟨rfl, rfl⟩) rfl rfl rfl
    · cases hs
  | silence order =>
    simp only [DeviceMix.step] at hs
    split at hs
    · next hready =>
      obtain ⟨hreading, -, hperm⟩ := hready
      obtain rfl := Option.some.inj hs
      have hright := h.current
      unfold CurrentRight at hright
      rw [hreading] at hright
      refine ⟨fun i => ?_, h.played, rfl, List.Sublist.refl _, hperm.nodup_iff.mpr hnodup⟩
      refine (mixed_congr ?_ i).trans (h.mixed i)
      exact picks_congr rfl (by rw [hright])
    · cases hs
  | channel a => exact h.channel hs
  | finish =>
    simp only [DeviceMix.step] at hs
    split at hs
    · next hcallback =>
      obtain rfl := Option.some.inj hs
      exact h.finish hcallback
    · cases hs

theorem silence_cases {order : List Nat} (h : s.step sdl F (.silence order) = some t) :
    s.device.audioChan = [] ∧ order.Perm s.device.audioChannels := by
  simp only [DeviceMix.step] at h
  split at h
  · next hready => exact hready.2
  · cases h

/-- With no message left the callback has the channels that it is to have. -/
theorem mem_order_iff {order : List Nat} (h : s.step sdl F (.silence order) = some t) :
    i ∈ order ↔ i ∈ s.device.heard := by
  obtain ⟨hchan, hperm⟩ := silence_cases h
  unfold AudioDevice.heard
  rw [hchan]
  exact hperm.mem_iff

theorem mixes_of_reach {bufs : Nat → AudioRingBuffer W UInt8} {volumes : Nat → Int}
    (h : Reach (step sdl F) (start bufs volumes) s) : Mixes sdl s := by
  induction h with
  | refl => exact ⟨fun _ => rfl, fun _ hr => absurd hr List.not_mem_nil, rfl⟩
  | tail h _ hs ih => exact ih.step (AudioDevice.sound_of_reach (device_reach h)).nodup hs

end DeviceMix

open DeviceMix

/-- A device of two bytes that adds what it is given. -/
def addingSdl : Sdl where
  len := 2
  mix stream samples _ := stream.zipWith (· + ·) samples

/-- A session's display thread writes a block with these two bytes behind the `double`. -/
def publishes (i : Nat) (x y : UInt8) : List MixAct :=
  [.beginWrite, .loadRead, .fill 8 x, .fill 9 y, .endWrite, .storeWrite].map (.display i)

/-- The callback mixes a block of the channel in turn. -/
def mixesOne : List MixAct :=
  [.beginRead, .loadWrite, .updateAudioPts, .mix, .endRead, .storeRead].map .channel

end VideoPlayerCore
