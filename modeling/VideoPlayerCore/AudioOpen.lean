import VideoPlayerCore.AudioDevice

/-!
# What `Audio::open` reports

`Audio::open` has five exits; its caller keeps the stream if it returns true.  The events are
what every open does behind its locked block and what it returns.

    SDL_Init succeeds where it is called, and no device is open where one is opened →
      open returns true ↔ it has made its channel, sent it and started its thread
      at most one device is open, the one that _audioId names           (audio_open_reports)

The exit behind a failed `SDL_Init` returns -1, which is true.  A device of a format that is
not supported stays open with `_forceFormat` unset, and the next open opens another one.
-/

namespace VideoPlayerCore

open Machine

/-- The exits of `Audio::open`. -/
inductive OpenExit
  | decoderError
  | initError
  | deviceError
  | formatError
  | done
  deriving DecidableEq

/-- What the exit returns to the caller. -/
def OpenExit.returns : OpenExit → Bool
  | .decoderError | .deviceError | .formatError => false
  -- `return -1;`
  | .initError => true
  | .done => true

/-- What an open does, by its session. -/
inductive OpenEvent
  /-- `_channel = std::make_shared<Audio::Channel>(..)` -/
  | channel (i : Nat)
  /-- `MESSAGE_TYPE_AUDIO_ADD_CHANNEL` is sent. -/
  | addMessage (i : Nat)
  /-- `_wg.Go` -/
  | displayThread (i : Nat)
  | returned (i : Nat) (value : Bool)
  deriving DecidableEq

def OpenEvent.session : OpenEvent → Nat
  | .channel i | .addMessage i | .displayThread i | .returned i _ => i

/-- The exit that the locked block takes, if it takes one. -/
def AudioDevice.lockedExit (s : AudioDevice) (answer : SdlAnswer) : Option OpenExit :=
  if s.forceFormat = none then
    if s.sdlInit ∨ answer.initOk then
      match answer.device with
      | none => some .deviceError
      | some (_, format) => if format.forceFormat = none then some .formatError else none
    else some .initError
  else none

namespace AudioDevice

/-- The device that is open is the one `_audioId` names. -/
structure Named (s : AudioDevice) : Prop where
  devices : s.devices = if 2 ≤ s.audioId then [s.audioId] else []
  format : s.forceFormat ≠ none → 2 ≤ s.audioId

variable {s t : AudioDevice} {i : Nat} {answer : SdlAnswer}

/-- The locked block goes through or is left by an exit. -/
theorem openLocked_sessions (h : s.openLocked i answer = some t) :
    t.sessions = s.sessions.set i (if s.lockedExit answer = none then .ready else .refused) := by
  unfold lockedExit
  cases openLocked_cases h with
  | shared hf => simp [hf, setPhase]
  | initError hf hinit =>
    rw [if_pos hf, if_neg hinit]
    rfl
  | deviceError hf hinit hdevice =>
    rw [if_pos hf, if_pos hinit, hdevice]
    rfl
  | opened hf hinit id format hdevice hid =>
    rw [if_pos hf, if_pos hinit, hdevice]
    by_cases hformat : format.forceFormat = none <;> simp [hformat, setPhase]

/-- No device is opened over another one. -/
theorem Named.openLocked (hn : s.Named) (hid : s.forceFormat = none → s.audioId < 2)
    (h : s.openLocked i answer = some t) : t.Named := by
  have hnone : s.forceFormat = none → s.devices = [] := by
    intro hf
    rw [hn.devices, if_neg (Nat.not_le.mpr (hid hf))]
  cases openLocked_cases h with
  | shared hf => exact ⟨hn.devices, hn.format⟩
  | initError hf hinit => exact ⟨hn.devices, hn.format⟩
  | deviceError hf hinit hdevice => exact ⟨hnone hf, fun hne => absurd hf hne⟩
  | opened hf hinit id format hdevice hid =>
    refine ⟨?_, fun _ => hid⟩
    show id :: s.devices = if 2 ≤ id then [id] else []
    rw [hnone hf, if_pos hid]

/-- `close` closes the device it names or none. -/
theorem Named.closeLocked (hn : s.Named) : s.closeLocked.Named := by
  unfold AudioDevice.closeLocked
  dsimp only
  split
  · split
    · next hid =>
      refine ⟨?_, fun hne => absurd rfl hne⟩
      show s.devices.erase s.audioId = []
      rw [hn.devices, if_pos hid, List.erase_cons_head]
    · exact ⟨hn.devices, hn.format⟩
  · exact ⟨hn.devices, hn.format⟩

end AudioDevice

/-- The statics, and what the opens have done. -/
structure AudioOpens where
  device : AudioDevice := {}
  events : List OpenEvent := []
  deriving DecidableEq

namespace AudioOpens

/-- An open behind its locked block. -/
def lastEvents (i : Nat) : List OpenEvent :=
  [.channel i, .addMessage i, .displayThread i, .returned i OpenExit.done.returns]

/-- What a step of the statics' machine does for the opens. -/
def eventsOfStep (s : AudioOpens) : AudioAct → List OpenEvent
  | .openDecoder i ok => if ok then [] else [.returned i OpenExit.decoderError.returns]
  | .openDevice i answer =>
    (s.device.lockedExit answer).toList.map fun exit => .returned i exit.returns
  | .addChannel i => lastEvents i
  | _ => []

def step (s : AudioOpens) (a : AudioAct) : Option AudioOpens :=
  (s.device.step a).map fun device => { device := device, events := s.events ++ s.eventsOfStep a }

/-- Each close has an open. -/
def ClosesOpened (s : AudioOpens) : AudioAct → Prop
  | .beginClose i => s.device.sessions[i]? ≠ some .started
  | _ => True

instance (s : AudioOpens) : (a : AudioAct) → Decidable (s.ClosesOpened a)
  | .start | .openDecoder _ _ | .openDevice _ _ | .addChannel _ | .endClose _ | .callback =>
    .isTrue trivial
  | .beginClose i => inferInstanceAs (Decidable (s.device.sessions[i]? ≠ some .started))

/-- Where SDL is asked for a device it can be initialised and has none open. -/
def AsksOnce (s : AudioOpens) : AudioAct → Prop
  | .openDevice _ answer =>
    s.device.forceFormat = none →
      (s.device.sdlInit = true ∨ answer.initOk = true) ∧ s.device.audioId < 2
  | _ => True

instance (s : AudioOpens) : (a : AudioAct) → Decidable (s.AsksOnce a)
  | .start | .openDecoder _ _ | .addChannel _ | .beginClose _ | .endClose _ | .callback =>
    .isTrue trivial
  | .openDevice _ answer => inferInstanceAs (Decidable (s.device.forceFormat = none →
      (s.device.sdlInit = true ∨ answer.initOk = true) ∧ s.device.audioId < 2))

/-- An open has returned true exactly if it has done all its work. -/
def Reports (s : AudioOpens) : Prop :=
  ∀ i value, .returned i value ∈ s.events →
    (value = true ↔
      .channel i ∈ s.events ∧ .addMessage i ∈ s.events ∧ .displayThread i ∈ s.events)

/-- At most one device is open, and `_audioId` names it. -/
def OneDevice (s : AudioOpens) : Prop :=
  s.device.devices.length ≤ 1 ∧ ∀ d ∈ s.device.devices, d = s.device.audioId

/-! ## The events of a session -/

def eventsOf (s : AudioOpens) (i : Nat) : List OpenEvent :=
  s.events.filter fun e => e.session = i

theorem mem_eventsOf {s : AudioOpens} {e : OpenEvent} :
    e ∈ s.eventsOf e.session ↔ e ∈ s.events := by
  simp [eventsOf]

/-- The open of the session has not returned. -/
def IsOpening : Option AudioPhase → Prop
  | none | some .started | some .decoding | some .ready => True
  | _ => False

structure Inv (s : AudioOpens) : Prop where
  opening : ∀ i, IsOpening s.device.sessions[i]? → s.eventsOf i = []
  returned : ∀ i, s.eventsOf i = [] ∨ s.eventsOf i = [.returned i false] ∨
    s.eventsOf i = lastEvents i
  named : s.device.Named

theorem inv_start : Inv {} :=
  ⟨fun _ _ => rfl, fun _ => .inl rfl, rfl, fun h => absurd rfl h⟩

variable {s t : AudioOpens} {i j : Nat}

theorem Inv.reports (h : s.Inv) : s.Reports := by
  intro i value hmem
  have hevents : ∀ e : OpenEvent, e.session = i → (e ∈ s.events ↔ e ∈ s.eventsOf i) := by
    rintro e rfl
    exact mem_eventsOf.symm
  rw [hevents _ rfl] at hmem
  rw [hevents (.channel i) rfl, hevents (.addMessage i) rfl, hevents (.displayThread i) rfl]
  rcases h.returned i with hnone | hfalse | hlast
  · rw [hnone] at hmem
    cases hmem
  · rw [hfalse] at hmem ⊢
    simp at hmem
    simp [hmem]
  · rw [hlast] at hmem ⊢
    simp [lastEvents, OpenExit.returns] at hmem
    simp [lastEvents, hmem]

theorem Inv.oneDevice (h : s.Inv) : s.OneDevice := by
  unfold OneDevice
  rw [h.named.devices]
  split
  · exact ⟨Nat.le_refl 1, fun d hd => List.mem_singleton.mp hd⟩
  · exact ⟨Nat.zero_le 1, fun d hd => by cases hd⟩

/-- A step on the statics that is no part of an open's work. -/
theorem Inv.keep (h : s.Inv) (hevents : t.events = s.events)
    (hopening : ∀ j : Nat, IsOpening t.device.sessions[j]? → IsOpening s.device.sessions[j]?)
    (hnamed : t.device.Named) : t.Inv := by
  have hsame : ∀ j, t.eventsOf j = s.eventsOf j := fun j => by
    unfold eventsOf
    rw [hevents]
  refine ⟨fun j hj => ?_, fun j => ?_, hnamed⟩
  · rw [hsame]
    exact h.opening j (hopening j hj)
  · rw [hsame]
    exact h.returned j

/-- An open does its work or returns false; its session leaves the opening phases. -/
theorem Inv.report {es : List OpenEvent} {p : AudioPhase} (h : s.Inv)
    (hi : IsOpening s.device.sessions[i]?) (hevents : t.events = s.events ++ es)
    (hes : es = [.returned i false] ∨ es = lastEvents i)
    (hsessions : t.device.sessions = s.device.sessions.set i p) (hp : ¬IsOpening (some p))
    (hnamed : t.device.Named) (hlt : i < s.device.sessions.length) : t.Inv := by
  have hown : t.eventsOf i = es := by
    have hbefore := h.opening i hi
    unfold eventsOf at hbefore ⊢
    rw [hevents, List.filter_append, hbefore, List.nil_append]
    rcases hes with rfl | rfl <;> simp [lastEvents, OpenEvent.session]
  have hother : ∀ j, j ≠ i → t.eventsOf j = s.eventsOf j := by
    intro j hj
    unfold eventsOf
    rw [hevents, List.filter_append]
    rcases hes with rfl | rfl <;> simp [lastEvents, OpenEvent.session, hj.symm]
  refine ⟨fun j hj => ?_, fun j => ?_, hnamed⟩
  · by_cases hji : j = i
    · rw [hsessions, hji, List.getElem?_set_self hlt] at hj
      exact absurd hj hp
    · rw [hsessions, List.getElem?_set_ne (Ne.symm hji)] at hj
      rw [hother j hji]
      exact h.opening j hj
  · by_cases hji : j = i
    · rw [hji, hown]
      exact .inr hes
    · rw [hother j hji]
      exact h.returned j

theorem not_isOpening_closing (counted : Bool) : ¬IsOpening (some (.closing counted)) := fun h => h

/-- A session that is set to a phase, where an opening phase follows opening phases only. -/
theorem isOpening_of_set {l : List AudioPhase} {p : AudioPhase}
    (hp : IsOpening (some p) → IsOpening l[i]?) (hj : IsOpening (l.set i p)[j]?) :
    IsOpening l[j]? := by
  by_cases hji : j = i
  · subst hji
    by_cases hlt : j < l.length
    · rw [List.getElem?_set_self hlt] at hj
      exact hp hj
    · rw [List.getElem?_eq_none (Nat.le_of_not_lt hlt)]
      trivial
  · rwa [List.getElem?_set_ne (Ne.symm hji)] at hj

/-! ## The steps -/

theorem Inv.openDecoder {ok : Bool} (h : s.Inv) (hs : s.step (.openDecoder i ok) = some t) :
    t.Inv := by
  obtain ⟨device, hdevice, rfl⟩ := Option.map_eq_some_iff.mp hs
  simp only [AudioDevice.step] at hdevice
  split at hdevice
  · next hp =>
    obtain rfl := Option.some.inj hdevice
    have hopening : IsOpening s.device.sessions[i]? := by
      rw [hp]
      trivial
    cases ok with
    | true =>
      exact h.keep (List.append_nil _) (fun j => isOpening_of_set fun _ => hopening)
        ⟨h.named.devices, h.named.format⟩
    | false =>
      exact h.report hopening rfl (.inl rfl) rfl (fun hp => hp)
        ⟨h.named.devices, h.named.format⟩ (List.getElem?_eq_some_iff.mp hp).1
  · cases hdevice

theorem Inv.openDevice {answer : SdlAnswer} (h : s.Inv)
    (hok : s.AsksOnce (.openDevice i answer)) (hs : s.step (.openDevice i answer) = some t) :
    t.Inv := by
  obtain ⟨device, hdevice, rfl⟩ := Option.map_eq_some_iff.mp hs
  simp only [AudioDevice.step] at hdevice
  split at hdevice
  · next hp =>
    have hopening : IsOpening s.device.sessions[i]? := by
      rw [hp]
      trivial
    have hnamed := h.named.openLocked (fun hf => (hok hf).2) hdevice
    have hsessions := AudioDevice.openLocked_sessions hdevice
    cases hexit : s.device.lockedExit answer with
    | none =>
      rw [hexit, if_pos rfl] at hsessions
      refine h.keep (by simp [eventsOfStep, hexit]) (fun j hj => ?_) hnamed
      rw [hsessions] at hj
      exact isOpening_of_set (fun _ => hopening) hj
    | some exit =>
      rw [hexit, if_neg (by simp)] at hsessions
      have hfalse : exit.returns = false := by
        unfold AudioDevice.lockedExit at hexit
        split at hexit
        · next hf =>
          rw [if_pos (hok hf).1] at hexit
          split at hexit
          · obtain rfl := Option.some.inj hexit
            rfl
          · split at hexit
            · obtain rfl := Option.some.inj hexit
              rfl
            · cases hexit
        · cases hexit
      have hevents : s.events ++ s.eventsOfStep (.openDevice i answer) =
          s.events ++ [.returned i false] := by simp [eventsOfStep, hexit, hfalse]
      exact h.report hopening hevents (.inl rfl) hsessions (fun hp => hp) hnamed
        (List.getElem?_eq_some_iff.mp hp).1
  · cases hdevice

theorem Inv.step {a : AudioAct} (h : s.Inv) (hok : s.AsksOnce a) (hs : s.step a = some t) :
    t.Inv := by
  cases a with
  | openDecoder i ok => exact h.openDecoder hs
  | openDevice i answer => exact h.openDevice hok hs
  | start =>
    obtain ⟨device, hdevice, rfl⟩ := Option.map_eq_some_iff.mp hs
    obtain rfl := Option.some.inj hdevice
    refine h.keep (List.append_nil _) (fun j hj => ?_) ⟨h.named.devices, h.named.format⟩
    by_cases hlt : j < s.device.sessions.length
    · rwa [List.getElem?_append_left hlt] at hj
    · rw [List.getElem?_eq_none (Nat.le_of_not_lt hlt)]
      trivial
  | addChannel i =>
    obtain ⟨device, hdevice, rfl⟩ := Option.map_eq_some_iff.mp hs
    simp only [AudioDevice.step] at hdevice
    split at hdevice
    · next hp =>
      obtain rfl := Option.some.inj hdevice
      have hopening : IsOpening s.device.sessions[i]? := by
        rw [hp]
        trivial
      exact h.report hopening rfl (.inr rfl) rfl (fun hp => hp)
        ⟨h.named.devices, h.named.format⟩ (List.getElem?_eq_some_iff.mp hp).1
    · cases hdevice
  | beginClose i =>
    obtain ⟨device, hdevice, rfl⟩ := Option.map_eq_some_iff.mp hs
    simp only [AudioDevice.step, AudioDevice.beginClose] at hdevice
    split at hdevice <;> cases hdevice <;>
      exact h.keep (List.append_nil _)
        (fun j => isOpening_of_set fun hp => absurd hp (not_isOpening_closing _))
        ⟨h.named.devices, h.named.format⟩
  | endClose i =>
    obtain ⟨device, hdevice, rfl⟩ := Option.map_eq_some_iff.mp hs
    simp only [AudioDevice.step] at hdevice
    split at hdevice
    · obtain rfl := Option.some.inj hdevice
      have hnamed := h.named.closeLocked
      refine h.keep (List.append_nil _) (fun j hj => ?_) ⟨hnamed.devices, hnamed.format⟩
      have hset : (s.device.closeLocked.setPhase i .closed).sessions =
          s.device.sessions.set i .closed := by
        unfold AudioDevice.setPhase
        rw [AudioDevice.closeLocked_sessions]
      rw [hset] at hj
      exact isOpening_of_set (p := .closed) (fun hp => False.elim hp) hj
    · cases hdevice
  | callback =>
    obtain ⟨device, hdevice, rfl⟩ := Option.map_eq_some_iff.mp hs
    simp only [AudioDevice.step, AudioDevice.popMessage] at hdevice
    split at hdevice
    · cases hdevice
    · obtain rfl := Option.some.inj hdevice
      exact h.keep (List.append_nil _) (fun _ hj => hj) ⟨h.named.devices, h.named.format⟩
    · obtain rfl := Option.some.inj hdevice
      exact h.keep (List.append_nil _) (fun _ hj => hj) ⟨h.named.devices, h.named.format⟩

/-- A step that asks SDL in vain or over an open device shows at once. -/
theorem Inv.asksOnce {a : AudioAct} (h : s.Inv) (hs : s.step a = some t) (hreports : t.Reports)
    (hone : t.OneDevice) : s.AsksOnce a := by
  cases a with
  | openDevice i answer =>
    intro hf
    obtain ⟨device, hdevice, rfl⟩ := Option.map_eq_some_iff.mp hs
    simp only [AudioDevice.step] at hdevice
    split at hdevice
    · next hp =>
      have hopening : IsOpening s.device.sessions[i]? := by
        rw [hp]
        trivial
      have hnothing := h.opening i hopening
      have hinit : s.device.sdlInit = true ∨ answer.initOk = true := by
        by_contra hnot
        have hexit : s.device.lockedExit answer = some .initError := by
          unfold AudioDevice.lockedExit
          rw [if_pos hf, if_neg hnot]
        have hmem : OpenEvent.returned i true ∈ s.events ++ s.eventsOfStep (.openDevice i answer) := by
          simp [eventsOfStep, hexit, OpenExit.returns]
        have hchannel := ((hreports i true hmem).mp rfl).1
        rcases List.mem_append.mp hchannel with hold | hnew
        · have hin : OpenEvent.channel i ∈ s.eventsOf i := mem_eventsOf.mpr hold
          rw [hnothing] at hin
          cases hin
        · simp [eventsOfStep, hexit] at hnew
      refine ⟨hinit, ?_⟩
      by_contra hopen
      have hdevices : s.device.devices = [s.device.audioId] := by
        rw [h.named.devices, if_pos (Nat.le_of_not_lt hopen)]
      obtain ⟨hlen, hname⟩ := hone
      cases AudioDevice.openLocked_cases hdevice with
      | shared hformat => exact hformat hf
      | initError _ hnot => exact hnot hinit
      | deviceError =>
        -- the device stays open and is no longer the one that `_audioId` names
        have hzero : s.device.audioId = 0 :=
          hname s.device.audioId (by simp [AudioDevice.setPhase, hdevices])
        omega
      | opened => simp [AudioDevice.setPhase, hdevices] at hlen
    · cases hdevice
  | _ => trivial

end AudioOpens

open AudioOpens

/-- In a run in which SDL is asked for a device only where it is initialised and has none
open, an open returns true exactly if it did all its work, and at most one device is open,
which `_audioId` names.  A step from such a run keeps this exactly if it asks so. -/
theorem audio_open_reports (s : AudioOpens)
    (h : ReachIf AudioOpens.step (fun s a => s.ClosesOpened a ∧ s.AsksOnce a) {} s) :
    s.Reports ∧ s.OneDevice ∧
      ∀ a t, s.step a = some t → (t.Reports ∧ t.OneDevice ↔ s.AsksOnce a) := by
  have hinv : s.Inv := h.invariant inv_start fun _ _ _ hI hok hs => hI.step hok.2 hs
  refine ⟨hinv.reports, hinv.oneDevice, fun a t hs => ⟨?_, fun hok => ?_⟩⟩
  · rintro ⟨hreports, hone⟩
    exact hinv.asksOnce hs hreports hone
  · have hnext := hinv.step hok hs
    exact ⟨hnext.reports, hnext.oneDevice⟩

/-- Two sessions open audio and play, the first one closes. -/
theorem audio_open_reports_two_sessions :
    ∃ s : AudioOpens, s.device.sessions = [.closed, .playing] ∧ s.Reports ∧ s.OneDevice := by
  obtain ⟨s, hs, hp⟩ := reach_of_any
    (guarded AudioOpens.step fun s a => s.ClosesOpened a ∧ s.AsksOnce a) {} twoSessions
    (fun s => s.device.sessions = [.closed, .playing]) (by decide)
  have hreport := audio_open_reports s (reachIf_of_guarded hs)
  exact ⟨s, by simpa using hp, hreport.1, hreport.2.1⟩

/-- `SDL_Init` fails: the open returns true without a channel.  A device of a format that is not
supported stays open, and the next open opens another one. -/
theorem audio_open_misreports :
    (∃ s : AudioOpens, ReachIf AudioOpens.step (fun s a => s.ClosesOpened a) {} s ∧
      s.events = [.returned 0 true] ∧ ¬s.Reports) ∧
    ∃ s : AudioOpens, ReachIf AudioOpens.step (fun s a => s.ClosesOpened a) {} s ∧
      s.device.devices = [3, 2] ∧ ¬s.OneDevice := by
  constructor
  · obtain ⟨s, hs, hp⟩ := reach_of_any (guarded AudioOpens.step fun s a => s.ClosesOpened a) {}
      [.start, .openDecoder 0 true, .openDevice 0 ⟨false, none⟩]
      (fun s => s.events = [.returned 0 true]) (by decide)
    have hevents : s.events = [.returned 0 true] := by simpa using hp
    refine ⟨s, reachIf_of_guarded hs, hevents, fun hreports => ?_⟩
    have hchannel := ((hreports 0 true (by rw [hevents]; simp)).mp rfl).1
    rw [hevents] at hchannel
    simp at hchannel
  · obtain ⟨s, hs, hp⟩ := reach_of_any (guarded AudioOpens.step fun s a => s.ClosesOpened a) {}
      [.start, .openDecoder 0 true, .openDevice 0 ⟨true, some (2, .other)⟩, .start,
        .openDecoder 1 true, .openDevice 1 ⟨true, some (3, .f32sys)⟩, .addChannel 1]
      (fun s => s.device.devices = [3, 2]) (by decide)
    have hdevices : s.device.devices = [3, 2] := by simpa using hp
    refine ⟨s, reachIf_of_guarded hs, hdevices, fun hone => ?_⟩
    rw [OneDevice, hdevices] at hone
    exact absurd hone.1 (by decide)

end VideoPlayerCore
