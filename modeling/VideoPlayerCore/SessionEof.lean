import VideoPlayerCore.SessionDrain

/-!
# The two writes of audio's `onEof` against a restart

`audioEof = true` lets the reader restart; `type = CLOCKSYNCTYPE_ABSOLUTE` comes
after it, on the display thread.  If the reader is through with the restart branch
in between, the second write falls into the next iteration, which then runs on the
absolute clock                                          (late_write_drops_audio_master)

If no restart ends between the two writes, AUDIO is the master from every restart to
that iteration's own audio EOF                          (master_until_own_eof)
-/

namespace VideoPlayerCore

open Machine

variable {P F B : Type}

namespace Lane

variable {C : Codec P F} {l m : Lane C}

/-- The lane calls no `onEof` and does not get between its two writes. -/
def Quiet (l m : Lane C) : Prop :=
  (m.display = .acked → l.display = .acked) ∧ m.log.eofCalls = l.log.eofCalls

theorem quiet_refl : l.Quiet l := ⟨id, rfl⟩

theorem quiet_decode {room : Nat} (h : l.decode room = some m) : l.Quiet m := by
  obtain ⟨pipe, -, rfl⟩ := Option.map_eq_some_iff.mp h
  exact ⟨id, rfl⟩

theorem quiet_write {pkt : Option P} (h : l.write pkt = some m) : l.Quiet m := by
  obtain ⟨pipe, -, rfl⟩ := Option.map_eq_some_iff.mp h
  exact ⟨id, by cases pkt <;> rfl⟩

theorem quiet_take (h : l.take = some m) : l.Quiet m := by
  unfold Lane.take at h
  split at h
  · next item pipe _ _ =>
    cases h
    refine ⟨fun hd => ?_, rfl⟩
    cases item <;> cases hd
  · cases h

theorem quiet_release (h : l.release = some m) : l.Quiet m := by
  unfold Lane.release at h
  split at h
  · cases h
    exact ⟨fun hd => (by cases hd), rfl⟩
  · cases h

end Lane

namespace Session

variable {V : Codec P VideoFrame} {A : Codec P B} {cfg : SessionConfig} {s t : Session V A}

/-- Outside the restart branch the master is AUDIO until this iteration's audio EOF, and
a display thread between the two writes of `onEof` is in this iteration's call. -/
structure EofInOrder (s : Session V A) : Prop where
  master : (∀ r, s.reader ≠ .restart r) → s.audio.log.eofCalls = 0 → s.sync.type = .audio
  own : (∀ r, s.reader ≠ .restart r) → s.audio.display = .acked → s.audio.log.eofCalls = 1

/-- The restart does not end between the two writes of audio's `onEof`. -/
def RestartApart (s : Session V A) (a : SessionAct P) : Prop :=
  match a, s.reader, s.audio.display with
  | .reader, .restart .setType, .acked => False
  | _, _, _ => True

instance (s : Session V A) (a : SessionAct P) : Decidable (s.RestartApart a) := by
  unfold RestartApart
  split <;> infer_instance

theorem eofInOrder_start : EofInOrder ({} : Session V A) :=
  ⟨fun _ _ => rfl, fun _ h => (by cases h)⟩

theorem EofInOrder.ofQuiet (h : s.EofInOrder)
    (hr : (∀ r, t.reader ≠ .restart r) → ∀ r, s.reader ≠ .restart r)
    (ht : t.sync.type = s.sync.type) (hq : s.audio.Quiet t.audio) : t.EofInOrder where
  master := by
    intro hrt hcalls
    rw [ht]
    exact h.master (hr hrt) (hq.2 ▸ hcalls)
  own := by
    intro hrt hd
    rw [hq.2]
    exact h.own (hr hrt) (hq.1 hd)

theorem EofInOrder.ofRestart {r : Restart} (hr : s.reader = .restart r) : s.EofInOrder :=
  ⟨fun h => absurd hr (h r), fun h => absurd hr (h r)⟩

/-- The last step of the restart branch. -/
theorem EofInOrder.setType (hd : s.audio.display ≠ .acked) : (s.restartStep .setType).EofInOrder where
  master := fun _ _ => rfl
  own := fun _ h => absurd h hd

/-- Behind a restart that ends between the two writes nothing is in order. -/
theorem not_eofInOrder_of_acked (hi : s.Inv) (hr : s.reader = .restart .setType)
    (hd : s.audio.display = .acked) : ¬(s.restartStep .setType).EofInOrder := by
  intro h
  have hstage := hi.audioAt
  simp only [audioStage, hr] at hstage
  have hzero : s.audio.log.eofCalls = 0 := (hi.audio.unmarked hstage.1).1
  have hone : s.audio.log.eofCalls = 1 := h.own (fun r hr => by cases hr) hd
  omega

theorem EofInOrder.readerStep (h : s.EofInOrder)
    (hcfg : cfg.videoOpen = true ∧ cfg.audioOpen = true) (hok : s.RestartApart .reader)
    (hs : s.readerStep cfg = some t) : t.EofInOrder := by
  unfold Session.readerStep at hs
  cases hr : s.reader with
  | restart r =>
    simp only [hr] at hs
    cases hs
    cases r with
    | setType =>
      refine .setType fun hd => ?_
      simp only [RestartApart, hr, hd] at hok
    | _ => exact .ofRestart rfl
  | setType =>
    simp only [hr, hcfg.2, if_true] at hs
    cases hs
    exact h.ofQuiet (fun _ => by simp [hr]) rfl Lane.quiet_refl
  | setVideoDisabled | setAudioDisabled =>
    simp only [hr] at hs
    cases hs
    exact h.ofQuiet (fun _ => by simp [hr]) rfl Lane.quiet_refl
  | top =>
    simp only [hr] at hs
    (repeat' split at hs) <;> cases hs
    · exact h
    all_goals exact h.ofQuiet (fun _ => by simp [hr]) rfl Lane.quiet_refl
  | checkVideo | checkAudio =>
    simp only [hr] at hs
    split at hs <;> cases hs <;>
      exact h.ofQuiet (fun _ => by simp [hr]) rfl Lane.quiet_refl
  | writingVideo pkt | markingVideo =>
    simp only [hr] at hs
    obtain ⟨l, -, rfl⟩ := Option.map_eq_some_iff.mp hs
    exact h.ofQuiet (fun _ => by simp [hr]) rfl Lane.quiet_refl
  | writingAudio pkt | markingAudio =>
    simp only [hr] at hs
    obtain ⟨l, hl, rfl⟩ := Option.map_eq_some_iff.mp hs
    exact h.ofQuiet (fun _ => by simp [hr]) rfl (Lane.quiet_write hl)
  | reading | left => simp [hr] at hs

theorem EofInOrder.onAudio {f : Lane A → Option (Lane A)} (h : s.EofInOrder)
    (hf : ∀ l, f s.audio = some l → s.audio.Quiet l) (hs : s.onAudio cfg f = some t) :
    t.EofInOrder := by
  unfold Session.onAudio at hs
  split at hs
  · obtain ⟨l, hl, rfl⟩ := Option.map_eq_some_iff.mp hs
    exact h.ofQuiet id rfl (hf l hl)
  · cases hs

theorem EofInOrder.onVideo {f : Lane V → Option (Lane V)} (h : s.EofInOrder)
    (hs : s.onVideo cfg f = some t) : t.EofInOrder := by
  unfold Session.onVideo at hs
  split at hs
  · obtain ⟨l, hl, rfl⟩ := Option.map_eq_some_iff.mp hs
    exact h.ofQuiet id rfl Lane.quiet_refl
  · cases hs

theorem EofInOrder.withSync {sync : ClockSync} (h : s.EofInOrder)
    (ht : sync.type = s.sync.type) : EofInOrder { s with sync := sync } :=
  h.ofQuiet id ht Lane.quiet_refl

theorem EofInOrder.step {a : SessionAct P} (h : s.EofInOrder) (hi : s.Inv)
    (hcfg : cfg.videoOpen = true ∧ cfg.audioOpen = true) (hok : s.RestartApart a)
    (hs : s.step cfg a = some t) : t.EofInOrder := by
  cases a with
  | reader => exact h.readerStep hcfg hok hs
  | readFrame r =>
    have hr : s.reader = .reading := by
      cases hr : s.reader <;> first | rfl | simp [Session.step, Session.readFrame, hr] at hs
    have hold : ∀ r, s.reader ≠ .restart r := by simp [hr]
    cases r <;> simp only [Session.step, Session.readFrame, hr] at hs <;> cases hs <;>
      exact h.ofQuiet (fun _ => hold) rfl Lane.quiet_refl
  | decodeVideo | takeVideo | dropFrame | videoEof => exact h.onVideo hs
  | decodeAudio => exact h.onAudio (fun l hl => Lane.quiet_decode hl) hs
  | takeAudio => exact h.onAudio (fun l hl => Lane.quiet_take hl) hs
  | blocksDone => exact h.onAudio (fun l hl => Lane.quiet_release hl) hs
  | calVideoDelay now =>
    simp only [Session.step] at hs
    split at hs <;> cases hs
    exact h.withSync (by simp)
  | calAudioDelay now pts =>
    simp only [Session.step] at hs
    split at hs <;> cases hs
    exact h.withSync (by simp)
  | showFrame now =>
    simp only [Session.step] at hs
    split at hs
    · next f _ =>
      have hclocks : EofInOrder { s with
          sync := s.sync.updateVideoPts now (some (f.time cfg.timeBase)) } := h.withSync rfl
      exact hclocks.onVideo hs
    · cases hs
  | audioEof =>
    have hnext := (hi.step hcfg hs).audio.eofCalls_le
    simp only [Session.step, Session.onAudio, hcfg.2, if_true] at hs
    obtain ⟨l, hl, rfl⟩ := Option.map_eq_some_iff.mp hs
    unfold Lane.raiseEof at hl
    split at hl
    · cases hl
      have hle : s.audio.log.eofCalls + 1 ≤ 1 := hnext
      refine ⟨fun _ h0 => ?_, fun _ _ => ?_⟩
      · exact absurd h0 (Nat.succ_ne_zero _)
      · show s.audio.log.eofCalls + 1 = 1
        omega
    · cases hl
  | audioAbsolute =>
    simp only [Session.step] at hs
    split at hs
    · next hd =>
      cases hs
      refine ⟨fun hr h0 => ?_, fun _ hd => (by cases hd)⟩
      have hone := h.own hr hd
      have hzero : s.audio.log.eofCalls = 0 := h0
      omega
    · cases hs
  | audioCallback now pts =>
    cases hs
    exact h.withSync rfl
  | setIsPaused value =>
    cases hs
    exact h.ofQuiet id rfl Lane.quiet_refl
  | stop =>
    cases hs
    exact h.ofQuiet id rfl Lane.quiet_refl

/-- A step that misses the condition is the end of a restart between the two writes. -/
theorem not_restartApart {a : SessionAct P} (h : ¬s.RestartApart a) :
    a = .reader ∧ s.reader = .restart .setType ∧ s.audio.display = .acked := by
  unfold RestartApart at h
  split at h
  · next hr hd => exact ⟨rfl, hr, hd⟩
  · exact absurd trivial h

end Session

/-- Both streams open: in a run whose restarts all end apart from the two writes the
master is AUDIO from each restart to the iteration's own audio EOF, and no write of an
older callback falls into an iteration; the first step that misses the condition breaks
this. -/
theorem master_until_own_eof {V : Codec P VideoFrame} {A : Codec P B} (cfg : SessionConfig)
    (hcfg : cfg.videoOpen = true ∧ cfg.audioOpen = true) (s : Session V A)
    (h : ReachIf (Session.step cfg) Session.RestartApart {} s) :
    s.EofInOrder ∧ ∀ a t, s.step cfg a = some t → (t.EofInOrder ↔ s.RestartApart a) := by
  have hboth : s.Inv ∧ s.EofInOrder :=
    ReachIf.invariant (I := fun s => s.Inv ∧ s.EofInOrder) h
      ⟨Session.inv_start, Session.eofInOrder_start⟩ fun _ _ _ hi hok hs =>
        ⟨hi.1.step hcfg hs, hi.2.step hi.1 hcfg hok hs⟩
  obtain ⟨hi, horder⟩ := hboth
  refine ⟨horder, ?_⟩
  intro a t hs
  constructor
  · intro ht
    by_contra hok
    obtain ⟨rfl, hr, hd⟩ := Session.not_restartApart hok
    simp only [Session.step, Session.readerStep, hr] at hs
    cases hs
    exact Session.not_eofInOrder_of_acked hi hr hd ht
  · intro hok
    exact horder.step hi hcfg hok hs

/-- An empty file: NULL for both streams, up to the first write of audio's `onEof`. -/
def emptyFile : List (SessionAct Unit) :=
  [.reader, .reader, .reader, .reader, .readFrame .endOfFile, .reader, .reader,
    .decodeVideo, .decodeVideo, .decodeVideo, .takeVideo, .videoEof,
    .decodeAudio, .decodeAudio, .decodeAudio, .takeAudio, .audioEof]

/-- The reader's steps from the loop head through the restart branch. -/
def restartSteps : List (SessionAct Unit) := List.replicate 11 .reader

theorem master_until_own_eof_empty_file :
    ∃ s : Session (emptyCodec : Codec Unit VideoFrame) (emptyCodec : Codec Unit Unit),
      s.past.length = 1 ∧ s.EofInOrder := by
  obtain ⟨s, hs, hp⟩ := reach_of_any
    (guarded (Session.step (V := emptyCodec) (A := (emptyCodec : Codec Unit Unit))
      ⟨true, true, true, 1⟩) Session.RestartApart) {} (emptyFile ++ .audioAbsolute :: restartSteps)
    (fun s => s.past.length = 1 ∧ s.reader = .top) (by decide)
  have hp' : s.past.length = 1 ∧ s.reader = .top := by simpa using hp
  exact ⟨s, hp'.1,
    (master_until_own_eof ⟨true, true, true, 1⟩ ⟨rfl, rfl⟩ s (reachIf_of_guarded hs)).1⟩

/-- The restart between the two writes: the second iteration runs on the absolute clock
before its own audio EOF. -/
theorem late_write_drops_audio_master :
    ∃ s : Session (emptyCodec : Codec Unit VideoFrame) (emptyCodec : Codec Unit Unit),
      Reach (Session.step ⟨true, true, true, 1⟩) {} s ∧ s.past.length = 1 ∧ s.reader = .top ∧
        s.audio.log.eofCalls = 0 ∧ s.sync.type = .absolute := by
  obtain ⟨s, hs, hp⟩ := reach_of_any
    (Session.step (V := emptyCodec) (A := (emptyCodec : Codec Unit Unit)) ⟨true, true, true, 1⟩)
    {} (emptyFile ++ restartSteps ++ [.audioAbsolute])
    (fun s => s.past.length = 1 ∧ s.reader = .top ∧ s.audio.log.eofCalls = 0 ∧
      s.sync.type = .absolute) (by decide)
  exact ⟨s, hs, by simpa using hp⟩

end VideoPlayerCore
