import VideoPlayerCore.ReadLedger

/-!
# The NULL packets for a stream that is not open

At every end of the file the reader writes NULL to both decoders, whatever is open.  A
decoder without a coroutine keeps them all: after `n` iterations there are `n` in its queue,
which has room for 2047.

    the write returns  ↔  the decoder has a coroutine, or fewer than 2047 iterations
                          are completed                              (eof_writes_return)
-/

namespace VideoPlayerCore

open Machine

variable {F G : Type} {V : Codec Nat F} {A : Codec Nat G}

/-- `_readThread`, and how many iterations it has completed. -/
structure ReadLoops (V : Codec Nat F) (A : Codec Nat G) where
  world : ReadWorld V A := {}
  loops : Nat := 0

def ReadLoops.step (s : ReadLoops V A) (a : ReadAct) : Option (ReadLoops V A) :=
  (s.world.step a).map fun world =>
    { world := world, loops := if a = .rewind then s.loops + 1 else s.loops }

/-- The reader is in `Decoder::write`. -/
def ReadPc.writes : ReadPc → Bool
  | .toVideo _ | .toAudio _ | .endVideo | .endAudio => true
  | _ => false

/-- The reader neither reads nor writes, nor frees a packet at the end of the file. -/
def ReadPc.isPlain : ReadPc → Bool
  | .reading _ | .toVideo _ | .toAudio _ | .endVideo | .endAudio | .endFreeing _ => false
  | _ => true

namespace ReadWorld

/-- The decoder that the reader writes to has no coroutine. -/
def WritesUnread (s : ReadWorld V A) : Prop :=
  match s.pc with
  | .toVideo _ | .endVideo => s.video.pc = .exited
  | .toAudio _ | .endAudio => s.audio.pc = .exited
  | _ => False

/-- In some continuation the reader comes out of the call that it is in. -/
def Returns (s : ReadWorld V A) : Prop := ∃ t, Reach ReadWorld.step s t ∧ t.pc ≠ s.pc

end ReadWorld

/-! ## What is in the queue of a decoder without coroutine -/

namespace Decoder

variable {P : Type} {C : Codec P F} {d d' : Decoder C} {n : Nat}

/-- The decoder is open, or it was given `n` packets and keeps them. -/
def Fed (d : Decoder C) (n : Nat) : Prop := d.Open ∨ d.pc = .exited ∧ d.packetQueue.length = n

theorem not_run_of_exited {events : List (DecoderEvent P F)} (hpc : d.pc = .exited) :
    d.run ≠ some (d', events) := by
  unfold Decoder.run
  rw [hpc]
  nofun

theorem Fed.write {packet : Option P} (h : d.Fed n) (hs : d.write packet = some d') :
    d'.Fed (n + 1) := by
  rcases h with hopen | ⟨hpc, hlen⟩
  · exact .inl (hopen.write hs)
  · unfold Decoder.write at hs
    split at hs
    · obtain rfl := Option.some.inj hs
      refine .inr ⟨hpc, ?_⟩
      rw [List.length_append, hlen]
      rfl
    · cases hs

theorem Fed.run {events : List (DecoderEvent P F)} (h : d.Fed n)
    (hs : d.run = some (d', events)) : d'.Fed n := by
  rcases h with hopen | ⟨hpc, -⟩
  · exact .inl (hopen.run hs)
  · exact absurd hs (not_run_of_exited hpc)

theorem write_eq_none_iff {packet : Option P} :
    d.write packet = none ↔ packetRoom ≤ d.packetQueue.length := by
  unfold Decoder.write
  split
  · next hroom => simp [hroom]
  · next hfull => simp [Nat.le_of_not_lt hfull]

theorem write_of_room (packet : Option P) (hroom : d.packetQueue.length < packetRoom) :
    ∃ d', d.write packet = some d' :=
  Option.ne_none_iff_exists'.mp fun hnone =>
    absurd (write_eq_none_iff.mp hnone) (Nat.not_le.mpr hroom)

/-- The coroutine alone. -/
def coroutine (d : Decoder C) (_ : Unit) : Option (Decoder C) := d.run.map Prod.fst

/-- Left alone, the coroutine of an open decoder works its queue off. -/
theorem Open.works_off (h : d.Open) : ∃ d', Reach coroutine d d' ∧ d'.Idle := by
  have hwf : WellFounded (InvImage (Prod.Lex (· < ·) (· < ·))
      fun d : Decoder C => (d.toSend, d.rank)) :=
    InvImage.wf _ (Prod.lex Nat.lt_wfRel Nat.lt_wfRel).wf
  refine ReachIf.leads_to (I := Decoder.Open) hwf (fun e he => ?_) h
  by_cases hidle : e.Idle
  · exact .inl hidle
  · obtain ⟨e', events, hrun, hless⟩ := he.nearer hidle
    have hstep : coroutine e () = some e' := by
      unfold coroutine
      rw [hrun]
      rfl
    refine .inr ⟨e', .single trivial hstep, he.run hrun, ?_⟩
    unfold InvImage
    dsimp only
    rcases hless with hsend | ⟨hsend, hrank⟩
    · exact .left _ _ hsend
    · rw [hsend]
      exact .right _ hrank

end Decoder

namespace ReadWorld

variable {s t : ReadWorld V A}

theorem reach_video {d : Decoder V} (h : Reach Decoder.coroutine s.video d) :
    ∃ t, Reach ReadWorld.step s t ∧ t.video = d ∧ t.pc = s.pc := by
  refine Reach.of_part (f := ReadWorld.video) (I := fun t => t.pc = s.pc) ?_ h rfl
  intro t _ _ hpc hs
  obtain ⟨⟨d', events⟩, hrun, rfl⟩ := Option.map_eq_some_iff.mp hs
  have hstep : t.step .video =
      some { t with video := d', ledger := t.ledger ++ events.flatMap DecoderEvent.entries } := by
    unfold ReadWorld.step
    rw [hrun]
    rfl
  exact ⟨.video, _, hstep, rfl, hpc⟩

theorem reach_audio {d : Decoder A} (h : Reach Decoder.coroutine s.audio d) :
    ∃ t, Reach ReadWorld.step s t ∧ t.audio = d ∧ t.pc = s.pc := by
  refine Reach.of_part (f := ReadWorld.audio) (I := fun t => t.pc = s.pc) ?_ h rfl
  intro t _ _ hpc hs
  obtain ⟨⟨d', events⟩, hrun, rfl⟩ := Option.map_eq_some_iff.mp hs
  have hstep : t.step .audio =
      some { t with audio := d', ledger := t.ledger ++ events.flatMap DecoderEvent.entries } := by
    unfold ReadWorld.step
    rw [hrun]
    rfl
  exact ⟨.audio, _, hstep, rfl, hpc⟩

/-- What the reader writes, and the queue it writes to. -/
def targetLength (s : ReadWorld V A) : Nat :=
  match s.pc with
  | .toVideo _ | .endVideo => s.video.packetQueue.length
  | _ => s.audio.packetQueue.length

/-- A write that finds room returns. -/
theorem go_of_room (hwrites : s.pc.writes = true) (hroom : s.targetLength < packetRoom) :
    ∃ t, s.go = some t ∧ t.pc ≠ s.pc := by
  unfold targetLength at hroom
  unfold ReadWorld.go
  cases hpc : s.pc with
  | toVideo packet =>
    rw [hpc] at hroom
    obtain ⟨d, hd⟩ := Decoder.write_of_room (some packet) hroom
    dsimp only
    rw [hd]
    exact ⟨_, rfl, nofun⟩
  | toAudio packet =>
    rw [hpc] at hroom
    obtain ⟨d, hd⟩ := Decoder.write_of_room (some packet) hroom
    dsimp only
    rw [hd]
    exact ⟨_, rfl, nofun⟩
  | endVideo =>
    rw [hpc] at hroom
    obtain ⟨d, hd⟩ := Decoder.write_of_room none hroom
    dsimp only
    rw [hd]
    exact ⟨_, rfl, nofun⟩
  | endAudio =>
    rw [hpc] at hroom
    obtain ⟨d, hd⟩ := Decoder.write_of_room none hroom
    dsimp only
    rw [hd]
    exact ⟨_, rfl, nofun⟩
  | _ =>
    rw [hpc] at hwrites
    cases hwrites

theorem returns_of_room (hwrites : s.pc.writes = true) (hroom : s.targetLength < packetRoom) :
    s.Returns := by
  obtain ⟨t, ht, hpc⟩ := go_of_room hwrites hroom
  exact ⟨t, .single trivial (show s.step .go = some t from ht), hpc⟩

/-- Along a run with the reader in its call. -/
theorem Returns.of_reach (h : Reach ReadWorld.step s t) (hpc : t.pc = s.pc) (ht : t.Returns) :
    s.Returns := by
  obtain ⟨u, hu, hne⟩ := ht
  exact ⟨u, h.trans hu, hpc ▸ hne⟩

/-- The coroutine of an open decoder makes room. -/
theorem returns_of_open (hwrites : s.pc.writes = true)
    (hvideo : s.pc = .endVideo ∨ (∃ packet, s.pc = .toVideo packet) → s.video.Open)
    (haudio : s.pc = .endAudio ∨ (∃ packet, s.pc = .toAudio packet) → s.audio.Open) :
    s.Returns := by
  have hemptied : ∀ t : ReadWorld V A, Reach ReadWorld.step s t → t.pc = s.pc →
      t.targetLength = 0 → s.Returns := by
    intro t ht hpc hlen
    refine Returns.of_reach ht hpc (returns_of_room (hpc ▸ hwrites) ?_)
    rw [hlen]
    exact Nat.zero_lt_succ _
  have hviaVideo : s.pc = .endVideo ∨ (∃ packet, s.pc = .toVideo packet) → s.Returns := by
    intro hpc
    obtain ⟨d, hd, hidle⟩ := (hvideo hpc).works_off
    obtain ⟨t, ht, rfl, hsame⟩ := reach_video hd
    refine hemptied t ht hsame ?_
    unfold targetLength
    rcases hpc with hpc | ⟨packet, hpc⟩ <;> rw [hsame, hpc] <;> simp [hidle.2]
  have hviaAudio : s.pc = .endAudio ∨ (∃ packet, s.pc = .toAudio packet) → s.Returns := by
    intro hpc
    obtain ⟨d, hd, hidle⟩ := (haudio hpc).works_off
    obtain ⟨t, ht, rfl, hsame⟩ := reach_audio hd
    refine hemptied t ht hsame ?_
    unfold targetLength
    rcases hpc with hpc | ⟨packet, hpc⟩ <;> rw [hsame, hpc] <;> simp [hidle.2]
  cases hpc : s.pc with
  | toVideo packet => exact hviaVideo (.inr ⟨packet, hpc⟩)
  | endVideo => exact hviaVideo (.inl hpc)
  | toAudio packet => exact hviaAudio (.inr ⟨packet, hpc⟩)
  | endAudio => exact hviaAudio (.inl hpc)
  | _ =>
    rw [hpc] at hwrites
    cases hwrites

/-- While the reader is in `Decoder::write`, others only move the coroutines. -/
theorem step_while_writing {a : ReadAct} (hwrites : s.pc.writes = true)
    (hs : s.step a = some t) :
    a = .go ∨ t.pc = s.pc ∧ (t.video = s.video ∨ ∃ events, s.video.run = some (t.video, events)) ∧
      (t.audio = s.audio ∨ ∃ events, s.audio.run = some (t.audio, events)) := by
  have hnever : ∀ {pc : ReadPc}, s.pc = pc → pc.writes = false → False := by
    intro pc hpc hnot
    rw [hpc, hnot] at hwrites
    cases hwrites
  cases a with
  | go => exact .inl rfl
  | stop =>
    obtain rfl := Option.some.inj hs
    exact .inr ⟨rfl, .inl rfl, .inl rfl⟩
  | video =>
    obtain ⟨⟨d, events⟩, hd, hs⟩ := Option.bind_eq_some_iff.mp hs
    obtain rfl := Option.some.inj hs
    exact .inr ⟨rfl, .inr ⟨events, hd⟩, .inl rfl⟩
  | audio =>
    obtain ⟨⟨d, events⟩, hd, hs⟩ := Option.bind_eq_some_iff.mp hs
    obtain rfl := Option.some.inj hs
    exact .inr ⟨rfl, .inl rfl, .inr ⟨events, hd⟩⟩
  | _ =>
    unfold ReadWorld.step at hs
    dsimp only at hs
    split at hs
    · next hpc => exact (hnever hpc rfl).elim
    · cases hs

/-- Nobody reads the full queue of a decoder without coroutine. -/
theorem stuck_step {a : ReadAct} (hwrites : s.pc.writes = true) (hunread : s.WritesUnread)
    (hfull : packetRoom ≤ s.targetLength) (hs : s.step a = some t) :
    t.pc = s.pc ∧ t.WritesUnread ∧ t.targetLength = s.targetLength := by
  have hnone : s.go = none := by
    unfold WritesUnread at hunread
    unfold targetLength at hfull
    unfold ReadWorld.go
    cases hpc : s.pc with
    | toVideo packet =>
      rw [hpc] at hfull
      dsimp only
      rw [Decoder.write_eq_none_iff.mpr hfull]
      rfl
    | endVideo =>
      rw [hpc] at hfull
      dsimp only
      rw [Decoder.write_eq_none_iff.mpr hfull]
      rfl
    | toAudio packet =>
      rw [hpc] at hfull
      dsimp only
      rw [Decoder.write_eq_none_iff.mpr hfull]
      rfl
    | endAudio =>
      rw [hpc] at hfull
      dsimp only
      rw [Decoder.write_eq_none_iff.mpr hfull]
      rfl
    | _ => simp [hpc, ReadPc.writes] at hwrites
  rcases step_while_writing hwrites hs with rfl | ⟨hpc, hv, ha⟩
  · have hgo : s.go = some t := hs
    rw [hnone] at hgo
    cases hgo
  · unfold WritesUnread targetLength at *
    rw [hpc]
    cases hp : s.pc with
    | toVideo packet =>
      rw [hp] at hunread
      have hsame := hv.resolve_right fun ⟨_, hrun⟩ => Decoder.not_run_of_exited hunread hrun
      exact ⟨rfl, hsame ▸ hunread, hsame ▸ rfl⟩
    | endVideo =>
      rw [hp] at hunread
      have hsame := hv.resolve_right fun ⟨_, hrun⟩ => Decoder.not_run_of_exited hunread hrun
      exact ⟨rfl, hsame ▸ hunread, hsame ▸ rfl⟩
    | toAudio packet =>
      rw [hp] at hunread
      have hsame := ha.resolve_right fun ⟨_, hrun⟩ => Decoder.not_run_of_exited hunread hrun
      exact ⟨rfl, hsame ▸ hunread, hsame ▸ rfl⟩
    | endAudio =>
      rw [hp] at hunread
      have hsame := ha.resolve_right fun ⟨_, hrun⟩ => Decoder.not_run_of_exited hunread hrun
      exact ⟨rfl, hsame ▸ hunread, hsame ▸ rfl⟩
    | _ =>
      rw [hp] at hwrites
      cases hwrites

theorem not_returns_of_full (hwrites : s.pc.writes = true) (hunread : s.WritesUnread)
    (hfull : packetRoom ≤ s.targetLength) : ¬s.Returns := by
  rintro ⟨t, ht, hne⟩
  have hstuck : t.pc = s.pc ∧ t.WritesUnread ∧ t.targetLength = s.targetLength := by
    refine ht.invariant
      (I := fun u => u.pc = s.pc ∧ u.WritesUnread ∧ u.targetLength = s.targetLength)
      ⟨rfl, hunread, rfl⟩ ?_
    rintro u a v ⟨hpc, hu, hlen⟩ hs
    obtain ⟨hpc', hv, hlen'⟩ := stuck_step (hpc ▸ hwrites) hu (hlen ▸ hfull) hs
    exact ⟨hpc'.trans hpc, hv, hlen'.trans hlen⟩
  exact hne hstuck.1

end ReadWorld

/-! ## Whole runs -/

namespace ReadLoops

variable {s t : ReadLoops V A} {a : ReadAct}

/-- How many NULL packets were written to each decoder. -/
def videoMarks (s : ReadLoops V A) : Nat :=
  match s.world.pc with
  | .endFreeing _ | .endVideo => s.loops
  | _ => if s.world.eof then s.loops + 1 else s.loops

def audioMarks (s : ReadLoops V A) : Nat :=
  match s.world.pc with
  | .endFreeing _ | .endVideo | .endAudio => s.loops
  | _ => if s.world.eof then s.loops + 1 else s.loops

/-- In the read loop. -/
structure Looping (s : ReadLoops V A) : Prop where
  video : s.world.video.Fed s.videoMarks
  audio : s.world.audio.Fed s.audioMarks
  hasVideo : s.world.hasVideo = true → s.world.video.Open
  hasAudio : s.world.hasAudio = true → s.world.audio.Open
  reading : ∀ packet, s.world.pc = .reading packet → s.world.eof = false
  ending : s.world.pc = .endVideo ∨ s.world.pc = .endAudio ∨
    (∃ packet, s.world.pc = .endFreeing packet) → s.world.eof = true
  toVideo : ∀ packet, s.world.pc = .toVideo packet → s.world.hasVideo = true
  toAudio : ∀ packet, s.world.pc = .toAudio packet → s.world.hasAudio = true

def Inv (s : ReadLoops V A) : Prop :=
  match s.world.pc with
  | .opening => s.loops = 0 ∧ s.world.eof = false
  | .closingVideo _ | .closingAudio _ | .returned => True
  | _ => Looping s

/-- A step of the reader that moves no packet. -/
theorem Looping.moves (h : Looping s) (hvideo : t.world.video = s.world.video)
    (haudio : t.world.audio = s.world.audio) (hhasVideo : t.world.hasVideo = s.world.hasVideo)
    (hhasAudio : t.world.hasAudio = s.world.hasAudio) (hmarks : t.videoMarks = s.videoMarks)
    (hmarks' : t.audioMarks = s.audioMarks)
    (hreading : ∀ packet, t.world.pc = .reading packet → t.world.eof = false)
    (hending : t.world.pc = .endVideo ∨ t.world.pc = .endAudio ∨
      (∃ packet, t.world.pc = .endFreeing packet) → t.world.eof = true)
    (htoVideo : ∀ packet, t.world.pc = .toVideo packet → t.world.hasVideo = true)
    (htoAudio : ∀ packet, t.world.pc = .toAudio packet → t.world.hasAudio = true) : Looping t where
  video := by rw [hvideo, hmarks]; exact h.video
  audio := by rw [haudio, hmarks']; exact h.audio
  hasVideo := by rw [hvideo, hhasVideo]; exact h.hasVideo
  hasAudio := by rw [haudio, hhasAudio]; exact h.hasAudio
  reading := hreading
  ending := hending
  toVideo := htoVideo
  toAudio := htoAudio

/-- Such a step to a place that nothing is said about. -/
theorem Looping.moves_plain (h : Looping s) (hvideo : t.world.video = s.world.video)
    (haudio : t.world.audio = s.world.audio) (hhasVideo : t.world.hasVideo = s.world.hasVideo)
    (hhasAudio : t.world.hasAudio = s.world.hasAudio) (hmarks : t.videoMarks = s.videoMarks)
    (hmarks' : t.audioMarks = s.audioMarks) (hplain : t.world.pc.isPlain = true) : Looping t := by
  refine h.moves hvideo haudio hhasVideo hhasAudio hmarks hmarks' ?_ ?_ ?_ ?_
  · intro packet hpc
    rw [hpc] at hplain
    cases hplain
  · rintro (hpc | hpc | ⟨packet, hpc⟩) <;> rw [hpc] at hplain <;> cases hplain
  · intro packet hpc
    rw [hpc] at hplain
    cases hplain
  · intro packet hpc
    rw [hpc] at hplain
    cases hplain

/-- The coroutine of a decoder moves. -/
theorem Looping.video_runs {d : Decoder V} {events : List (DecoderEvent Nat F)}
    {ledger : List (Ledgers.Entry Nat)} (h : Looping s)
    (hd : s.world.video.run = some (d, events)) :
    Looping { s with world := { s.world with video := d, ledger := ledger } } where
  video := h.video.run hd
  audio := h.audio
  hasVideo := fun hhas => (h.hasVideo hhas).run hd
  hasAudio := h.hasAudio
  reading := h.reading
  ending := h.ending
  toVideo := h.toVideo
  toAudio := h.toAudio

theorem Looping.audio_runs {d : Decoder A} {events : List (DecoderEvent Nat G)}
    {ledger : List (Ledgers.Entry Nat)} (h : Looping s)
    (hd : s.world.audio.run = some (d, events)) :
    Looping { s with world := { s.world with audio := d, ledger := ledger } } where
  video := h.video
  audio := h.audio.run hd
  hasVideo := h.hasVideo
  hasAudio := fun hhas => (h.hasAudio hhas).run hd
  reading := h.reading
  ending := h.ending
  toVideo := h.toVideo
  toAudio := h.toAudio

/-- A step of a party that leaves the reader where it is. -/
theorem Inv.beside (h : s.Inv) (hpc : t.world.pc = s.world.pc)
    (hopening : s.loops = 0 ∧ s.world.eof = false → t.loops = 0 ∧ t.world.eof = false)
    (hlooping : Looping s → Looping t) : t.Inv := by
  unfold Inv at h ⊢
  rw [hpc]
  cases hp : s.world.pc <;> rw [hp] at h <;> first | exact hlooping h | exact hopening h | trivial

theorem Inv.openStreams {video audioDecoder audioDevice : Bool} (h : s.Inv)
    (hs : s.step (.openStreams video audioDecoder audioDevice) = some t) : t.Inv := by
  obtain ⟨world, hworld, rfl⟩ := Option.map_eq_some_iff.mp hs
  unfold ReadWorld.step at hworld
  dsimp only at hworld
  split at hworld
  · next hpc =>
    obtain rfl := Option.some.inj hworld
    unfold Inv at h
    rw [hpc] at h
    obtain ⟨hloops, heof⟩ := h
    have hmarks : (if s.world.eof = true then s.loops + 1 else s.loops) = 0 := by
      rw [heof, hloops]
      rfl
    have hopened : ∀ {P F : Type} {C : Codec P F}, (Decoder.opened : Decoder C).Open :=
      ⟨rfl, nofun⟩
    refine ⟨?_, ?_, ?_, ?_, nofun, ?_, nofun, nofun⟩
    · show Decoder.Fed _ (if s.world.eof = true then s.loops + 1 else s.loops)
      rw [hmarks]
      cases video
      · exact .inr ⟨rfl, rfl⟩
      · exact .inl hopened
    · show Decoder.Fed _ (if s.world.eof = true then s.loops + 1 else s.loops)
      rw [hmarks]
      cases audioDecoder
      · exact .inr ⟨rfl, rfl⟩
      · exact .inl hopened
    · rintro rfl
      exact hopened
    · intro hhas
      obtain ⟨rfl, -⟩ := Bool.and_eq_true_iff.mp hhas
      exact hopened
    · rintro (hpc | hpc | ⟨packet, hpc⟩) <;> cases hpc
  · cases hworld

theorem Inv.read {result : PacketRead} (h : s.Inv) (hs : s.step (.read result) = some t) :
    t.Inv := by
  obtain ⟨world, hworld, rfl⟩ := Option.map_eq_some_iff.mp hs
  unfold ReadWorld.step at hworld
  dsimp only at hworld
  split at hworld
  · next packet hpc =>
    obtain rfl := Option.some.inj hworld
    have hloop : Looping s := by
      unfold Inv at h
      rw [hpc] at h
      exact h
    have heof := hloop.reading packet hpc
    have hvideo : s.videoMarks = s.loops := by simp [videoMarks, hpc, heof]
    have haudio : s.audioMarks = s.loops := by simp [audioMarks, hpc, heof]
    unfold ReadWorld.afterRead
    cases result with
    | packet stream =>
      dsimp only
      split
      · next hto =>
        refine hloop.moves rfl rfl rfl rfl ?_ ?_ nofun ?_ (fun _ _ => hto.2) nofun
        · rw [hvideo]; simp [videoMarks, heof]
        · rw [haudio]; simp [audioMarks, heof]
        · rintro (hp | hp | ⟨_, hp⟩) <;> cases hp
      · split
        · next hto =>
          refine hloop.moves rfl rfl rfl rfl ?_ ?_ nofun ?_ nofun (fun _ _ => hto.2)
          · rw [hvideo]; simp [videoMarks, heof]
          · rw [haudio]; simp [audioMarks, heof]
          · rintro (hp | hp | ⟨_, hp⟩) <;> cases hp
        · refine hloop.moves_plain rfl rfl rfl rfl ?_ ?_ rfl
          · rw [hvideo]; simp [videoMarks, heof]
          · rw [haudio]; simp [audioMarks, heof]
    | eof =>
      refine hloop.moves rfl rfl rfl rfl ?_ ?_ nofun (fun _ => rfl) nofun nofun
      · rw [hvideo]; rfl
      · rw [haudio]; rfl
    | error => trivial
  · cases hworld

/-- A packet is written, and the reader is back at its loop head or writes the next one. -/
theorem Looping.writes_video {packet : Option Nat} {d : Decoder V} {pc : ReadPc}
    (h : Looping s) (hd : s.world.video.write packet = some d)
    (hmarks : ∀ n, s.world.video.Fed n → d.Fed (n + 1) →
      d.Fed (videoMarks { s with world := { s.world with video := d, pc := pc } }))
    (hmarks' : audioMarks { s with world := { s.world with video := d, pc := pc } } = s.audioMarks)
    (hpc : pc = .top ∨ pc = .endAudio ∧ s.world.eof = true) :
    Looping { s with world := { s.world with video := d, pc := pc } } where
  video := hmarks _ h.video (h.video.write hd)
  audio := by rw [hmarks']; exact h.audio
  hasVideo := fun hhas => (h.hasVideo hhas).write hd
  hasAudio := h.hasAudio
  reading := by rintro packet' hp; rcases hpc with rfl | ⟨rfl, -⟩ <;> cases hp
  ending := by
    rcases hpc with rfl | ⟨rfl, heof⟩
    · rintro (hp | hp | ⟨_, hp⟩) <;> cases hp
    · exact fun _ => heof
  toVideo := by rintro packet' hp; rcases hpc with rfl | ⟨rfl, -⟩ <;> cases hp
  toAudio := by rintro packet' hp; rcases hpc with rfl | ⟨rfl, -⟩ <;> cases hp

theorem Looping.writes_audio {packet : Option Nat} {d : Decoder A} (h : Looping s)
    (hd : s.world.audio.write packet = some d)
    (hmarks : videoMarks { s with world := { s.world with audio := d, pc := .top } } = s.videoMarks)
    (hmarks' : ∀ n, s.world.audio.Fed n → d.Fed (n + 1) →
      d.Fed (audioMarks { s with world := { s.world with audio := d, pc := .top } })) :
    Looping { s with world := { s.world with audio := d, pc := .top } } where
  video := by rw [hmarks]; exact h.video
  audio := hmarks' _ h.audio (h.audio.write hd)
  hasVideo := h.hasVideo
  hasAudio := fun hhas => (h.hasAudio hhas).write hd
  reading := nofun
  ending := by rintro (hp | hp | ⟨_, hp⟩) <;> cases hp
  toVideo := nofun
  toAudio := nofun

theorem Inv.go (h : s.Inv) (hs : s.step .go = some t) : t.Inv := by
  obtain ⟨world, hworld, rfl⟩ := Option.map_eq_some_iff.mp hs
  have hworld : s.world.go = some world := hworld
  unfold ReadWorld.go at hworld
  unfold Inv at h
  split at hworld
  · next hpc =>
    rw [hpc] at h
    obtain rfl := Option.some.inj hworld
    by_cases halive : s.world.isAlive = true
    · rw [if_pos halive]
      refine Looping.moves_plain h rfl rfl rfl rfl ?_ ?_ rfl
      · simp [videoMarks, hpc]
      · simp [audioMarks, hpc]
    · rw [if_neg halive]
      trivial
  · next hpc =>
    rw [hpc] at h
    split at hworld
    · obtain rfl := Option.some.inj hworld
      refine Looping.moves_plain h rfl rfl rfl rfl ?_ ?_ rfl
      · simp [videoMarks, hpc]
      · simp [audioMarks, hpc]
    · next heof =>
      obtain rfl := Option.some.inj hworld
      refine Looping.moves h rfl rfl rfl rfl ?_ ?_ (fun _ _ => by simpa using heof) ?_ nofun nofun
      · simp [videoMarks, hpc]
      · simp [audioMarks, hpc]
      · rintro (hp | hp | ⟨_, hp⟩) <;> cases hp
  · next packet hpc =>
    rw [hpc] at h
    obtain ⟨d, hd, hworld⟩ := Option.bind_eq_some_iff.mp hworld
    obtain rfl := Option.some.inj hworld
    have hopen := (Looping.hasVideo h (Looping.toVideo h packet hpc)).write hd
    exact Looping.writes_video h hd (fun _ _ _ => .inl hopen) (by simp [audioMarks, hpc]) (.inl rfl)
  · next packet hpc =>
    rw [hpc] at h
    obtain ⟨d, hd, hworld⟩ := Option.bind_eq_some_iff.mp hworld
    obtain rfl := Option.some.inj hworld
    have hopen := (Looping.hasAudio h (Looping.toAudio h packet hpc)).write hd
    exact Looping.writes_audio h hd (by simp [videoMarks, hpc]) (fun _ _ _ => .inl hopen)
  · next packet hpc =>
    rw [hpc] at h
    obtain rfl := Option.some.inj hworld
    refine Looping.moves_plain h rfl rfl rfl rfl ?_ ?_ rfl
    · simp [videoMarks, hpc, ReadWorld.free]
    · simp [audioMarks, hpc, ReadWorld.free]
  · next packet hpc =>
    rw [hpc] at h
    obtain rfl := Option.some.inj hworld
    have heof := Looping.ending h (.inr (.inr ⟨packet, hpc⟩))
    refine Looping.moves h rfl rfl rfl rfl ?_ ?_ nofun (fun _ => heof) nofun nofun
    · simp [videoMarks, hpc]
    · simp [audioMarks, hpc]
  · next hpc =>
    rw [hpc] at h
    obtain ⟨d, hd, hworld⟩ := Option.bind_eq_some_iff.mp hworld
    obtain rfl := Option.some.inj hworld
    have heof := Looping.ending h (.inl hpc)
    have hfed : d.Fed (s.loops + 1) := by
      have hvideo := Looping.video h
      rw [videoMarks, hpc] at hvideo
      exact hvideo.write hd
    refine Looping.writes_video h hd (fun _ _ _ => ?_) (by simp [audioMarks, hpc]) (.inr ⟨rfl, heof⟩)
    simpa [videoMarks, heof] using hfed
  · next hpc =>
    rw [hpc] at h
    obtain ⟨d, hd, hworld⟩ := Option.bind_eq_some_iff.mp hworld
    obtain rfl := Option.some.inj hworld
    have heof := Looping.ending h (.inr (.inl hpc))
    have hfed : d.Fed (s.loops + 1) := by
      have haudio := Looping.audio h
      rw [audioMarks, hpc] at haudio
      exact haudio.write hd
    refine Looping.writes_audio h hd (by simp [videoMarks, hpc, heof]) (fun _ _ _ => ?_)
    simpa [audioMarks, heof] using hfed
  -- in `close` nothing is said any more
  · obtain rfl := Option.some.inj hworld
    trivial
  · split at hworld
    · obtain rfl := Option.some.inj hworld
      trivial
    · cases hworld
  · next hpc =>
    split at hworld
    · obtain rfl := Option.some.inj hworld
      simp [Inv, ReadWorld.free, hpc]
    · obtain rfl := Option.some.inj hworld
      trivial
  · obtain rfl := Option.some.inj hworld
    trivial
  · split at hworld
    · obtain rfl := Option.some.inj hworld
      trivial
    · cases hworld
  · next hpc =>
    split at hworld
    · obtain rfl := Option.some.inj hworld
      simp [Inv, ReadWorld.free, hpc]
    · obtain rfl := Option.some.inj hworld
      trivial
  · cases hworld

theorem Inv.step (h : s.Inv) (hs : s.step a = some t) : t.Inv := by
  cases a with
  | openStreams video audioDecoder audioDevice => exact h.openStreams hs
  | go => exact h.go hs
  | read result => exact h.read hs
  | openFails =>
    obtain ⟨world, hworld, rfl⟩ := Option.map_eq_some_iff.mp hs
    unfold ReadWorld.step at hworld
    dsimp only at hworld
    split at hworld
    · obtain rfl := Option.some.inj hworld
      trivial
    · cases hworld
  | sleep =>
    obtain ⟨world, hworld, rfl⟩ := Option.map_eq_some_iff.mp hs
    unfold ReadWorld.step at hworld
    dsimp only at hworld
    split at hworld
    · next hpc =>
      obtain rfl := Option.some.inj hworld
      unfold Inv at h
      rw [hpc] at h
      refine Looping.moves_plain h rfl rfl rfl rfl ?_ ?_ rfl
      · simp [videoMarks, hpc]
      · simp [audioMarks, hpc]
    · cases hworld
  | rewind =>
    obtain ⟨world, hworld, rfl⟩ := Option.map_eq_some_iff.mp hs
    unfold ReadWorld.step at hworld
    dsimp only at hworld
    split at hworld
    · next hpc =>
      split at hworld
      · next heof =>
        obtain rfl := Option.some.inj hworld
        unfold Inv at h
        rw [hpc] at h
        refine Looping.moves_plain h rfl rfl rfl rfl ?_ ?_ rfl
        · simp [videoMarks, hpc, heof]
        · simp [audioMarks, hpc, heof]
      · cases hworld
    · cases hworld
  | video =>
    obtain ⟨world, hworld, rfl⟩ := Option.map_eq_some_iff.mp hs
    obtain ⟨⟨d, events⟩, hd, hworld⟩ := Option.bind_eq_some_iff.mp hworld
    obtain rfl := Option.some.inj hworld
    exact h.beside rfl id fun hloop => hloop.video_runs hd
  | audio =>
    obtain ⟨world, hworld, rfl⟩ := Option.map_eq_some_iff.mp hs
    obtain ⟨⟨d, events⟩, hd, hworld⟩ := Option.bind_eq_some_iff.mp hworld
    obtain rfl := Option.some.inj hworld
    exact h.beside rfl id fun hloop => hloop.audio_runs hd
  | stop =>
    obtain ⟨world, hworld, rfl⟩ := Option.map_eq_some_iff.mp hs
    obtain rfl := Option.some.inj hworld
    refine h.beside rfl id fun hloop => ?_
    exact hloop.moves rfl rfl rfl rfl rfl rfl hloop.reading hloop.ending hloop.toVideo hloop.toAudio

theorem inv_start : Inv ({} : ReadLoops V A) := ⟨rfl, rfl⟩

/-- In a write that is for a decoder without coroutine, the queue holds a NULL for every completed
iteration. -/
theorem Inv.unread (h : s.Inv) (hwrites : s.world.pc.writes = true)
    (hunread : s.world.WritesUnread) : s.world.targetLength = s.loops := by
  have hshut : ∀ {P F : Type} {C : Codec P F} {d : Decoder C} {n : Nat}, d.Fed n →
      d.pc = .exited → d.packetQueue.length = n := fun hfed hexit =>
    (hfed.resolve_left fun hopen => hopen.2 hexit).2
  unfold Inv at h
  unfold ReadWorld.WritesUnread at hunread
  unfold ReadWorld.targetLength
  cases hpc : s.world.pc with
  | toVideo packet =>
    rw [hpc] at h hunread
    exact absurd hunread (Looping.hasVideo h (Looping.toVideo h packet hpc)).2
  | toAudio packet =>
    rw [hpc] at h hunread
    exact absurd hunread (Looping.hasAudio h (Looping.toAudio h packet hpc)).2
  | endVideo =>
    rw [hpc] at h hunread
    have hvideo := Looping.video h
    rw [videoMarks, hpc] at hvideo
    exact hshut hvideo hunread
  | endAudio =>
    rw [hpc] at h hunread
    have haudio := Looping.audio h
    rw [audioMarks, hpc] at haudio
    exact hshut haudio hunread
  | _ => simp [hpc, ReadPc.writes] at hwrites

/-- A decoder that is not open in the read loop has no coroutine. -/
theorem Inv.returns_of_read (h : s.Inv) (hwrites : s.world.pc.writes = true)
    (hread : ¬s.world.WritesUnread) : s.world.Returns := by
  have hopen : ∀ {P F : Type} {C : Codec P F} {d : Decoder C} {n : Nat}, d.Fed n →
      d.pc ≠ .exited → d.Open := fun hfed hexit => hfed.resolve_right fun hshut => hexit hshut.1
  unfold Inv at h
  unfold ReadWorld.WritesUnread at hread
  refine ReadWorld.returns_of_open hwrites ?_ ?_
  · rintro (hpc | ⟨packet, hpc⟩) <;> rw [hpc] at h hread <;> exact hopen (Looping.video h) hread
  · rintro (hpc | ⟨packet, hpc⟩) <;> rw [hpc] at h hread <;> exact hopen (Looping.audio h) hread

end ReadLoops

/-- Whatever streams are open: a `Decoder::write` of the reader returns exactly if the decoder has
a coroutine or fewer than 2047 iterations are completed. -/
theorem eof_writes_return {s : ReadLoops V A} (h : Reach ReadLoops.step {} s)
    (hwrites : s.world.pc.writes = true) :
    s.world.Returns ↔ ¬s.world.WritesUnread ∨ s.loops < packetRoom := by
  have hinv : s.Inv := Reach.invariant h ReadLoops.inv_start fun _ _ _ hI hs => hI.step hs
  by_cases hunread : s.world.WritesUnread
  · have hlen := hinv.unread hwrites hunread
    constructor
    · intro hreturns
      by_contra hnot
      rw [not_or, not_not, Nat.not_lt] at hnot
      exact ReadWorld.not_returns_of_full hwrites hunread (hlen ▸ hnot.2) hreturns
    · rintro (hread | hfew)
      · exact absurd hunread hread
      · exact ReadWorld.returns_of_room hwrites (hlen ▸ hfew)
  · exact iff_of_true (hinv.returns_of_read hwrites hunread) (.inl hunread)

/-! ## A file without audio, again and again -/

section NoAudio

variable (eof : Bool) (audio : Decoder lateCodec) (allocated n : Nat)
  (ledger : List (Ledgers.Entry Nat))

/-- The loop head in a session without audio, all packets of video decoded. -/
def loopHead : ReadLoops lateCodec lateCodec where
  world :=
    { hasVideo := true, pc := .top, video := { Decoder.opened with eof := eof }, audio := audio
      allocated := allocated, ledger := ledger }
  loops := n

/-- Behind the NULL for video. -/
def beforeAudio : ReadLoops lateCodec lateCodec where
  world :=
    { hasVideo := true, eof := true, pc := .endAudio
      video := { Decoder.opened with eof := eof, packetQueue := [none] }, audio := audio
      allocated := allocated, ledger := ledger }
  loops := n

theorem exec_endAudio :
    exec ReadLoops.step (loopHead eof audio allocated n ledger) [.go, .go, .read .eof, .go, .go] =
      some (beforeAudio eof audio (allocated + 1) n
        (ledger ++ [.alloc allocated] ++ [.use allocated] ++ [.free allocated])) := rfl

theorem reach_nextHead (hroom : audio.packetQueue.length < packetRoom) :
    ∃ ledger', Reach ReadLoops.step (beforeAudio eof audio allocated n ledger)
      (loopHead true { audio with packetQueue := audio.packetQueue ++ [none] } allocated (n + 1)
        ledger') := by
  let written : Decoder lateCodec := { audio with packetQueue := audio.packetQueue ++ [none] }
  have hwrite : audio.write none = some written := if_pos hroom
  have hfirst : ReadLoops.step (beforeAudio eof audio allocated n ledger) .go =
      some ⟨{ (beforeAudio eof audio allocated n ledger).world with
        audio := written, pc := .top }, n⟩ := by
    unfold ReadLoops.step ReadWorld.step ReadWorld.go beforeAudio
    dsimp only
    rw [hwrite]
    rfl
  have hrest : exec ReadLoops.step ⟨{ (beforeAudio eof audio allocated n ledger).world with
        audio := written, pc := .top }, n⟩ (List.replicate 7 .video ++ [.go, .rewind]) =
      some (loopHead true written allocated (n + 1)
        (ledger ++ [] ++ [] ++ [] ++ [] ++ [] ++ [] ++ [])) := rfl
  exact ⟨_, (ReachIf.single trivial hfirst).trans (reach_of_exec hrest)⟩

end NoAudio

/-- The NULL packets for audio pile up. -/
theorem reach_loopHead (n : Nat) (hn : n ≤ packetRoom) :
    ∃ (eof : Bool) (audio : Decoder lateCodec) (allocated : Nat)
      (ledger : List (Ledgers.Entry Nat)),
      audio.pc = .exited ∧ audio.packetQueue.length = n ∧
        Reach ReadLoops.step {} (loopHead eof audio allocated n ledger) := by
  induction n with
  | zero =>
    have hopen : ReadLoops.step ({} : ReadLoops lateCodec lateCodec)
        (.openStreams true false false) = some (loopHead false {} 0 0 []) := rfl
    exact ⟨false, {}, 0, [], rfl, rfl, .single trivial hopen⟩
  | succ n ih =>
    obtain ⟨eof, audio, allocated, ledger, hpc, hlen, hreach⟩ := ih (Nat.le_of_succ_le hn)
    have hend := reach_of_exec (exec_endAudio eof audio allocated n ledger)
    obtain ⟨ledger', hnext⟩ := reach_nextHead eof audio (allocated + 1) n
      (ledger ++ [.alloc allocated] ++ [.use allocated] ++ [.free allocated]) (hlen ▸ hn)
    have hlen' : (audio.packetQueue ++ [none]).length = n + 1 := by
      rw [List.length_append, hlen]
      rfl
    exact ⟨true, { audio with packetQueue := audio.packetQueue ++ [none] }, allocated + 1, ledger',
      hpc, hlen', (hreach.trans hend).trans hnext⟩

/-- In the first iteration the NULL for audio finds room. -/
theorem eof_writes_return_first :
    ∃ s : ReadLoops lateCodec lateCodec, s.world.hasAudio = false ∧ s.world.pc = .endAudio ∧
      s.world.WritesUnread ∧ s.world.Returns := by
  obtain ⟨eof, audio, allocated, ledger, hpc, -, hreach⟩ := reach_loopHead 0 (Nat.zero_le _)
  have hend := hreach.trans (reach_of_exec (exec_endAudio eof audio allocated 0 ledger))
  have hreturns := (eof_writes_return hend rfl).mpr (.inr (Nat.zero_lt_succ _))
  exact ⟨_, rfl, rfl, show ReadWorld.WritesUnread (beforeAudio ..).world from hpc, hreturns⟩

/-- After 2047 iterations the reader waits for room in the queue of the audio decoder, which
nobody reads. -/
theorem eof_write_never_returns :
    ∃ s : ReadLoops lateCodec lateCodec, Reach ReadLoops.step {} s ∧ s.world.hasAudio = false ∧
      s.world.pc = .endAudio ∧ s.loops = 2047 ∧ ¬s.world.Returns := by
  obtain ⟨eof, audio, allocated, ledger, hpc, hlen, hreach⟩ := reach_loopHead 2047 (Nat.le_refl _)
  have hend := hreach.trans (reach_of_exec (exec_endAudio eof audio allocated 2047 ledger))
  refine ⟨_, hend, rfl, rfl, rfl, ReadWorld.not_returns_of_full rfl hpc ?_⟩
  exact Nat.le_of_eq hlen.symm

end VideoPlayerCore
