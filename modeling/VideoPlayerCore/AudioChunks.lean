import VideoPlayerCore.AudioStages

/-!
# Cutting frames into blocks

Runs of `Audio::_displayThread` whose frames are in the device's format, up to the first EOF
marker.

    samples cut = samples of the frames taken                                    (Fed)
    a block is begun, filled in order behind its header, and ended when full     (Ordered)
    beside an open block fewer than seven are published and unplayed             (Sound)

A run keeps them, and the law of the stream (`chunking_of_reach`).
-/

namespace VideoPlayerCore

open AudioRingBuffer BlockWriter Machine Windows

variable {W : Nat} {A : AudioSetup W}

/-- The decoder gives frames of the device's format, and no EOF marker. -/
def FramesOnly (A : AudioSetup W) (_ : AudioThread W) : AudioThreadAct → Prop
  | .decoder none => False
  | .decoder (some f) => A.isDirect f = true
  | _ => True

/-- The samples of a frame, as bytes. -/
def AudioSetup.sampleBytes (A : AudioSetup W) (f : AVFrame) : List UInt8 :=
  read f.data 0 (f.nbSamples * A.bps)

/-- What is left of the frame that is cut. -/
def DisplayPc.left (pc : DisplayPc) : List UInt8 := (pc.job.map fun x => x.2.data).getD []

/-! ## The order of the stores -/

/-- Begin a block, fill its payload without gaps, end it when it is full.  The state is the
open block, with the bytes of its payload that are filled. -/
def blockRules (A : AudioSetup W) : Option (Nat × Nat) → RingStore → Option (Option (Nat × Nat))
  | none, .beginWrite slot => some (some (slot, 0))
  | some (slot, filled), .copy address len =>
    if address = slot + 8 + filled ∧ 0 < len ∧ filled + len ≤ A.frameBytes then
      some (some (slot, filled + len))
    else none
  | some (slot, filled), .endWrite ended =>
    if ended = slot ∧ filled = A.frameBytes then some none else none
  | _, _ => none

/-- The block that is open where the thread stands. -/
def openBlock (A : AudioSetup W) (b : BlockWriter W) : DisplayPc → Option (Nat × Nat)
  | .starting _ _ | .filling _ _ => some (b.buf, b.writtenSamples * A.bps)
  | _ => if b.writtenSamples = 0 then none else some (b.buf, b.writtenSamples * A.bps)

/-- The stores so far keep the rules. -/
def Ordered (A : AudioSetup W) (b : BlockWriter W) (pc : DisplayPc) : Prop :=
  exec (blockRules A) none b.stores = some (openBlock A b pc)

namespace BlockWriter

variable {b : BlockWriter W} {rest : Rest}

theorem fillOf_pos (hwritten : b.writtenSamples < A.samples) (havail : rest.avail ≠ 0) :
    0 < b.fillOf A rest := by
  unfold fillOf
  omega

/-- A pass of the block loop copies into the open block, and ends it if it is full. -/
theorem ordered_fill {d : Dequeued} (h : Inv A b rest.data) (hfits : rest.Fits A)
    (hbuf : b.buf = b.ring.writePos.toNat) (havail : rest.avail ≠ 0)
    (hordered : Ordered A b (.filling d rest)) (rest' : Rest) :
    Ordered A (b.fill A rest) (.cutting d rest') := by
  have hpos := fillOf_pos h.written_lt havail
  have hle : (b.copy A rest).writtenSamples ≤ A.samples := copy_writtenSamples_le h.written_lt
  have hlen := length_taken (b := b) hfits
  have hsum : b.writtenSamples * A.bps + b.fillOf A rest * A.bps =
      (b.copy A rest).writtenSamples * A.bps := (Nat.add_mul _ _ _).symm
  have hcopy : exec (blockRules A) none (b.copy A rest).stores =
      some (some (b.buf, (b.copy A rest).writtenSamples * A.bps)) := by
    show exec (blockRules A) none (b.stores ++ [.copy _ _]) = _
    rw [exec_concat, hordered, Option.bind_some, hlen, hfits.bps]
    unfold openBlock blockRules
    dsimp only
    rw [hsum, if_pos ⟨rfl, Nat.mul_pos hpos A.bps_pos, Nat.mul_le_mul_right _ hle⟩]
  unfold BlockWriter.fill
  dsimp only
  by_cases hfull : (b.copy A rest).writtenSamples = A.samples
  · rw [if_pos hfull]
    show exec (blockRules A) none ((b.copy A rest).stores ++ [.endWrite _]) = some none
    rw [exec_concat, hcopy, Option.bind_some, hfull]
    exact if_pos ⟨hbuf.symm, rfl⟩
  · rw [if_neg hfull]
    have hopen : (b.copy A rest).writtenSamples ≠ 0 := by
      show b.writtenSamples + b.fillOf A rest ≠ 0
      omega
    show exec (blockRules A) none (b.copy A rest).stores =
      some (if (b.copy A rest).writtenSamples = 0 then none else _)
    rw [if_neg hopen, hcopy]
    rfl

theorem ordered_beginWrite {b' : BlockWriter W} {d : Dequeued} {header : ℚ}
    (hnone : b.writtenSamples = 0) (hordered : Ordered A b (.cutting d rest))
    (hs : b.beginWrite A header = some b') : Ordered A b' (.starting d rest) := by
  obtain rfl := beginWrite_eq hs
  have hclosed : openBlock A b (.cutting d rest) = none := if_pos hnone
  show exec (blockRules A) none (b.stores ++ [.beginWrite _]) = some (some (_, b.writtenSamples * A.bps))
  rw [exec_concat, hordered, hclosed, hnone, Nat.zero_mul]
  rfl

end BlockWriter

/-! ## The ring behind the thread -/

/-- The callback has taken `played` of the blocks published. -/
structure Sound (A : AudioSetup W) (b : BlockWriter W) (callback : CallbackPc W)
    (begun : Bool) (played : Nat) : Prop where
  counts : b.ring.Counts (b.payloads.length * A.frameAlignBytes.toNat)
    (played * A.frameAlignBytes.toNat)
  room : b.writtenSamples ≠ 0 ∨ begun = true → b.payloads.length + 1 < played + 8
  loaded : ∀ r, callback = .loaded r → r = b.ring.readPos
  mixing : ∀ slot, callback = .mixing slot → played < b.payloads.length
  ending : ∀ r, callback = .ending r → r = b.ring.readPos ∧ played < b.payloads.length

/-- A block is begun, though nothing may be copied yet. -/
def DisplayPc.begun : DisplayPc → Bool
  | .starting _ _ | .filling _ _ => true
  | _ => false

section Sound

variable {b : BlockWriter W} {callback : CallbackPc W} {begun : Bool} {played : Nat}
  {bytes : List UInt8}

theorem frameAlignBytes_pos (A : AudioSetup W) : 0 < A.frameAlignBytes.toNat := by
  have hbytes := A.frameBytes_le
  omega

theorem slots_eq (h : Stream A b bytes) : b.ring.slots = 8 * A.frameAlignBytes.toNat := by
  show b.ring.cap.val.toNat = _
  rw [h.cap, A.capacity_eq]

/-- `begin_write` succeeds if and only if fewer than seven blocks are unplayed. -/
theorem Sound.beginWrite_iff (hs : Sound A b callback begun played) (h : Stream A b bytes)
    (header : ℚ) : (b.beginWrite A header).isSome = true ↔ b.payloads.length + 1 < played + 8 := by
  have hpos := frameAlignBytes_pos A
  have hslot := A.slot_le b.payloads.length
  rw [← h.writePos, ← h.cap] at hslot
  have hroom : b.payloads.length * A.frameAlignBytes.toNat + A.frameAlignBytes.toNat <
      played * A.frameAlignBytes.toNat + b.ring.slots ↔ b.payloads.length + 1 < played + 8 := by
    rw [slots_eq h, ← Nat.succ_mul, ← Nat.add_mul]
    exact Nat.mul_lt_mul_right hpos
  unfold BlockWriter.beginWrite
  rw [Option.isSome_map]
  constructor
  · intro hsome
    obtain ⟨slot, hbegin⟩ := Option.isSome_iff_exists.mp hsome
    exact hroom.mp (hs.counts.beginWrite_eq_some.mp hbegin).2.2
  · intro hlt
    exact Option.isSome_iff_exists.mpr
      ⟨_, hs.counts.beginWrite_eq_some.mpr ⟨rfl, hslot, hroom.mpr hlt⟩⟩

/-- `begin_read` succeeds if and only if a block is unplayed. -/
theorem Sound.beginRead_iff (hs : Sound A b callback begun played) (h : Stream A b bytes) :
    (b.ring.beginRead b.ring.readPos b.ring.writePos A.frameAlignBytes).isSome = true ↔
      played < b.payloads.length := by
  have hpos := frameAlignBytes_pos A
  have hread : b.ring.readPos.toNat = A.slot played := by
    rw [hs.counts.read, slots_eq h, Nat.mul_mod_mul_right]
    rfl
  have hslot := A.slot_le played
  rw [← hread, ← h.cap] at hslot
  have hunread : played * A.frameAlignBytes.toNat + A.frameAlignBytes.toNat ≤
      b.payloads.length * A.frameAlignBytes.toNat ↔ played < b.payloads.length := by
    rw [← Nat.succ_mul]
    exact ⟨fun hle => Nat.le_of_mul_le_mul_right hle hpos, fun hlt => Nat.mul_le_mul_right _ hlt⟩
  constructor
  · intro hsome
    obtain ⟨slot, hbegin⟩ := Option.isSome_iff_exists.mp hsome
    exact hunread.mp (hs.counts.beginRead_eq_some.mp hbegin).2.2
  · intro hlt
    exact Option.isSome_iff_exists.mpr
      ⟨_, hs.counts.beginRead_eq_some.mpr ⟨rfl, hslot, hunread.mpr hlt⟩⟩

/-- Only positions, blocks published and what is open matter. -/
theorem Sound.congr {b' : BlockWriter W} {begun' : Bool} (hs : Sound A b callback begun played)
    (hwrite : b'.ring.writePos = b.ring.writePos) (hread : b'.ring.readPos = b.ring.readPos)
    (hcap : b'.ring.cap = b.ring.cap) (hpayloads : b'.payloads = b.payloads)
    (hroom : b'.writtenSamples ≠ 0 ∨ begun' = true → b.payloads.length + 1 < played + 8) :
    Sound A b' callback begun' played := by
  obtain ⟨⟨hw, hr, hle, hlt⟩, -, hloaded, hmixing, hending⟩ := hs
  have hslots : b'.ring.slots = b.ring.slots := by
    unfold AudioRingBuffer.slots
    rw [hcap]
  rw [← hread] at hloaded hending
  rw [← hpayloads] at hmixing hending hroom
  rw [← hpayloads, ← hslots] at hw
  rw [← hslots] at hr hlt
  rw [← hpayloads] at hle hlt
  rw [← hwrite] at hw
  rw [← hread] at hr
  exact ⟨⟨hw, hr, hle, hlt⟩, hroom, hloaded, hmixing, hending⟩

theorem Sound.endWrite (hs : Sound A b callback begun played)
    (hroom : b.payloads.length + 1 < played + 8) (h : Stream A b bytes) :
    Sound A (b.endWrite A) callback false played := by
  have hpos := frameAlignBytes_pos A
  have hfree : b.payloads.length * A.frameAlignBytes.toNat + A.frameAlignBytes.toNat <
      played * A.frameAlignBytes.toNat + b.ring.slots := by
    rw [slots_eq h, ← Nat.succ_mul, ← Nat.add_mul]
    exact Nat.mul_lt_mul_of_pos_right hroom hpos
  refine ⟨?_, ?_, hs.loaded, ?_, ?_⟩
  · rw [BlockWriter.length_endWrite, Nat.succ_mul]
    exact hs.counts.publish hfree
  · rintro (hopen | hbegun)
    · exact absurd rfl hopen
    · cases hbegun
  · intro slot hc
    rw [BlockWriter.length_endWrite]
    exact Nat.lt_succ_of_lt (hs.mixing slot hc)
  · intro r hc
    rw [BlockWriter.length_endWrite]
    exact ⟨(hs.ending r hc).1, Nat.lt_succ_of_lt (hs.ending r hc).2⟩

theorem Sound.consume (hs : Sound A b callback begun played) {r : BitVec W}
    (hending : callback = .ending r) :
    Sound A (b.consume (b.ring.endRead r A.frameAlignBytes)) .idle begun (played + 1) := by
  obtain ⟨rfl, hlt⟩ := hs.ending r hending
  have hunread : played * A.frameAlignBytes.toNat + A.frameAlignBytes.toNat ≤
      b.payloads.length * A.frameAlignBytes.toNat := by
    rw [← Nat.succ_mul]
    exact Nat.mul_le_mul_right _ hlt
  refine ⟨?_, fun hopen => ?_, nofun, nofun, nofun⟩
  · rw [Nat.succ_mul]
    exact hs.counts.consume hunread
  · exact (hs.room hopen).trans (Nat.lt_succ_self _)

theorem Sound.callbackTo {s : AudioThread W} {c : CallbackPc W}
    (hs : Sound A s.blocks s.callback begun played) (h : Stream A s.blocks bytes)
    (hc : s.CallbackTo A c) : Sound A s.blocks c begun played := by
  obtain ⟨hcounts, hroom, hloaded, hmixing, hending⟩ := id hs
  cases hc with
  | keep => exact hs
  | load hidle =>
    refine ⟨hcounts, hroom, ?_, nofun, nofun⟩
    rintro r ⟨⟩
    rfl
  | refuse r => exact ⟨hcounts, hroom, nofun, nofun, nofun⟩
  | grant r slot hl hread =>
    refine ⟨hcounts, hroom, nofun, fun _ _ => ?_, nofun⟩
    rw [hloaded r hl] at hread
    exact (hs.beginRead_iff h).mp (by rw [hread]; rfl)
  | mix slot hm =>
    refine ⟨hcounts, hroom, nofun, nofun, ?_⟩
    rintro r ⟨⟩
    exact ⟨rfl, hmixing slot hm⟩

end Sound

/-! ## Runs -/

namespace AudioThread

variable {s t : AudioThread W}

/-- Where the thread gets to without an EOF marker. -/
def Streaming (A : AudioSetup W) : DisplayPc → Prop
  | .flushing | .polling | .resetWrite | .resetRead | .clearing => False
  | .converting d => A.isDirect d.frame = true
  | _ => True

/-- Only frames of the device's format wait in `_frameQueue`. -/
def DirectQueue (A : AudioSetup W) (queue : List (Option AVFrame)) : Prop :=
  ∀ x ∈ queue, ∃ f, x = some f ∧ A.isDirect f = true

theorem takeFrame_queue : s.takeFrame.frameQueue = s.frameQueue.tail := by
  unfold takeFrame
  split <;> next hqueue => rw [hqueue]; rfl

theorem display_queue {now : ℚ} {e : SwrAnswers} (h : s.display A now e = some t) :
    t.frameQueue ⊆ s.frameQueue := by
  have hsame : ∀ u : AudioThread W, u.frameQueue = s.frameQueue →
      u.frameQueue ⊆ s.frameQueue := by
    intro u hu x hx
    exact hu ▸ hx
  unfold display at h
  split at h
  case h_2 =>
    obtain rfl := Option.some.inj h
    rw [takeFrame_queue]
    exact (List.tail_sublist _).subset
  case h_8 d _ =>
    obtain rfl := Option.some.inj h
    unfold AudioThread.prepare
    dsimp only
    split
    · exact hsame _ rfl
    · exact hsame _ rfl
  case h_9 d rest _ =>
    obtain rfl := Option.some.inj h
    unfold cut
    split
    · exact hsame _ rfl
    · split
      · dsimp only
        split
        · exact hsame _ rfl
        · exact hsame _ rfl
      · exact hsame _ rfl
  case h_14 => cases h
  all_goals
    obtain rfl := Option.some.inj h
    exact hsame _ rfl

/-- Only the decoder puts frames into the queue. -/
theorem DirectQueue.step {a : AudioThreadAct} (h : DirectQueue A s.frameQueue)
    (hok : FramesOnly A s a) (hs : s.step A a = some t) : DirectQueue A t.frameQueue := by
  cases a with
  | display now e => exact fun x hx => h x (display_queue hs hx)
  | callback now =>
    obtain rfl := Option.some.inj hs
    unfold DirectQueue
    rw [(audioCallback_beside now).2.2.2]
    exact h
  | close => exact fun x hx => h x ((close_beside hs).2.2.2 hx)
  | decoder frame =>
    cases frame with
    | none => exact hok.elim
    | some f =>
      simp only [AudioThread.step, decoder] at hs
      split at hs
      · obtain rfl := Option.some.inj hs
        intro x hx
        rcases List.mem_append.mp hx with hx | hx
        · exact h x hx
        · exact ⟨f, List.mem_singleton.mp hx, hok⟩
      · cases hs
  | setVolume value =>
    obtain rfl := Option.some.inj hs
    exact h
  | clock call =>
    obtain rfl := Option.some.inj hs
    exact h
  | restart =>
    obtain rfl := Option.some.inj hs
    exact h

theorem Streaming.step (h : Streaming A s.pc) (hqueue : DirectQueue A s.frameQueue)
    (hs : s.Moves A t) : Streaming A t.pc := by
  cases hs with
  | aside | consume | drain | poll | sleep => exact h
  | begin | leave | idle | skip | prepare | done | beginWrite | resume | wait | play | fill
  | endLoop | exit => trivial
  | flush hpc | drained hpc | resetWrite hpc | resetRead hpc | clear _ hpc =>
    rw [hpc] at h
    exact h.elim
  | marker queue _ hhead =>
    rw [hhead] at hqueue
    obtain ⟨f, hf, -⟩ := hqueue none List.mem_cons_self
    cases hf
  | take f queue _ hhead =>
    rw [hhead] at hqueue
    obtain ⟨f', hf, hdirect⟩ := hqueue (some f) List.mem_cons_self
    obtain rfl := Option.some.inj hf
    exact hdirect

/-- A frame of the device's format is cut as it is. -/
theorem Streaming.prepare {d : Dequeued} {e : SwrAnswers} {r : Resampler} {out : Option OutFrame}
    (h : Streaming A (.converting d))
    (hs : s.resampler.prepare A d.frame d.id e = (r, out)) :
    ∃ o, out = some o ∧ (restOf A o).data = A.sampleBytes d.frame := by
  have hdirect : A.isDirect d.frame = true := h
  rw [Resampler.prepare_direct hdirect] at hs
  obtain ⟨-, rfl⟩ := Prod.mk.inj hs
  obtain ⟨hformat, -, hchannels⟩ := A.isDirect_iff.mp hdirect
  refine ⟨_, rfl, ?_⟩
  show read d.frame.data 0 (d.frame.nbSamples *
    (A.bytesPerSample d.frame.format * d.frame.channels)) = _
  rw [hformat, hchannels]
  rfl

theorem Streaming.alive (h : Streaming A s.pc) (halive : OutAlive A s.inputs)
    (hs : s.Moves A t) : OutAlive A t.inputs := by
  cases hs with
  | skip d e r hpc | prepare d e r o hpc =>
    rw [hpc] at h
    have hdirect : A.isDirect d.frame = true := h
    exact (outAlive_direct hdirect).mpr halive
  | _ => exact halive

/-- The samples that the blocks are made of are those of the frames taken. -/
def Fed (A : AudioSetup W) (s : AudioThread W) : Prop :=
  s.blocks.samples = s.inputs.flatMap fun x => A.sampleBytes x.1

theorem Fed.step (h : Fed A s) (hstreaming : Streaming A s.pc) (hs : s.Moves A t) : Fed A t := by
  cases hs with
  | aside | consume | drain | begin | leave | idle | marker | take | poll | drained | resetWrite
  | resetRead | clear | done | sleep | resume | wait | play | endLoop | exit => exact h
  | flush hpc =>
    rw [hpc] at hstreaming
    exact hstreaming.elim
  | skip d e r hpc hprepare =>
    rw [hpc] at hstreaming
    obtain ⟨o, ho, -⟩ := hstreaming.prepare hprepare
    cases ho
  | prepare d e r o hpc hprepare =>
    rw [hpc] at hstreaming
    obtain ⟨o', ho, hdata⟩ := hstreaming.prepare hprepare
    obtain rfl := Option.some.inj ho
    show s.blocks.samples ++ (restOf A o).data =
      (s.inputs ++ [(d.frame, e)]).flatMap fun x => A.sampleBytes x.1
    rw [h, hdata, List.flatMap_append, List.flatMap_singleton]
  | beginWrite d rest b _ _ _ hbegin =>
    obtain rfl := BlockWriter.beginWrite_eq hbegin
    exact h
  | fill d rest =>
    show (s.blocks.fill A rest).samples = _
    rw [BlockWriter.fill_samples]
    exact h

theorem Ordered.step (hstage : Stage A s.blocks s.pc) (hstreaming : Streaming A s.pc)
    (h : Ordered A s.blocks s.pc) (hs : s.Moves A t) : Ordered A t.blocks t.pc := by
  cases hs with
  | aside | consume | drain | poll | sleep => exact h
  | begin hpc | leave hpc | idle hpc | take _ _ hpc | marker _ hpc | skip _ _ _ hpc
  | prepare _ _ _ _ hpc | done _ _ hpc | wait _ _ _ hpc | play _ _ _ hpc | endLoop _ hpc
  | exit hpc =>
    rw [hpc] at h
    exact h
  | flush hpc | drained hpc | resetWrite hpc | resetRead hpc | clear _ hpc =>
    rw [hpc] at hstreaming
    exact hstreaming.elim
  | beginWrite d rest b hpc _ hwritten hbegin =>
    rw [hpc] at h
    exact BlockWriter.ordered_beginWrite hwritten h hbegin
  | resume d rest hpc _ hwritten =>
    rw [hpc] at h
    have hopen : openBlock A s.blocks (.cutting d rest) =
        some (s.blocks.buf, s.blocks.writtenSamples * A.bps) := if_neg hwritten
    unfold Ordered at h
    rw [hopen] at h
    exact h
  | fill d rest hpc =>
    rw [hpc] at h hstage
    exact BlockWriter.ordered_fill hstage.1.1 hstage.1.2 hstage.2.1 hstage.2.2 h _

theorem Streaming.stream (h : Streaming A s.pc) (hstage : Stage A s.blocks s.pc) :
    Inv A s.blocks s.pc.left := by
  cases hpc : s.pc with
  | flushing | polling | resetWrite | resetRead | clearing =>
    rw [hpc] at h
    exact h.elim
  | cutting d rest =>
    rw [hpc] at hstage
    exact hstage.1
  | starting d rest | filling d rest =>
    rw [hpc] at hstage
    exact hstage.1.1
  | top | reading | converting | endLoop | leaving | exited =>
    rw [hpc] at hstage
    exact hstage

theorem Sound.step {played : Nat} (hstage : Stage A s.blocks s.pc)
    (hstreaming : Streaming A s.pc) (h : Sound A s.blocks s.callback s.pc.begun played)
    (hs : s.Moves A t) : ∃ played, Sound A t.blocks t.callback t.pc.begun played := by
  have hstream := (hstreaming.stream hstage).toStream
  cases hs with
  | aside sync volume queue isAlive closing callback _ hc =>
    exact ⟨played, h.callbackTo hstream hc⟩
  | consume r hending => exact ⟨played + 1, h.consume hending⟩
  | drain | poll | sleep => exact ⟨played, h⟩
  | begin hpc | leave hpc | idle hpc | take _ _ hpc | marker _ hpc | skip _ _ _ hpc
  | done _ _ hpc | wait _ _ _ hpc | play _ _ _ hpc | endLoop _ hpc | exit hpc =>
    rw [hpc] at h
    exact ⟨played, h⟩
  | flush hpc | drained hpc | resetWrite hpc | resetRead hpc | clear _ hpc =>
    rw [hpc] at hstreaming
    exact hstreaming.elim
  | prepare d e r o hpc =>
    rw [hpc] at h
    exact ⟨played, h.congr rfl rfl rfl rfl h.room⟩
  | beginWrite d rest b hpc _ hwritten hbegin =>
    have hroom := (h.beginWrite_iff hstream _).mp (Option.isSome_iff_exists.mpr ⟨b, hbegin⟩)
    obtain rfl := BlockWriter.beginWrite_eq hbegin
    exact ⟨played, h.congr rfl rfl rfl rfl fun _ => hroom⟩
  | resume d rest hpc _ hwritten =>
    exact ⟨played, h.congr rfl rfl rfl rfl fun _ => h.room (.inl hwritten)⟩
  | fill d rest hpc =>
    rw [hpc] at h hstage
    have hroom := h.room (.inr rfl)
    have hcopy : Sound A (s.blocks.copy A rest) s.callback false played :=
      h.congr rfl rfl rfl rfl fun _ => hroom
    refine ⟨played, ?_⟩
    show Sound A (s.blocks.fill A rest) s.callback false played
    unfold BlockWriter.fill
    dsimp only
    split
    · exact hcopy.endWrite hroom (hstage.1.1.toStream.copy hstage.1.2 hstage.2.1)
    · exact hcopy

/-- What holds in every run of frames of the device's format. -/
structure Chunking (A : AudioSetup W) (s : AudioThread W) : Prop where
  converting : Converting A s
  alive : OutAlive A s.inputs
  stage : Stage A s.blocks s.pc
  queue : DirectQueue A s.frameQueue
  streaming : Streaming A s.pc
  fed : Fed A s
  ordered : Ordered A s.blocks s.pc
  sound : ∃ played, Sound A s.blocks s.callback s.pc.begun played

theorem Chunking.step {a : AudioThreadAct} (h : Chunking A s) (hok : FramesOnly A s a)
    (hs : s.step A a = some t) : Chunking A t := by
  have hmoves := step_moves hs
  have halive := h.streaming.alive h.alive hmoves
  obtain ⟨played, hsound⟩ := h.sound
  exact {
    converting := h.converting.step hmoves
    alive := halive
    stage := Stage.step h.converting halive h.stage hmoves
    queue := h.queue.step hok hs
    streaming := h.streaming.step h.queue hmoves
    fed := h.fed.step h.streaming hmoves
    ordered := Ordered.step h.stage h.streaming h.ordered hmoves
    sound := Sound.step h.stage h.streaming hsound hmoves }

theorem chunking_start (A : AudioSetup W) (memory : Nat → UInt8) (sync : ClockSync)
    (volume channelVolume : Int) : Chunking A (start A memory sync volume channelVolume) := by
  have hpos := frameAlignBytes_pos A
  refine ⟨converting_start A memory sync volume channelVolume, Histories.atEach_nil, inv_start A memory,
    nofun, trivial, rfl, rfl, 0, ?_⟩
  refine ⟨⟨?_, ?_, Nat.le_refl _, ?_⟩, ?_, nofun, nofun, nofun⟩
  · simp [start, AudioSetup.channel]
  · simp [start, AudioSetup.channel]
  · simp [start, AudioRingBuffer.slots, AudioSetup.channel, A.capacity_eq, hpos]
  · rintro (hopen | hbegun)
    · exact absurd rfl hopen
    · cases hbegun

/-- Every state of a run of frames of the device's format. -/
theorem chunking_of_reach {memory : Nat → UInt8} {sync : ClockSync} {volume channelVolume : Int}
    (h : ReachIf (step A) (FramesOnly A) (start A memory sync volume channelVolume) s) :
    Chunking A s :=
  h.invariant (chunking_start A memory sync volume channelVolume)
    fun _ _ _ hI hok hs => hI.step hok hs

end AudioThread

end VideoPlayerCore
