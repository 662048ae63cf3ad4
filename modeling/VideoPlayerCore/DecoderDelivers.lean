import VideoPlayerCore.DecoderSteps

/-!
# What the decoder delivers

At its packet read the coroutine has received all output, and after NULL it has flushed: the
codec takes every packet.  Of the packets sent so far,

    onFrameCalls ++ owed = C.outputs C.fresh sent
    freedPackets ++ kept = the packets among sent               (Decoder.Delivers)

and the coroutine comes back to its loop head with an empty queue whenever nothing more is
written, so nothing is owed then (decoder_delivers).
-/

namespace VideoPlayerCore

open Machine

variable {P F : Type} {C : Codec P F}

namespace Decoder

variable {d d' : Decoder C} {written sent : List (Option P)} {events new : List (DecoderEvent P F)}

/-! ## Where packets and frames are -/

/-- A packet read and not sent yet. -/
def hand (d : Decoder C) : List (Option P) :=
  match d.pc with
  | .sending pkt => [pkt]
  | _ => []

/-- A packet sent and not freed yet. -/
def kept (d : Decoder C) : List P :=
  match d.pc with
  | .receiving pkt | .handing pkt _ | .freeing pkt => pkt.toList
  | _ => []

/-- What `onFrame` will still be called with for the packet that was sent. -/
def owed (d : Decoder C) : List (Option F) :=
  match d.pc with
  | .receiving pkt => d.context.output.map some ++ if pkt.isNone then [none] else []
  | .handing pkt out =>
    some out :: (d.context.output.map some ++ if pkt.isNone then [none] else [])
  | .ending => [none]
  | _ => []

/-- The codec's state once that packet is done with. -/
def settled (d : Decoder C) : C.State :=
  match d.pc with
  | .receiving none | .handing none _ | .ending | .flushing => C.fresh
  | _ => d.context.state

/-- The codec takes the next packet, once the coroutine comes to send one. -/
def Ready (d : Decoder C) : Prop :=
  match d.pc with
  | .receiving pkt | .handing pkt _ => d.context.draining = pkt.isNone
  | .ending | .flushing => d.context.output = []
  | _ => d.context.output = [] ∧ d.context.draining = false

/-- Of `written`, the packets `sent` went to the codec so far. -/
structure Delivers (d : Decoder C) (written : List (Option P)) (events : List (DecoderEvent P F))
    (sent : List (Option P)) : Prop where
  ready : d.Ready
  written : written = sent ++ d.hand ++ d.packetQueue
  settled : C.after C.fresh sent = d.settled
  calls : onFrameCalls events ++ d.owed = C.outputs C.fresh sent
  freed : freedPackets events ++ d.kept = sent.filterMap id
  refused : refusedPackets events = []

theorem delivers_opened : Delivers (opened : Decoder C) [] [] [] :=
  ⟨⟨rfl, rfl⟩, rfl, rfl, rfl, rfl, rfl⟩

theorem Delivers.write {packet : Option P} (h : d.Delivers written events sent)
    (hs : d.write packet = some d') : d'.Delivers (written ++ [packet]) events sent := by
  unfold Decoder.write at hs
  split at hs
  · obtain rfl := Option.some.inj hs
    refine ⟨h.ready, ?_, h.settled, h.calls, h.freed, h.refused⟩
    rw [h.written, List.append_assoc]
    rfl
  · cases hs

/-! ## One call of the coroutine -/

theorem onFrameCalls_append (events new : List (DecoderEvent P F)) :
    onFrameCalls (events ++ new) = onFrameCalls events ++ onFrameCalls new :=
  List.filterMap_append ..

theorem freedPackets_append (events new : List (DecoderEvent P F)) :
    freedPackets (events ++ new) = freedPackets events ++ freedPackets new :=
  List.filterMap_append ..

theorem refusedPackets_append (events new : List (DecoderEvent P F)) :
    refusedPackets (events ++ new) = refusedPackets events ++ refusedPackets new :=
  List.filterMap_append ..

/-- A call that sends nothing reports what it takes from `owed` and `kept`. -/
theorem Delivers.goes (h : d.Delivers written events sent) (hready : d'.Ready)
    (hwritten : d.hand ++ d.packetQueue = d'.hand ++ d'.packetQueue)
    (hsettled : d.settled = d'.settled) (howed : d.owed = onFrameCalls new ++ d'.owed)
    (hkept : d.kept = freedPackets new ++ d'.kept) (hrefused : refusedPackets new = []) :
    d'.Delivers written (events ++ new) sent where
  ready := hready
  written := by rw [h.written, List.append_assoc, hwritten, ← List.append_assoc]
  settled := h.settled.trans hsettled
  calls := by rw [← h.calls, howed, onFrameCalls_append, List.append_assoc]
  freed := by rw [← h.freed, hkept, freedPackets_append, List.append_assoc]
  refused := by rw [refusedPackets_append, h.refused, hrefused, List.nil_append]

/-- The codec was drained before, so it takes the packet. -/
theorem Delivers.send {pkt : Option P} (h : d.Delivers written events sent)
    (hpc : d.pc = .sending pkt) (hs : d.run = some (d', new)) :
    d'.Delivers written (events ++ new) (sent ++ [pkt]) := by
  obtain ⟨⟨state, output, draining⟩, queue, isAlive, eof, pc⟩ := d
  obtain rfl : pc = .sending pkt := hpc
  obtain ⟨rfl, rfl⟩ : output = [] ∧ draining = false := h.ready
  obtain ⟨rfl, rfl⟩ := Prod.mk.inj (Option.some.inj hs)
  have hstate : C.after C.fresh sent = state := h.settled
  have hcalls : onFrameCalls events ++ [] = C.outputs C.fresh sent := h.calls
  have hfreed : freedPackets events ++ [] = sent.filterMap id := h.freed
  rw [List.append_nil] at hcalls hfreed
  refine ⟨rfl, ?_, ?_, ?_, ?_, ?_⟩
  · show written = sent ++ [pkt] ++ [] ++ queue
    rw [List.append_nil]
    exact h.written
  · rw [C.after_append, hstate]
    cases pkt <;> rfl
  · rw [onFrameCalls_append, hcalls, C.outputs_append, hstate, List.append_assoc]
    cases pkt <;> rfl
  · rw [freedPackets_append, hfreed, List.filterMap_append, List.append_assoc]
    cases pkt <;> rfl
  · rw [refusedPackets_append, h.refused]
    rfl

/-- Every call keeps what is delivered, whatever packet it is about. -/
theorem Delivers.run (h : d.Delivers written events sent) (hs : d.run = some (d', new)) :
    ∃ sent', d'.Delivers written (events ++ new) sent' := by
  obtain ⟨⟨state, output, draining⟩, queue, isAlive, eof, pc⟩ := d
  cases pc with
  | top =>
    obtain ⟨rfl, rfl⟩ := Prod.mk.inj (Option.some.inj hs)
    cases isAlive <;> exact ⟨_, h.goes h.ready rfl rfl rfl rfl rfl⟩
  | reading =>
    cases queue <;> obtain ⟨rfl, rfl⟩ := Prod.mk.inj (Option.some.inj hs) <;>
      exact ⟨_, h.goes h.ready rfl rfl rfl rfl rfl⟩
  | sending pkt => exact ⟨_, h.send rfl hs⟩
  | receiving pkt =>
    obtain rfl : draining = pkt.isNone := h.ready
    cases output with
    | nil =>
      -- all was received: after NULL the round ends, after a packet it is freed
      cases pkt with
      | none =>
        obtain ⟨rfl, rfl⟩ := Prod.mk.inj (Option.some.inj hs)
        exact ⟨_, h.goes rfl rfl rfl rfl rfl rfl⟩
      | some pkt =>
        obtain ⟨rfl, rfl⟩ := Prod.mk.inj (Option.some.inj hs)
        exact ⟨_, h.goes ⟨rfl, rfl⟩ rfl rfl rfl rfl rfl⟩
    | cons f output =>
      obtain ⟨rfl, rfl⟩ := Prod.mk.inj (Option.some.inj hs)
      cases pkt <;> exact ⟨_, h.goes rfl rfl rfl rfl rfl rfl⟩
  | handing pkt out =>
    obtain ⟨rfl, rfl⟩ := Prod.mk.inj (Option.some.inj hs)
    cases pkt <;> exact ⟨_, h.goes h.ready rfl rfl rfl rfl rfl⟩
  | ending =>
    obtain ⟨rfl, rfl⟩ := Prod.mk.inj (Option.some.inj hs)
    exact ⟨_, h.goes h.ready rfl rfl rfl rfl rfl⟩
  | flushing =>
    obtain ⟨rfl, rfl⟩ := Prod.mk.inj (Option.some.inj hs)
    exact ⟨_, h.goes ⟨rfl, rfl⟩ rfl rfl rfl rfl rfl⟩
  | freeing pkt =>
    obtain ⟨rfl, rfl⟩ := Prod.mk.inj (Option.some.inj hs)
    cases pkt <;> exact ⟨_, h.goes h.ready rfl rfl rfl rfl rfl⟩
  | exited => cases hs

/-! ## The coroutine comes to the end of its queue -/

/-- At its loop head, and nothing is left to read. -/
def Idle (d : Decoder C) : Prop := d.pc = .top ∧ d.packetQueue = []

theorem Delivers.idle (h : d.Delivers written events sent) (hidle : d.Idle) :
    onFrameCalls events = C.outputs C.fresh written ∧
      freedPackets events = written.filterMap id := by
  obtain ⟨context, queue, isAlive, eof, pc⟩ := d
  obtain ⟨rfl, rfl⟩ : pc = .top ∧ queue = [] := hidle
  have hcalls : onFrameCalls events ++ [] = C.outputs C.fresh sent := h.calls
  have hfreed : freedPackets events ++ [] = sent.filterMap id := h.freed
  have hwritten : written = sent ++ [] ++ [] := h.written
  rw [List.append_nil] at hcalls hfreed
  rw [List.append_nil, List.append_nil] at hwritten
  rw [hwritten]
  exact ⟨hcalls, hfreed⟩

/-- How many packets are still to be sent. -/
def toSend (d : Decoder C) : Nat := d.hand.length + d.packetQueue.length

/-- How far the coroutine is from its next send, or from finding the queue empty. -/
def rank (d : Decoder C) : Nat :=
  match d.pc with
  | .top => if d.packetQueue.isEmpty then 0 else 3
  | .reading => 2
  | .sending _ => 1
  | .receiving _ => 2 * d.context.output.length + 7
  | .handing _ _ => 2 * d.context.output.length + 8
  | .ending => 6
  | .flushing => 5
  | .freeing _ => 4
  | .exited => 0

/-- Until `close` the coroutine goes on. -/
def Open (d : Decoder C) : Prop := d.isAlive = true ∧ d.pc ≠ .exited

theorem Open.write {packet : Option P} (h : d.Open) (hs : d.write packet = some d') : d'.Open := by
  unfold Decoder.write at hs
  split at hs
  · obtain rfl := Option.some.inj hs
    exact h
  · cases hs

theorem Open.run (h : d.Open) (hs : d.run = some (d', new)) : d'.Open := by
  obtain ⟨halive, hexit⟩ := h
  unfold Decoder.run at hs
  split at hs
  · obtain ⟨rfl, -⟩ := Prod.mk.inj (Option.some.inj hs)
    refine ⟨halive, ?_⟩
    rw [if_pos halive]
    nofun
  all_goals try split at hs
  all_goals try split at hs
  all_goals cases hs
  all_goals exact ⟨halive, nofun⟩

/-- Every call of a coroutine that is not idle brings it nearer. -/
theorem Open.nearer (h : d.Open) (hidle : ¬ d.Idle) :
    ∃ d' new, d.run = some (d', new) ∧
      (d'.toSend < d.toSend ∨ d'.toSend = d.toSend ∧ d'.rank < d.rank) := by
  obtain ⟨halive, hexit⟩ := h
  obtain ⟨⟨state, output, draining⟩, queue, isAlive, eof, pc⟩ := d
  obtain rfl : isAlive = true := halive
  cases pc with
  | top =>
    cases queue with
    | nil => exact absurd ⟨rfl, rfl⟩ hidle
    | cons pkt queue => exact ⟨_, _, rfl, .inr ⟨rfl, by simp [rank]⟩⟩
  | reading =>
    cases queue with
    | nil => exact ⟨_, _, rfl, .inr ⟨rfl, by simp [rank]⟩⟩
    | cons pkt queue =>
      refine ⟨_, _, rfl, .inr ⟨?_, by simp [rank]⟩⟩
      simp [toSend, hand]
      omega
  | sending pkt => exact ⟨_, _, rfl, .inl (by simp [toSend, hand])⟩
  | receiving pkt =>
    cases output with
    | nil =>
      cases pkt <;> exact ⟨_, _, rfl, .inr ⟨rfl, by simp [rank]⟩⟩
    | cons f output =>
      refine ⟨_, _, rfl, .inr ⟨rfl, ?_⟩⟩
      simp [rank]
      omega
  | handing pkt out =>
    exact ⟨_, _, rfl, .inr ⟨rfl, Nat.lt_succ_self _⟩⟩
  | ending => exact ⟨_, _, rfl, .inr ⟨rfl, by simp [rank]⟩⟩
  | flushing => exact ⟨_, _, rfl, .inr ⟨rfl, by simp [rank]⟩⟩
  | freeing pkt =>
    refine ⟨_, _, rfl, .inr ⟨rfl, ?_⟩⟩
    cases queue <;> simp [rank]
  | exited => exact absurd rfl hexit

end Decoder

/-! ## Runs -/

namespace Codec

variable (C)

theorem after_round (st : C.State) (packets : List P) :
    C.after st (packets.map some ++ [none]) = C.fresh := by
  rw [C.after_append]
  rfl

/-- Round by round: the frames of its packets, then NULL. -/
theorem outputs_rounds (rounds : List (List P)) :
    C.outputs C.fresh (rounds.flatMap fun packets => packets.map some ++ [none]) =
      rounds.flatMap fun packets => (C.framesOf packets).map some ++ [none] := by
  induction rounds with
  | nil => rfl
  | cons packets rounds ih =>
    rw [List.flatMap_cons, List.flatMap_cons, C.outputs_append, C.after_round,
      C.outputs_marked, ih]

end Codec

namespace DecoderRun

variable {s t : DecoderRun C} {a : DecoderAct P}

structure Sound (s : DecoderRun C) : Prop where
  isOpen : s.decoder.Open
  delivers : ∃ sent, s.decoder.Delivers s.written s.events sent

theorem sound_start : Sound ({} : DecoderRun C) :=
  ⟨⟨rfl, nofun⟩, [], Decoder.delivers_opened⟩

theorem Sound.step (h : s.Sound) (hs : s.step a = some t) : t.Sound := by
  obtain ⟨hopen, sent, hdelivers⟩ := h
  cases a with
  | write packet =>
    obtain ⟨d', hd, hs⟩ := Option.bind_eq_some_iff.mp hs
    obtain rfl := Option.some.inj hs
    exact ⟨hopen.write hd, sent, hdelivers.write hd⟩
  | run =>
    obtain ⟨⟨d', new⟩, hd, hs⟩ := Option.bind_eq_some_iff.mp hs
    obtain rfl := Option.some.inj hs
    exact ⟨hopen.run hd, hdelivers.run hd⟩

def distance (s : DecoderRun C) : Nat × Nat := (s.decoder.toSend, s.decoder.rank)

/-- Nearer to the end of the queue. -/
def Nearer : DecoderRun C → DecoderRun C → Prop :=
  InvImage (Prod.Lex (· < ·) (· < ·)) distance

theorem nearer_wf : WellFounded (Nearer (C := C)) :=
  InvImage.wf distance (Prod.lex Nat.lt_wfRel Nat.lt_wfRel).wf

theorem Sound.nearer (h : s.Sound) (hidle : ¬ s.decoder.Idle) :
    ∃ t, s.step .run = some t ∧ t.Sound ∧ t.written = s.written ∧ Nearer t s := by
  obtain ⟨d', new, hrun, hless⟩ := h.isOpen.nearer hidle
  have hs : s.step .run = some { s with decoder := d', events := s.events ++ new } := by
    rw [DecoderRun.step, hrun]
    rfl
  refine ⟨_, hs, h.step hs, rfl, ?_⟩
  unfold Nearer InvImage distance
  rcases hless with hsend | ⟨hsend, hrank⟩
  · exact .left _ _ hsend
  · dsimp only
    rw [hsend]
    exact .right _ hrank

/-- Left alone, the coroutine works its queue off. -/
theorem Sound.works_off (h : s.Sound) :
    ∃ t, ReachIf DecoderRun.step (fun _ a => a = .run) s t ∧ t.Sound ∧
      t.written = s.written ∧ t.decoder.Idle := by
  refine ReachIf.leads_to (s := s) (I := fun t => t.Sound ∧ t.written = s.written)
    (G := fun t => t.Sound ∧ t.written = s.written ∧ t.decoder.Idle) nearer_wf ?_ ⟨h, rfl⟩
  rintro t ⟨ht, hwritten⟩
  by_cases hidle : t.decoder.Idle
  · exact .inl ⟨ht, hwritten, hidle⟩
  · obtain ⟨u, hs, hu, hsame, hless⟩ := ht.nearer hidle
    exact .inr ⟨u, .single rfl hs, ⟨hu, hsame.trans hwritten⟩, hless⟩

theorem Sound.idle (h : s.Sound) (hidle : s.decoder.Idle) :
    onFrameCalls s.events = C.outputs C.fresh s.written ∧
      freedPackets s.events = s.written.filterMap id := by
  obtain ⟨-, sent, hdelivers⟩ := h
  exact hdelivers.idle hidle

end DecoderRun

/-- The codec takes every packet.  What `onFrame` was called with is the beginning of what the
codec gives for the packets written, and all of it, with every packet freed, as soon as the
coroutine has worked its queue off; left alone it does. -/
theorem decoder_delivers {s : DecoderRun C} (h : Reach DecoderRun.step {} s) :
    refusedPackets s.events = [] ∧
      (∃ rest, onFrameCalls s.events ++ rest = C.outputs C.fresh s.written) ∧
      (∃ rest, freedPackets s.events ++ rest = s.written.filterMap id) ∧
      (s.decoder.Idle → onFrameCalls s.events = C.outputs C.fresh s.written ∧
        freedPackets s.events = s.written.filterMap id ∧
        ∀ rounds : List (List P), s.written = (rounds.flatMap fun packets => packets.map some ++ [none]) →
          onFrameCalls s.events =
            rounds.flatMap fun packets => (C.framesOf packets).map some ++ [none]) ∧
      ∃ t, ReachIf DecoderRun.step (fun _ a => a = .run) s t ∧ t.written = s.written ∧
        t.decoder.Idle := by
  have hsound : s.Sound :=
    Reach.invariant h DecoderRun.sound_start fun t a u ht hs => ht.step hs
  obtain ⟨hopen, sent, hdelivers⟩ := id hsound
  obtain ⟨hready, hwritten, -, hcalls, hfreed, hrefused⟩ := hdelivers
  refine ⟨hrefused, ?_, ?_, fun hidle => ?_, ?_⟩
  · refine ⟨s.decoder.owed ++ C.outputs (C.after C.fresh sent)
      (s.decoder.hand ++ s.decoder.packetQueue), ?_⟩
    rw [← List.append_assoc, hcalls, ← C.outputs_append, ← List.append_assoc, ← hwritten]
  · refine ⟨s.decoder.kept ++ (s.decoder.hand ++ s.decoder.packetQueue).filterMap id, ?_⟩
    rw [← List.append_assoc, hfreed, ← List.filterMap_append, ← List.append_assoc, ← hwritten]
  · obtain ⟨hall, hfree⟩ := hsound.idle hidle
    refine ⟨hall, hfree, fun rounds hrounds => ?_⟩
    rw [hall, hrounds, C.outputs_rounds]
  · obtain ⟨t, ht, -, hsame, hidle⟩ := hsound.works_off
    exact ⟨t, ht, hsame, hidle⟩

/-- A codec that gives each frame one packet later. -/
def lateCodec : Codec Nat Nat where
  State := Option Nat
  fresh := none
  decode := fun st pkt => (st.toList, pkt)

/-- Two rounds. -/
theorem decoder_delivers_rounds :
    ∃ s : DecoderRun lateCodec,
      s.written = [some 1, some 2, none, some 3, none] ∧ s.decoder.Idle ∧
        onFrameCalls s.events = [some 1, some 2, none, some 3, none] ∧
        freedPackets s.events = [1, 2, 3] := by
  obtain ⟨s, hreach, hend⟩ := reach_of_any DecoderRun.step ({} : DecoderRun lateCodec)
    (([some 1, some 2, none, some 3, none].map DecoderAct.write) ++ List.replicate 35 .run)
    (fun s => decide (s.written = [some 1, some 2, none, some 3, none]) &&
      decide (s.decoder.pc = .top ∧ s.decoder.packetQueue = [])) (by decide +kernel)
  simp only [Bool.and_eq_true, decide_eq_true_eq] at hend
  obtain ⟨hwritten, hidle⟩ := hend
  obtain ⟨-, -, -, hall, -⟩ := decoder_delivers hreach
  obtain ⟨hcalls, hfreed, -⟩ := hall hidle
  rw [hwritten] at hcalls hfreed
  exact ⟨s, hwritten, hidle, hcalls, hfreed⟩

end VideoPlayerCore
