import Mathlib.Data.List.Basic

/-!
# Pipe: packet queue, decoder coroutine, frame queue

One stream between the reader and its display thread.  The two ring buffers are
lists with a bound (`room`, one less than the ring's capacity); a `write` or `read`
that fails is retried by its caller, so here it is not enabled.  NULL packets and
NULL frames are `none`.

What has entered a pipe leaves it as the decoder's output, in order:

    fed = consumed ++ packetQueue
    taken ++ frameQueue ++ pending = outputs fresh consumed     (Pipe.Carries)
-/

namespace VideoPlayerCore

variable {P F : Type}

/-- The FFmpeg decoder behind an `AVCodecContext`. -/
structure Codec (P F : Type) where
  State : Type
  /-- After `avcodec_open2` and after `avcodec_flush_buffers`. -/
  fresh : State
  /-- The frames that `avcodec_receive_frame` gives after a packet was sent, and the
  state once it has no more; `none` drains. -/
  decode : State → Option P → List F × State

/-- A codec that gives nothing. -/
def emptyCodec : Codec Unit F where
  State := Unit
  fresh := ()
  decode := fun _ _ => ([], ())

/-- A codec that gives one frame for each packet and holds none back. -/
def frameCodec (f : F) : Codec Unit F where
  State := Unit
  fresh := ()
  decode := fun _ pkt => (if pkt.isSome then [f] else [], ())

/-- Where the coroutine of `Decoder::open` stands. -/
inductive DecoderPc (F : Type)
  /-- `while (_isAlive)` -/
  | top
  /-- `_packetQueue.read(&pkt, 1)` -/
  | reading
  /-- the receive loop, with the frames still to come; `eof` is `!pkt` -/
  | emitting (eof : Bool) (frames : List F)
  /-- before `avcodec_flush_buffers` -/
  | flushing
  | exited
  deriving DecidableEq

structure Pipe (C : Codec P F) where
  packetQueue : List (Option P) := []
  decoder : DecoderPc F := .top
  codec : C.State := C.fresh
  frameQueue : List (Option F) := []

/-- `AudioRingBuffer<AVPacket*, 2048>` -/
def packetRoom : Nat := 2048 - 1

/-- `AudioRingBuffer<AVFrame*, 2>` of `Video` -/
def videoRoom : Nat := 2 - 1

/-- `AudioRingBuffer<AVFrame*, 8>` of `Audio` -/
def audioRoom : Nat := 8 - 1

namespace Pipe

variable {C : Codec P F}

/-- A `Decoder::write` that succeeds. -/
def write (p : Pipe C) (pkt : Option P) : Option (Pipe C) :=
  if p.packetQueue.length < packetRoom then
    some { p with packetQueue := p.packetQueue ++ [pkt] }
  else none

/-- An `_onFrame(frame)` that succeeds. -/
def onFrame (p : Pipe C) (room : Nat) (frame : Option F) (next : DecoderPc F) :
    Option (Pipe C) :=
  if p.frameQueue.length < room then
    some { p with frameQueue := p.frameQueue ++ [frame], decoder := next }
  else none

/-- A step of the decoder coroutine. -/
def decoderStep (room : Nat) (isAlive : Bool) (p : Pipe C) : Option (Pipe C) :=
  match p.decoder with
  | .top => some { p with decoder := if isAlive then .reading else .exited }
  | .reading =>
    match p.packetQueue with
    | [] => some { p with decoder := .top }
    | pkt :: rest =>
      let (frames, codec) := C.decode p.codec pkt
      some { p with packetQueue := rest, decoder := .emitting pkt.isNone frames, codec := codec }
  | .emitting eof (f :: frames) => p.onFrame room (some f) (.emitting eof frames)
  | .emitting true [] => p.onFrame room none .flushing
  | .emitting false [] => some { p with decoder := .top }
  | .flushing => some { p with decoder := .top, codec := C.fresh }
  | .exited => none

/-- A `_frameQueue.read` that succeeds. -/
def takeFrame (p : Pipe C) : Option (Option F × Pipe C) :=
  match p.frameQueue with
  | [] => none
  | f :: rest => some (f, { p with frameQueue := rest })

end Pipe

/-! ## What a decoder owes for the packets it is fed -/

namespace Codec

variable (C : Codec P F)

/-- Everything `onFrame` is handed for the packets, NULL after each drain. -/
def outputs : C.State → List (Option P) → List (Option F)
  | _, [] => []
  | st, some pkt :: rest =>
    (C.decode st (some pkt)).1.map some ++ outputs (C.decode st (some pkt)).2 rest
  | st, none :: rest => (C.decode st none).1.map some ++ none :: outputs C.fresh rest

/-- The decoder's state after the packets. -/
def after : C.State → List (Option P) → C.State
  | st, [] => st
  | st, some pkt :: rest => after (C.decode st (some pkt)).2 rest
  | _, none :: rest => after C.fresh rest

theorem outputs_append (st : C.State) (a b : List (Option P)) :
    C.outputs st (a ++ b) = C.outputs st a ++ C.outputs (C.after st a) b := by
  induction a generalizing st with
  | nil => rfl
  | cons pkt a ih => cases pkt <;> simp [outputs, after, ih]

theorem after_append (st : C.State) (a b : List (Option P)) :
    C.after st (a ++ b) = C.after (C.after st a) b := by
  induction a generalizing st with
  | nil => rfl
  | cons pkt a ih => cases pkt <;> simp [after, ih]

/-- The frames of an iteration: its packets, then the drain. -/
def framesOf (packets : List P) : List F := go C.fresh packets
where
  go : C.State → List P → List F
    | st, [] => (C.decode st none).1
    | st, pkt :: rest => (C.decode st (some pkt)).1 ++ go (C.decode st (some pkt)).2 rest

theorem outputs_go (st : C.State) (packets : List P) :
    C.outputs st (packets.map some ++ [none]) = (framesOf.go C st packets).map some ++ [none] := by
  induction packets generalizing st with
  | nil => rfl
  | cons pkt packets ih => simp [outputs, framesOf.go, ih]

/-- NULL comes out once, behind all frames. -/
theorem outputs_marked (packets : List P) :
    C.outputs C.fresh (packets.map some ++ [none]) = (C.framesOf packets).map some ++ [none] :=
  C.outputs_go C.fresh packets

end Codec

/-! ## Conservation -/

namespace Pipe

variable {C : Codec P F}

/-- What the decoder coroutine still has to hand to `onFrame` for its packet. -/
def pending (p : Pipe C) : List (Option F) :=
  match p.decoder with
  | .emitting eof frames => frames.map some ++ if eof then [none] else []
  | _ => []

/-- The codec's state once the current packet is done. -/
def settled (p : Pipe C) : C.State :=
  match p.decoder with
  | .emitting true _ | .flushing => C.fresh
  | _ => p.codec

/-- The pipe has been fed `fed`, and `taken` has been taken from it. -/
def Carries (p : Pipe C) (fed : List (Option P)) (taken : List (Option F)) : Prop :=
  ∃ consumed, fed = consumed ++ p.packetQueue ∧ C.after C.fresh consumed = p.settled ∧
    taken ++ p.frameQueue ++ p.pending = C.outputs C.fresh consumed

theorem carries_start : Carries ({} : Pipe C) [] [] := ⟨[], rfl, rfl, rfl⟩

variable {p q : Pipe C} {fed : List (Option P)} {taken : List (Option F)}

theorem Carries.write {pkt : Option P} (h : p.Carries fed taken) (hs : p.write pkt = some q) :
    q.Carries (fed ++ [pkt]) taken := by
  obtain ⟨consumed, hfed, hafter, hout⟩ := h
  unfold Pipe.write at hs
  split at hs
  · obtain rfl := Option.some.inj hs
    exact ⟨consumed, by rw [hfed, List.append_assoc], hafter, hout⟩
  · cases hs

theorem Carries.takeFrame {f : Option F} (h : p.Carries fed taken)
    (hs : p.takeFrame = some (f, q)) : q.Carries fed (taken ++ [f]) := by
  obtain ⟨consumed, hfed, hafter, hout⟩ := h
  obtain ⟨packetQueue, decoder, codec, frameQueue⟩ := p
  unfold Pipe.takeFrame at hs
  split at hs
  · cases hs
  · next g rest hq =>
    obtain rfl : frameQueue = g :: rest := hq
    obtain ⟨rfl, rfl⟩ := Prod.mk.inj (Option.some.inj hs)
    refine ⟨consumed, hfed, hafter, ?_⟩
    rw [← hout]
    show taken ++ [g] ++ rest ++ _ = taken ++ (g :: rest) ++ _
    simp only [List.append_assoc, List.singleton_append]
    rfl

/-- An item moves from the decoder to the frame queue. -/
theorem Carries.onFrame {room : Nat} {f : Option F} {next : DecoderPc F}
    (h : p.Carries fed taken) (hs : p.onFrame room f next = some q)
    (hpending : p.pending = f :: q.pending) (hsettled : q.settled = p.settled) :
    q.Carries fed taken := by
  obtain ⟨consumed, hfed, hafter, hout⟩ := h
  unfold Pipe.onFrame at hs
  split at hs
  · obtain rfl := Option.some.inj hs
    refine ⟨consumed, hfed, by rw [hsettled, hafter], ?_⟩
    rw [← hout, hpending]
    show taken ++ (p.frameQueue ++ [f]) ++ _ = taken ++ p.frameQueue ++ f :: _
    simp only [List.append_assoc, List.singleton_append]
  · cases hs

/-- The decoder loses, repeats and reorders nothing. -/
theorem Carries.decoderStep {room : Nat} {isAlive : Bool} (h : p.Carries fed taken)
    (hs : p.decoderStep room isAlive = some q) : q.Carries fed taken := by
  obtain ⟨packetQueue, decoder, codec, frameQueue⟩ := p
  cases decoder with
  | top =>
    obtain rfl := Option.some.inj hs
    cases isAlive <;> exact h
  | reading =>
    cases packetQueue with
    | nil =>
      obtain rfl := Option.some.inj hs
      exact h
    | cons pkt rest =>
      obtain rfl := Option.some.inj hs
      obtain ⟨consumed, hfed, hafter, hout⟩ := h
      refine ⟨consumed ++ [pkt], by rw [hfed]; simp, ?_, ?_⟩
      · rw [C.after_append, hafter]
        cases pkt <;> rfl
      · rw [C.outputs_append, hafter, ← hout]
        cases pkt <;> simp [pending, settled, Codec.outputs]
  | emitting eof frames =>
    cases frames with
    | nil =>
      cases eof with
      | false =>
        obtain rfl := Option.some.inj hs
        exact h
      | true =>
        refine h.onFrame hs ?_ ?_ <;>
          (simp only [Pipe.decoderStep, Pipe.onFrame] at hs; split at hs <;> cases hs; rfl)
    | cons f frames =>
      refine h.onFrame hs ?_ ?_ <;>
        (simp only [Pipe.decoderStep, Pipe.onFrame] at hs; split at hs <;> cases hs)
      · rfl
      · cases eof <;> rfl
  | flushing =>
    obtain rfl := Option.some.inj hs
    exact h
  | exited => cases hs

/-! ## Behind the NULL marker -/

theorem none_mem_outputs (C : Codec P F) (st : C.State) (fed : List (Option P)) :
    none ∈ C.outputs st fed ↔ none ∈ fed := by
  induction fed generalizing st with
  | nil => simp [Codec.outputs]
  | cons pkt fed ih => cases pkt <;> simp [Codec.outputs, ih]

/-- A part of a marked list that holds the marker is all of it. -/
theorem eq_nil_of_marked {α : Type} {a b : List (Option α)} {xs : List α}
    (h : a ++ b = xs.map some ++ [none]) (ha : none ∈ a) : b = [] := by
  induction a generalizing xs with
  | nil => cases ha
  | cons x a ih =>
    cases xs with
    | nil =>
      obtain ⟨-, hab⟩ := List.cons.inj h
      exact (List.append_eq_nil_iff.mp hab).2
    | cons y ys =>
      obtain ⟨rfl, hab⟩ := List.cons.inj h
      rcases List.mem_cons.mp ha with hx | hmem
      · cases hx
      · exact ih hab hmem

/-- Before the marker is fed, no NULL frame is taken. -/
theorem Carries.none_notMem {packets : List P} (h : p.Carries (packets.map some) taken) :
    none ∉ taken := by
  obtain ⟨consumed, hfed, -, hout⟩ := h
  intro hmem
  have h1 : none ∈ C.outputs C.fresh consumed := by
    rw [← hout]
    exact List.mem_append_left _ (List.mem_append_left _ hmem)
  have h2 : none ∈ packets.map some := by
    rw [hfed]
    exact List.mem_append_left _ ((none_mem_outputs C C.fresh consumed).mp h1)
  simp at h2

/-- Once the NULL frame is taken the pipe is empty, and every frame was taken. -/
theorem Carries.drained {packets : List P} (h : p.Carries (packets.map some ++ [none]) taken)
    (hmem : none ∈ taken) :
    p.packetQueue = [] ∧ p.frameQueue = [] ∧ p.pending = [] ∧
      taken = (C.framesOf packets).map some ++ [none] := by
  obtain ⟨consumed, hfed, -, hout⟩ := h
  have hconsumed : none ∈ consumed := by
    rw [← none_mem_outputs C C.fresh, ← hout]
    exact List.mem_append_left _ (List.mem_append_left _ hmem)
  have hpq : p.packetQueue = [] := eq_nil_of_marked hfed.symm hconsumed
  rw [hpq, List.append_nil] at hfed
  rw [← hfed, C.outputs_marked, List.append_assoc] at hout
  have hrest := eq_nil_of_marked hout hmem
  rw [hrest, List.append_nil] at hout
  obtain ⟨hfq, hpd⟩ := List.append_eq_nil_iff.mp hrest
  exact ⟨hpq, hfq, hpd, hout⟩

/-- Behind the marker a pipe starts over. -/
theorem Carries.restart {packets : List P} (h : p.Carries (packets.map some ++ [none]) taken)
    (hmem : none ∈ taken) : p.Carries [] [] := by
  obtain ⟨hpq, hfq, hpd, -⟩ := h.drained hmem
  obtain ⟨consumed, hfed, hafter, -⟩ := h
  rw [hpq, List.append_nil] at hfed
  refine ⟨[], by rw [hpq]; rfl, ?_, by rw [hfq, hpd]; rfl⟩
  rw [← hafter, ← hfed, C.after_append]
  rfl

/-- What was taken is the beginning of what the decoder owes. -/
theorem Carries.taken_begins (h : p.Carries fed taken) : taken <+: C.outputs C.fresh fed := by
  obtain ⟨consumed, hfed, -, hout⟩ := h
  rw [hfed, C.outputs_append, ← hout, List.append_assoc, List.append_assoc]
  exact List.prefix_append _ _

end Pipe

end VideoPlayerCore
