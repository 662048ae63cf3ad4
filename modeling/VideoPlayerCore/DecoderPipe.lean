import VideoPlayerCore.DecoderDelivers

/-!
# The decoder, call by call, is the decoder of a pipe

`Pipe.decoderStep` reads a packet and gets all its frames from the codec in one step, and
frees packets silently.  Seen through `Decoder.pipe`, every call of the coroutine is such a
step or none, as long as the codec takes every packet, which it does (decoder_delivers).

    s.step .run = some t → the pipe stays, or makes its decoder step    (decoder_refines_pipe)
-/

namespace VideoPlayerCore

open Machine

variable {P F : Type} {C : Codec P F}

namespace Decoder

variable {d d' : Decoder C} {new : List (DecoderEvent P F)}

/-- Where the decoder of a pipe stands: a packet that was read counts as sent, and one that is
still to be freed as done. -/
def pipePc (d : Decoder C) : DecoderPc F :=
  match d.pc with
  | .top | .freeing none => .top
  | .reading => .reading
  | .sending pkt => .emitting pkt.isNone (C.decode d.context.state pkt).1
  | .receiving pkt => .emitting pkt.isNone d.context.output
  | .handing pkt out => .emitting pkt.isNone (out :: d.context.output)
  | .ending => .emitting true []
  | .flushing => .flushing
  | .freeing (some _) => .emitting false []
  | .exited => .exited

def pipeCodec (d : Decoder C) : C.State :=
  match d.pc with
  | .sending pkt => (C.decode d.context.state pkt).2
  | _ => d.context.state

/-- The decoder as part of a pipe with this frame queue. -/
def pipe (d : Decoder C) (frameQueue : List (Option F)) : Pipe C where
  packetQueue := d.packetQueue
  decoder := d.pipePc
  codec := d.pipeCodec
  frameQueue := frameQueue

theorem write_pipe (packet : Option P) (q : List (Option F)) :
    (d.write packet).map (fun d' => d'.pipe q) = (d.pipe q).write packet := by
  have hlen : (d.pipe q).packetQueue.length = d.packetQueue.length := rfl
  unfold write Pipe.write
  rw [hlen]
  by_cases hroom : d.packetQueue.length < packetRoom
  · rw [if_pos hroom, if_pos hroom]
    rfl
  · rw [if_neg hroom, if_neg hroom]
    rfl

/-- A call is a step of the pipe, whose frame queue gets the frame handed out, or no step. -/
theorem run_pipe {room : Nat} {q : List (Option F)} (hready : d.Ready) (hroom : q.length < room)
    (hs : d.run = some (d', new)) :
    d'.pipe (q ++ onFrameCalls new) = d.pipe q ∨
      (d.pipe q).decoderStep room d.isAlive = some (d'.pipe (q ++ onFrameCalls new)) := by
  have hnone : q ++ onFrameCalls ([] : List (DecoderEvent P F)) = q := List.append_nil q
  obtain ⟨⟨state, output, draining⟩, queue, isAlive, eof, pc⟩ := d
  cases pc with
  | top =>
    obtain ⟨rfl, rfl⟩ := Prod.mk.inj (Option.some.inj hs)
    rw [hnone]
    cases isAlive <;> exact .inr rfl
  | reading =>
    cases queue <;> obtain ⟨rfl, rfl⟩ := Prod.mk.inj (Option.some.inj hs) <;> rw [hnone] <;>
      exact .inr rfl
  | sending pkt =>
    obtain ⟨rfl, rfl⟩ : output = [] ∧ draining = false := hready
    obtain ⟨rfl, rfl⟩ := Prod.mk.inj (Option.some.inj hs)
    exact .inl (congrArg (pipe _) (List.append_nil q))
  | receiving pkt =>
    cases output with
    | nil =>
      cases pkt <;> obtain ⟨rfl, rfl⟩ := Prod.mk.inj (Option.some.inj hs) <;> rw [hnone] <;>
        exact .inl rfl
    | cons f output =>
      obtain ⟨rfl, rfl⟩ := Prod.mk.inj (Option.some.inj hs)
      rw [hnone]
      exact .inl rfl
  | handing pkt out =>
    obtain ⟨rfl, rfl⟩ := Prod.mk.inj (Option.some.inj hs)
    exact .inr (if_pos hroom)
  | ending =>
    obtain ⟨rfl, rfl⟩ := Prod.mk.inj (Option.some.inj hs)
    exact .inr (if_pos hroom)
  | flushing =>
    obtain ⟨rfl, rfl⟩ := Prod.mk.inj (Option.some.inj hs)
    rw [hnone]
    exact .inr rfl
  | freeing pkt =>
    have hquiet : onFrameCalls (pkt.toList.map .freed : List (DecoderEvent P F)) = [] := by
      cases pkt <;> rfl
    obtain ⟨rfl, rfl⟩ := Prod.mk.inj (Option.some.inj hs)
    rw [hquiet, List.append_nil]
    cases pkt with
    | none => exact .inl rfl
    | some pkt => exact .inr rfl
  | exited => cases hs

end Decoder

/-- In any run, a `write` is a write of the pipe, and a call of the coroutine a step of its
decoder or none. -/
theorem decoder_refines_pipe {s t : DecoderRun C} {a : DecoderAct P} {room : Nat}
    {q : List (Option F)} (h : Reach DecoderRun.step {} s) (hroom : q.length < room)
    (hs : s.step a = some t) :
    match a with
    | .write packet => (s.decoder.pipe q).write packet = some (t.decoder.pipe q)
    | .run => ∃ new, t.events = s.events ++ new ∧
        (t.decoder.pipe (q ++ onFrameCalls new) = s.decoder.pipe q ∨
          (s.decoder.pipe q).decoderStep room true =
            some (t.decoder.pipe (q ++ onFrameCalls new))) := by
  have hsound : s.Sound :=
    Reach.invariant h DecoderRun.sound_start fun t a u ht hs => ht.step hs
  obtain ⟨⟨halive, -⟩, sent, hdelivers⟩ := hsound
  cases a with
  | write packet =>
    obtain ⟨d', hd, hs⟩ := Option.bind_eq_some_iff.mp hs
    obtain rfl := Option.some.inj hs
    dsimp only
    rw [← Decoder.write_pipe, hd]
    rfl
  | run =>
    obtain ⟨⟨d', new⟩, hd, hs⟩ := Option.bind_eq_some_iff.mp hs
    obtain rfl := Option.some.inj hs
    have hpipe := Decoder.run_pipe hdelivers.ready hroom hd
    rw [halive] at hpipe
    exact ⟨new, rfl, hpipe⟩

end VideoPlayerCore
