import Mathlib.Data.List.ReduceOption
import Mathlib.Tactic.NormNum
import VideoPlayerCore.CloseInvariant

/-!
# When `Video::close` returns

`Decoder::close` waits for the decoder while `Video`'s own `_isAlive` is still set, so a
display thread that waits for its clock goes on waiting, and a decoder that still has
frames for the one-frame queue waits behind it.

    Video::close can return without the audio side ↔
      the decoder owes nothing, or the display thread can take all that is
      before its last item by the clocks as they stand          (close_returns_iff)

One way, every step of the video side carries the condition backwards
(VideoSide.Clears.of_step); the other way, some run from each state that has it comes
closer to the end (VideoSide.Ready.closer).
-/

namespace VideoPlayerCore

open Machine

variable {P : Type}

/-! ## Frames the clocks let go -/

/-- The display thread gets through the frames by calls of `calVideoDelay` at these wall
times (first components), leaving a frame at the second one. -/
def Due (timeBase : ℚ) : List (ℚ × ℚ) → ClockSync → List VideoFrame → Prop
  | _, _, [] => True
  | [], _, _ :: _ => False
  | (now, last) :: times, sync, f :: frames =>
    let (after, delay) := sync.delayOf timeBase now f
    if delay.pos then Due timeBase times after (f :: frames)
    else Due timeBase times (after.leave timeBase last f delay) frames

/-- The same from where the display thread stands. -/
def DisplayDue (timeBase : ℚ) (times : List (ℚ × ℚ)) (sync : ClockSync)
    (frames : List VideoFrame) : VideoDisplay → Prop
  | .calling f => Due timeBase times sync (f :: frames)
  | .waiting f delay =>
    if delay.pos then Due timeBase times sync (f :: frames)
    else ∃ last, Due timeBase times (sync.leave timeBase last f delay) frames
  | .leaving f delay => ∃ last, Due timeBase times (sync.leave timeBase last f delay) frames
  | .top | .reading | .ending | .exited => Due timeBase times sync frames

@[simp] theorem due_nil (timeBase : ℚ) (times : List (ℚ × ℚ)) (sync : ClockSync) :
    Due timeBase times sync [] := by
  cases times <;> trivial

theorem due_cons {timeBase now last : ℚ} {times : List (ℚ × ℚ)} {sync : ClockSync}
    {f : VideoFrame} {frames : List VideoFrame} :
    Due timeBase ((now, last) :: times) sync (f :: frames) ↔
      if (sync.delayOf timeBase now f).2.pos then
        Due timeBase times (sync.delayOf timeBase now f).1 (f :: frames)
      else Due timeBase times ((sync.delayOf timeBase now f).1.leave timeBase last f
        (sync.delayOf timeBase now f).2) frames := Iff.rfl

/-- Fewer frames are easier. -/
theorem Due.take {timeBase : ℚ} {times : List (ℚ × ℚ)} {sync : ClockSync}
    {frames more : List VideoFrame} (h : Due timeBase times sync (frames ++ more)) :
    Due timeBase times sync frames := by
  induction times generalizing sync frames with
  | nil =>
    cases frames with
    | nil => trivial
    | cons f frames => exact h
  | cons time times ih =>
    obtain ⟨now, last⟩ := time
    cases frames with
    | nil => trivial
    | cons f frames =>
      rw [List.cons_append, due_cons] at h
      rw [due_cons]
      by_cases hpos : (sync.delayOf timeBase now f).2.pos = true
      · rw [if_pos hpos] at h ⊢
        have hcons : Due timeBase times (sync.delayOf timeBase now f).1 ((f :: frames) ++ more) := h
        exact ih hcons
      · rw [if_neg hpos] at h ⊢
        exact ih h

/-- As long as audio has not started no frame is let go. -/
theorem not_due_of_awaitsAudio {timeBase : ℚ} {times : List (ℚ × ℚ)} {sync : ClockSync}
    {f : VideoFrame} {frames : List VideoFrame} (hwait : sync.awaitsAudio = true) :
    ¬Due timeBase times sync (f :: frames) := by
  induction times generalizing sync with
  | nil => exact id
  | cons time times ih =>
    obtain ⟨now, last⟩ := time
    have hstart : (sync.startVideo now (some (f.time timeBase))).awaitsAudio = true := by
      unfold ClockSync.awaitsAudio at hwait ⊢
      rw [ClockSync.startVideo_audio]
      exact hwait
    have hdelay : sync.delayOf timeBase now f =
        (sync.startVideo now (some (f.time timeBase)), some 0.01) := by
      unfold ClockSync.delayOf ClockSync.calVideoDelay
      dsimp only
      rw [if_pos hstart]
    have hpos : Pts.pos (some 0.01) = true := by
      show decide ((0 : ℚ) < 0.01) = true
      rw [decide_eq_true_eq]
      norm_num
    rw [due_cons, hdelay, if_pos hpos]
    exact ih hstart

namespace VideoSide

variable {V : Codec P VideoFrame} {timeBase : ℚ} {s t : VideoSide V}

/-- The reader retries `Decoder::write` on a full packet queue. -/
def Blocked (s : VideoSide V) : Bool :=
  match s.reader with
  | .writing _ => decide (packetRoom ≤ s.pipe.packetQueue.length)
  | _ => false

/-- The decoder takes one more packet before it can end. -/
def MustRead (s : VideoSide V) : Bool :=
  match s.pipe.decoder with
  | .reading => true
  | _ => s.Blocked

/-- What the decoder has to hand to `onFrame` before it can end. -/
def owed (s : VideoSide V) : List (Option VideoFrame) :=
  s.pipe.pending ++
    if s.MustRead then V.outputs s.pipe.settled (s.pipe.packetQueue.take 1) else []

/-- The display thread can take all of these but the last, as long as the clocks stand. -/
def CanTake (timeBase : ℚ) (sync : ClockSync) (display : VideoDisplay)
    (items : List (Option VideoFrame)) : Prop :=
  items.length ≤ 1 ∨
    ∃ times, DisplayDue timeBase times sync (items.take (items.length - 2)).reduceOption display

/-- Nothing keeps the decoder from its end: it owes nothing, or the display thread can
take what is before its last item. -/
def Clears (timeBase : ℚ) (s : VideoSide V) : Prop :=
  s.owed = [] ∨ CanTake timeBase s.sync s.display (s.pipe.frameQueue ++ s.owed)

/-! ## What the condition looks at -/

theorem owed_congr (hpipe : t.pipe = s.pipe) (hblocked : t.Blocked = s.Blocked) :
    t.owed = s.owed := by
  unfold owed MustRead
  rw [hpipe, hblocked]

theorem Clears.congr (h : t.Clears timeBase) (howed : t.owed = s.owed) (hsync : t.sync = s.sync)
    (hdisplay : t.display = s.display) (hframes : t.pipe.frameQueue = s.pipe.frameQueue) :
    s.Clears timeBase := by
  unfold Clears at h ⊢
  rw [← howed, ← hsync, ← hdisplay, ← hframes]
  exact h

/-- Only a reader in `Decoder::write` is blocked. -/
theorem not_blocked_of_reader (h : ∀ pkt, s.reader ≠ .writing pkt) : s.Blocked = false := by
  unfold Blocked
  split
  · next pkt hr => exact absurd hr (h pkt)
  · rfl

/-- Short of its next read, an unhindered decoder owes the rest of its packet. -/
theorem owed_eq_pending (hdec : s.pipe.decoder ≠ .reading) (hb : s.Blocked = false) :
    s.owed = s.pipe.pending := by
  have hread : s.MustRead = false := by
    unfold MustRead
    split
    · next h => exact absurd h hdec
    · exact hb
  unfold owed
  rw [hread, if_neg Bool.false_ne_true, List.append_nil]

/-- A decoder that has ended owes nothing. -/
theorem owed_of_exited (hi : s.Inv) (h : s.pipe.decoder = .exited) : s.owed = [] := by
  have hblocked : s.Blocked = false := by
    refine not_blocked_of_reader fun pkt hr => ?_
    have hrun := InvAt.running hi
    rw [hr] at hrun
    have h7 : 4 ≤ 7 := by decide
    exact hrun h7 h
  rw [owed_eq_pending (by rw [h]; simp) hblocked]
  unfold Pipe.pending
  rw [h]

theorem owed_of_not_videoAlive (hi : s.Inv) (h : s.videoAlive = false) : s.owed = [] := by
  refine owed_of_exited hi (hi.ended ?_)
  have halive := hi.videoAlive
  rw [h] at halive
  have hlt : ¬2 ≤ s.reader.stagesLeft := of_decide_eq_false halive.symm
  omega

/-- The reader is blocked before `Decoder::close` only. -/
theorem decoderAlive_of_blocked (hi : s.Inv) (hb : s.Blocked = true) : s.decoderAlive = true := by
  rw [InvAt.decoderAlive hi]
  unfold Blocked at hb
  split at hb
  · next hr =>
    rw [hr]
    exact decide_eq_true (by show 4 ≤ 7; decide)
  · cases hb

section DecoderSteps

variable {eof : Bool} {f : VideoFrame} {frames : List VideoFrame}
  {queue : List (Option VideoFrame)}

/-- Before a packet is awaited it is owed already. -/
theorem owed_top (hdec : s.pipe.decoder = .top) (hb : s.Blocked = true) :
    s.owed = owed { s with pipe := { s.pipe with decoder := .reading } } := by
  simp [owed, MustRead, Pipe.pending, Pipe.settled, hdec, hb]

/-- The packet is done. -/
theorem owed_done (hdec : s.pipe.decoder = .emitting false []) :
    s.owed = owed { s with pipe := { s.pipe with decoder := .top } } := by
  simp [owed, MustRead, Blocked, Pipe.pending, Pipe.settled, hdec]
  rfl

/-- The buffers are flushed. -/
theorem owed_flushed (hdec : s.pipe.decoder = .flushing) :
    s.owed = owed { s with pipe := { s.pipe with decoder := .top, codec := V.fresh } } := by
  simp [owed, MustRead, Blocked, Pipe.pending, Pipe.settled, hdec]
  rfl

/-- `onFrame(nullptr)` -/
theorem owed_marker (hdec : s.pipe.decoder = .emitting true []) : s.owed =
    none :: owed { s with pipe := { s.pipe with frameQueue := queue, decoder := .flushing } } := by
  simp [owed, MustRead, Blocked, Pipe.pending, Pipe.settled, hdec]
  rfl

/-- `onFrame` of a frame -/
theorem owed_frame (hdec : s.pipe.decoder = .emitting eof (f :: frames)) : s.owed =
    some f :: owed { s with
      pipe := { s.pipe with frameQueue := queue, decoder := .emitting eof frames } } := by
  cases eof <;> simp [owed, MustRead, Blocked, Pipe.pending, Pipe.settled, hdec] <;> rfl

end DecoderSteps

/-! ## What the display thread can take -/

/-- Where the display thread stands once it has taken an item. -/
def taken : Option VideoFrame → VideoDisplay
  | none => .ending
  | some f => .calling f

/-- Taking the head leaves the rest to be taken. -/
theorem canTake_cons {sync : ClockSync} {x : Option VideoFrame}
    {items : List (Option VideoFrame)} :
    CanTake timeBase sync .reading (x :: items) ↔ CanTake timeBase sync (taken x) items := by
  unfold CanTake
  by_cases hlen : items.length ≤ 1
  · refine iff_of_true ?_ (.inl hlen)
    by_cases hnil : items.length = 0
    · exact .inl (by rw [List.length_cons]; omega)
    · refine .inr ⟨[], ?_⟩
      have htwo : (x :: items).length - 2 = 0 := by
        rw [List.length_cons]
        omega
      rw [htwo]
      trivial
  · have hlong : ¬(x :: items).length ≤ 1 := by
      rw [List.length_cons]
      omega
    have hsucc : (x :: items).length - 2 = (items.length - 2) + 1 := by
      rw [List.length_cons]
      omega
    rw [or_iff_right hlen, or_iff_right hlong, hsucc, List.take_succ_cons]
    cases x with
    | none => exact Iff.rfl
    | some f => exact Iff.rfl

/-- A call of `calVideoDelay` is the next of the times. -/
theorem displayDue_calling {sync : ClockSync} {f : VideoFrame} {frames : List VideoFrame} :
    (∃ times, DisplayDue timeBase times sync frames (.calling f)) ↔
      ∃ now times, DisplayDue timeBase times (sync.delayOf timeBase now f).1 frames
        (.waiting f (sync.delayOf timeBase now f).2) := by
  constructor
  · rintro ⟨times, h⟩
    cases times with
    | nil => cases h
    | cons time times =>
      obtain ⟨now, last⟩ := time
      have hcons := due_cons.mp h
      refine ⟨now, times, ?_⟩
      show if _ then _ else _
      split at hcons
      · next hpos =>
        rw [if_pos hpos]
        exact hcons
      · next hpos =>
        rw [if_neg hpos]
        exact ⟨last, hcons⟩
  · rintro ⟨now, times, h⟩
    change if _ then _ else _ at h
    split at h
    · next hpos =>
      refine ⟨(now, 0) :: times, due_cons.mpr ?_⟩
      rw [if_pos hpos]
      exact h
    · next hpos =>
      obtain ⟨last, h⟩ := h
      refine ⟨(now, last) :: times, due_cons.mpr ?_⟩
      rw [if_neg hpos]
      exact h

theorem canTake_calling {sync : ClockSync} {f : VideoFrame} {items : List (Option VideoFrame)} :
    CanTake timeBase sync (.calling f) items ↔
      ∃ now, CanTake timeBase (sync.delayOf timeBase now f).1
        (.waiting f (sync.delayOf timeBase now f).2) items := by
  unfold CanTake
  by_cases hlen : items.length ≤ 1
  · exact iff_of_true (.inl hlen) ⟨0, .inl hlen⟩
  · simp only [hlen, false_or]
    exact displayDue_calling

theorem DisplayDue.take {times : List (ℚ × ℚ)} {sync : ClockSync} {display : VideoDisplay}
    {frames more : List VideoFrame}
    (h : DisplayDue timeBase times sync (frames ++ more) display) :
    DisplayDue timeBase times sync frames display := by
  cases display with
  | calling f =>
    have hcons : Due timeBase times sync ((f :: frames) ++ more) := h
    exact hcons.take
  | waiting f delay =>
    change if _ then _ else _ at h
    show if _ then _ else _
    split at h
    · next hpos =>
      rw [if_pos hpos]
      have hcons : Due timeBase times sync ((f :: frames) ++ more) := h
      exact hcons.take
    · next hpos =>
      rw [if_neg hpos]
      obtain ⟨last, h⟩ := h
      exact ⟨last, h.take⟩
  | leaving f delay =>
    obtain ⟨last, h⟩ := h
    exact ⟨last, h.take⟩
  | top | reading | ending | exited =>
    have hdue : Due timeBase times sync (frames ++ more) := h
    exact hdue.take

/-- With fewer items to take there is less to wait for. -/
theorem CanTake.of_append {sync : ClockSync} {display : VideoDisplay}
    {items more : List (Option VideoFrame)}
    (h : CanTake timeBase sync display (items ++ more)) :
    CanTake timeBase sync display items := by
  by_cases hlen : items.length ≤ 1
  · exact .inl hlen
  · have hlong : ¬(items ++ more).length ≤ 1 := by
      rw [List.length_append]
      omega
    obtain ⟨times, hdue⟩ := (or_iff_right hlong).mp h
    refine .inr ⟨times, ?_⟩
    have hsplit : (items ++ more).take ((items ++ more).length - 2) =
        items.take (items.length - 2) ++
          ((items ++ more).drop (items.length - 2)).take more.length := by
      have hsum : (items ++ more).length - 2 = (items.length - 2) + more.length := by
        rw [List.length_append]
        omega
      rw [hsum, List.take_add, List.take_append_of_le_length (by omega)]
    rw [hsplit, List.reduceOption_append] at hdue
    exact DisplayDue.take hdue

/-- Clocks on which audio has not started let nothing go, so other clocks do as well. -/
theorem CanTake.of_awaitsAudio {sync old : ClockSync} {display : VideoDisplay}
    {items : List (Option VideoFrame)} (hwait : sync.awaitsAudio = true)
    (h : CanTake timeBase sync display items) : CanTake timeBase old display items := by
  have hnil : ∀ {times : List (ℚ × ℚ)} {sync : ClockSync} {frames : List VideoFrame},
      sync.awaitsAudio = true → Due timeBase times sync frames → frames = [] := by
    intro times sync frames hwait hdue
    cases frames with
    | nil => rfl
    | cons f frames => exact absurd hdue (not_due_of_awaitsAudio hwait)
  have hleave : ∀ last f delay, (sync.leave timeBase last f delay).awaitsAudio = true := by
    intro last f delay
    unfold ClockSync.leave
    split <;> exact hwait
  rcases h with hlen | ⟨times, hdue⟩
  · exact .inl hlen
  · refine .inr ⟨times, ?_⟩
    cases display with
    | calling f => cases hnil hwait hdue
    | waiting f delay =>
      change if _ then _ else _ at hdue
      show if _ then _ else _
      split at hdue
      · cases hnil hwait hdue
      · next hpos =>
        obtain ⟨last, hdue⟩ := hdue
        rw [if_neg hpos, hnil (hleave _ _ _) hdue]
        exact ⟨last, due_nil _ _ _⟩
    | leaving f delay =>
      obtain ⟨last, hdue⟩ := hdue
      rw [hnil (hleave _ _ _) hdue]
      exact ⟨last, due_nil _ _ _⟩
    | top | reading | ending | exited =>
      rw [hnil hwait hdue]
      exact due_nil _ _ _

/-! ## What keeps a state from closing keeps the states before it -/

theorem Clears.of_reader (hi : s.Inv) (h : s.readerStep = some t) (ht : t.Clears timeBase) :
    s.Clears timeBase := by
  unfold VideoSide.readerStep at h
  cases hr : s.reader with
  | top =>
    simp only [hr] at h
    cases h
    have hb : s.Blocked = false := not_blocked_of_reader (by simp [hr])
    refine ht.congr (owed_congr rfl ?_) rfl rfl rfl
    rw [hb]
    exact not_blocked_of_reader (by cases s.playAlive <;> simp)
  | reading => simp [hr] at h
  | writing pkt =>
    simp only [hr] at h
    obtain ⟨pipe, hw, rfl⟩ := Option.map_eq_some_iff.mp h
    unfold Pipe.write at hw
    split at hw
    · next hroom =>
      cases hw
      have hb : s.Blocked = false := by
        unfold Blocked
        rw [hr]
        exact decide_eq_false (by omega)
      cases hdec : s.pipe.decoder with
      | reading =>
        cases hpq : s.pipe.packetQueue with
        | nil => exact .inl (by simp [owed, Pipe.pending, hdec, hpq, Codec.outputs])
        | cons first rest =>
          refine ht.congr ?_ rfl rfl rfl
          simp [owed, MustRead, Pipe.pending, Pipe.settled, hdec, hpq]
      | top | emitting _ _ | flushing | exited =>
        refine ht.congr ?_ rfl rfl rfl
        have hne : s.pipe.decoder ≠ .reading := by simp [hdec]
        rw [owed_eq_pending hne hb]
        exact owed_eq_pending hne rfl
    · cases hw
  | closing | stopping =>
    simp only [hr] at h
    cases h
    have hb : s.Blocked = false := not_blocked_of_reader (by simp [hr])
    refine ht.congr (owed_congr rfl ?_) rfl rfl rfl
    rw [hb]
    exact not_blocked_of_reader (by simp)
  | joiningDecoder =>
    simp only [hr] at h
    split at h
    · next hex =>
      refine .inl (owed_of_exited hi ?_)
      cases hdec : s.pipe.decoder <;> simp [hdec] at hex
      rfl
    · cases h
  | joiningDisplay =>
    refine .inl (owed_of_exited hi (hi.ended ?_))
    rw [hr]
    exact Nat.le_succ 1
  | closed => simp [hr] at h

theorem Clears.of_pass {p : LoopPass P} (h : s.loopPass p = some t) (ht : t.Clears timeBase) :
    s.Clears timeBase := by
  have hr : s.reader = .reading := by
    cases hr : s.reader <;> first | rfl | simp [VideoSide.loopPass, hr] at h
  have hb : s.Blocked = false := not_blocked_of_reader (by simp [hr])
  cases p <;> simp only [VideoSide.loopPass, hr] at h <;> cases h
  case write pkt =>
    -- the reader may find the packet queue full, so the decoder may owe more
    cases hdec : s.pipe.decoder with
    | reading =>
      refine ht.congr ?_ rfl rfl rfl
      simp [owed, MustRead, hdec]
    | top | emitting _ _ | flushing | exited =>
      have hne : s.pipe.decoder ≠ .reading := by simp [hdec]
      unfold Clears at ht ⊢
      rw [owed_eq_pending hne hb]
      unfold owed at ht
      rcases ht with hnil | htake
      · exact .inl (List.append_eq_nil_iff.mp hnil).1
      · rw [← List.append_assoc] at htake
        exact .inr htake.of_append
  case otherPacket | error =>
    refine ht.congr (owed_congr rfl ?_) rfl rfl rfl
    rw [hb]
    exact not_blocked_of_reader (by simp)
  case restart =>
    have howed : owed { s with
        reader := .top, sync := { s.sync.reset with type := .audio } } = s.owed :=
      owed_congr rfl (by rw [hb]; rfl)
    rcases ht with hnil | htake
    · exact .inl (howed.symm.trans hnil)
    · have hwait : ClockSync.awaitsAudio { s.sync.reset with type := .audio } = true := rfl
      refine .inr (CanTake.of_awaitsAudio hwait ?_)
      rw [← howed]
      exact htake

/-- An item that moves into the empty frame queue is still to be taken. -/
theorem Clears.of_push {x : Option VideoFrame} (ht : t.Clears timeBase)
    (howed : s.owed = x :: t.owed) (hempty : s.pipe.frameQueue = [])
    (hframes : t.pipe.frameQueue = [x]) (hsync : t.sync = s.sync)
    (hdisplay : t.display = s.display) : s.Clears timeBase := by
  unfold Clears at ht ⊢
  rw [hframes, hsync, hdisplay] at ht
  rw [hempty, howed]
  rcases ht with hnil | htake
  · exact .inr (.inl (by rw [hnil]; exact Nat.le_refl 1))
  · exact .inr htake

theorem onFrame_room {p q : Pipe V} {f : Option VideoFrame} {next : DecoderPc VideoFrame}
    (h : p.onFrame videoRoom f next = some q) :
    p.frameQueue = [] ∧ q = { p with frameQueue := [f], decoder := next } := by
  unfold Pipe.onFrame at h
  split at h
  · next hroom =>
    have hnil : p.frameQueue = [] := List.eq_nil_of_length_eq_zero (Nat.lt_one_iff.mp hroom)
    cases h
    rw [hnil]
    exact ⟨rfl, rfl⟩
  · cases h

theorem Clears.of_decoder {pipe : Pipe V} (hi : s.Inv)
    (h : s.pipe.decoderStep videoRoom s.decoderAlive = some pipe)
    (ht : Clears timeBase { s with pipe := pipe }) : s.Clears timeBase := by
  unfold Pipe.decoderStep at h
  cases hdec : s.pipe.decoder with
  | top =>
    simp only [hdec] at h
    cases hb : s.Blocked with
    | false =>
      refine .inl ?_
      rw [owed_eq_pending (by simp [hdec]) hb]
      simp [Pipe.pending, hdec]
    | true =>
      rw [decoderAlive_of_blocked hi hb] at h
      cases h
      exact ht.congr (owed_top hdec hb).symm rfl rfl rfl
  | reading =>
    simp only [hdec] at h
    cases hpq : s.pipe.packetQueue with
    | nil => exact .inl (by simp [owed, Pipe.pending, hdec, hpq, Codec.outputs])
    | cons pkt rest =>
      simp only [hpq] at h
      cases h
      have hlen := InvAt.packets hi
      rw [hpq, List.length_cons] at hlen
      refine ht.congr ?_ rfl rfl rfl
      rw [owed_eq_pending (by simp)]
      · cases pkt <;> simp [owed, MustRead, Pipe.pending, Pipe.settled, hdec, hpq, Codec.outputs]
      · unfold Blocked
        split
        · exact decide_eq_false (by show ¬packetRoom ≤ rest.length; omega)
        · rfl
  | emitting eof frames =>
    cases frames with
    | nil =>
      cases eof with
      | false =>
        simp only [hdec] at h
        cases h
        exact ht.congr (owed_done hdec).symm rfl rfl rfl
      | true =>
        simp only [hdec] at h
        obtain ⟨hempty, rfl⟩ := onFrame_room h
        exact ht.of_push (owed_marker hdec) hempty rfl rfl rfl
    | cons f frames =>
      simp only [hdec] at h
      obtain ⟨hempty, rfl⟩ := onFrame_room h
      exact ht.of_push (owed_frame hdec) hempty rfl rfl rfl
  | flushing =>
    simp only [hdec] at h
    cases h
    exact ht.congr (owed_flushed hdec).symm rfl rfl rfl
  | exited =>
    simp only [hdec] at h
    cases h

theorem Clears.of_display {now : ℚ} (hi : s.Inv) (h : s.displayStep timeBase now = some t)
    (ht : t.Clears timeBase) : s.Clears timeBase := by
  unfold VideoSide.displayStep at h
  -- between positions from which the same frames are due
  have hsame : ∀ display, (∀ times frames, DisplayDue timeBase times s.sync frames display →
      DisplayDue timeBase times s.sync frames s.display) →
      Clears timeBase { s with display := display } → s.Clears timeBase := by
    intro display hdue hclears
    rcases hclears with hnil | hlen | ⟨times, htimes⟩
    · exact .inl hnil
    · exact .inr (.inl hlen)
    · exact .inr (.inr ⟨times, hdue _ _ htimes⟩)
  cases hd : s.display with
  | top =>
    simp only [hd] at h
    by_cases hva : s.videoAlive = true
    · rw [if_pos hva] at h
      cases h
      exact hsame .reading (fun _ _ hdue => by rw [hd]; exact hdue) ht
    · exact .inl (owed_of_not_videoAlive hi (Bool.eq_false_iff.mpr hva))
  | reading =>
    simp only [hd] at h
    have htake : ∀ x pipe, s.pipe.takeFrame = some (x, pipe) →
        Clears timeBase { s with display := taken x, pipe := pipe } → s.Clears timeBase := by
      intro x pipe hpipe hclears
      obtain ⟨hq, hrest⟩ := takeFrame_eq_some hpipe
      have howed : owed { s with display := taken x, pipe := pipe } = s.owed := by
        rw [hrest]
        rfl
      rcases hclears with hnil | hclears
      · exact .inl (howed.symm.trans hnil)
      · refine .inr ?_
        rw [hd, hq, List.cons_append, canTake_cons, ← howed]
        exact hclears
    split at h
    · cases h
      exact hsame .top (fun _ _ hdue => by rw [hd]; exact hdue) ht
    · next pipe hpipe =>
      cases h
      exact htake none pipe hpipe ht
    · next f pipe hpipe =>
      cases h
      exact htake (some f) pipe hpipe ht
  | ending =>
    simp only [hd] at h
    cases h
    exact hsame .top (fun _ _ hdue => by rw [hd]; exact hdue) ht
  | calling f =>
    simp only [hd] at h
    cases h
    rcases ht with hnil | htake
    · exact .inl hnil
    · refine .inr ?_
      rw [hd, canTake_calling]
      exact ⟨now, htake⟩
  | waiting f delay =>
    simp only [hd] at h
    split at h
    · next hpos =>
      cases h
      refine hsame (.calling f) (fun times frames hdue => ?_) ht
      rw [hd]
      show if _ then _ else _
      rw [if_pos (Bool.and_eq_true_iff.mp hpos).1]
      exact hdue
    · next hneg =>
      cases h
      by_cases hva : s.videoAlive = true
      · refine hsame (.leaving f delay) (fun times frames hdue => ?_) ht
        rw [hva, Bool.and_true] at hneg
        rw [hd]
        show if _ then _ else _
        rw [if_neg hneg]
        exact hdue
      · exact .inl (owed_of_not_videoAlive hi (Bool.eq_false_iff.mpr hva))
  | leaving f delay =>
    simp only [hd] at h
    cases h
    rcases ht with hnil | hlen | ⟨times, hdue⟩
    · exact .inl hnil
    · exact .inr (.inl hlen)
    · refine .inr (.inr ⟨times, ?_⟩)
      rw [hd]
      exact ⟨now, hdue⟩
  | exited => simp [hd] at h

theorem Clears.of_step {a : VideoAct P} (hi : s.Inv) (ha : a.byAudio = false)
    (h : s.step timeBase a = some t) (ht : t.Clears timeBase) : s.Clears timeBase := by
  cases a with
  | stop =>
    cases h
    exact ht
  | reader => exact ht.of_reader hi h
  | pass p => exact ht.of_pass h
  | decoder =>
    obtain ⟨pipe, hpipe, rfl⟩ := Option.map_eq_some_iff.mp h
    exact ht.of_decoder hi hpipe
  | display now => exact ht.of_display hi h
  | calAudioDelay now pts | updateAudioPts now pts | audioEof => cases ha

/-- A state from which `Video::close` returns without the audio side. -/
theorem clears_of_returns (hi : s.Inv)
    (h : ReachIf (step timeBase) (fun _ a => a.byAudio = false) s t)
    (ht : t.reader = .closed) : s.Clears timeBase := by
  have hti : t.Inv := h.invariant hi fun _ _ _ hu _ hs => hu.step hs
  refine h.backward hi (fun _ _ _ hu _ hs => hu.step hs)
    (fun _ _ _ hu ha hs hc => hc.of_step hu ha hs) (.inl (owed_of_exited hti (hti.ended ?_)))
  rw [ht]
  exact Nat.zero_le 2

/-! ## The way to the end -/

/-- A step that is not the audio side's. -/
abbrev Own : VideoSide V → VideoAct P → Prop := fun _ a => a.byAudio = false

theorem own_display (times : List ℚ) :
    ∀ a ∈ times.map VideoAct.display, ∀ s : VideoSide V, Own s (a : VideoAct P) := by
  intro a ha s
  obtain ⟨now, -, rfl⟩ := List.mem_map.mp ha
  rfl

/-- A due frame brings the display thread behind its wait loop: induction on the calls
of `calVideoDelay`. -/
theorem reaches_leaving {f : VideoFrame} {frames : List VideoFrame} (times : List (ℚ × ℚ))
    (s : VideoSide V) (hd : s.display = .calling f) (hva : s.videoAlive = true)
    (hdue : Due timeBase times s.sync (f :: frames)) :
    ∃ sync delay rest,
      ReachIf (step timeBase) Own s { s with display := .leaving f delay, sync := sync } ∧
        DisplayDue timeBase rest sync frames (.leaving f delay) := by
  induction times generalizing s with
  | nil => cases hdue
  | cons time times ih =>
    obtain ⟨now, last⟩ := time
    have hcons := due_cons.mp hdue
    by_cases hpos : (s.sync.delayOf timeBase now f).2.pos = true
    · rw [if_pos hpos] at hcons
      have hcall : exec (step timeBase) s ([now, 0].map .display) = some { s with
          display := .calling f, sync := (s.sync.delayOf timeBase now f).1 } := by
        simp [exec, step, displayStep, hd, hpos, hva]
      obtain ⟨sync, delay, rest, hrun, hrest⟩ := ih { s with
        display := .calling f, sync := (s.sync.delayOf timeBase now f).1 } rfl hva hcons
      exact ⟨sync, delay, rest, (reachIf_of_exec (own_display _) hcall).trans hrun, hrest⟩
    · rw [if_neg hpos] at hcons
      have hcall : exec (step timeBase) s ([now, 0].map .display) = some { s with
          display := .leaving f (s.sync.delayOf timeBase now f).2
          sync := (s.sync.delayOf timeBase now f).1 } := by
        simp [exec, step, displayStep, hd, hpos]
      exact ⟨_, _, times, reachIf_of_exec (own_display _) hcall, ⟨last, hcons⟩⟩

/-- With `_isAlive` set, due frames bring the display thread to its next read. -/
theorem reaches_reading (s : VideoSide V) (hva : s.videoAlive = true)
    (hexited : s.display ≠ .exited) (times : List (ℚ × ℚ)) (frames : List VideoFrame)
    (hdue : DisplayDue timeBase times s.sync frames s.display) :
    ∃ sync rest, ReachIf (step timeBase) Own s { s with display := .reading, sync := sync } ∧
      Due timeBase rest sync frames := by
  have hleaving : ∀ (s : VideoSide V) f delay rest, s.videoAlive = true →
      s.display = .leaving f delay →
      DisplayDue timeBase rest s.sync frames (.leaving f delay) →
      ∃ sync rest, ReachIf (step timeBase) Own s { s with display := .reading, sync := sync } ∧
        Due timeBase rest sync frames := by
    intro s f delay rest hva hd hdue
    obtain ⟨last, hdue⟩ := hdue
    have hleave : exec (step timeBase) s ([last, 0].map .display) = some { s with
        display := .reading, sync := s.sync.leave timeBase last f delay } := by
      simp [exec, step, displayStep, hd, hva]
    exact ⟨_, rest, reachIf_of_exec (own_display _) hleave, hdue⟩
  have hcalling : ∀ (s : VideoSide V) f, s.videoAlive = true → s.display = .calling f →
      Due timeBase times s.sync (f :: frames) →
      ∃ sync rest, ReachIf (step timeBase) Own s { s with display := .reading, sync := sync } ∧
        Due timeBase rest sync frames := by
    intro s f hva hd hdue
    obtain ⟨sync, delay, rest, hrun, hrest⟩ := reaches_leaving times s hd hva hdue
    obtain ⟨sync', rest', hrun', hrest'⟩ :=
      hleaving { s with display := .leaving f delay, sync := sync } f delay rest hva rfl hrest
    exact ⟨sync', rest', hrun.trans hrun', hrest'⟩
  cases hd : s.display with
  | top =>
    rw [hd] at hdue
    have hstep : exec (step timeBase) s ([0].map .display) =
        some { s with display := .reading } := by
      simp [exec, step, displayStep, hd, hva]
    exact ⟨s.sync, times, reachIf_of_exec (own_display _) hstep, hdue⟩
  | reading =>
    rw [hd] at hdue
    refine ⟨s.sync, times, ?_, hdue⟩
    rw [← hd]
    exact .refl
  | ending =>
    rw [hd] at hdue
    have hstep : exec (step timeBase) s ([0, 0].map .display) =
        some { s with display := .reading } := by
      simp [exec, step, displayStep, hd, hva]
    exact ⟨s.sync, times, reachIf_of_exec (own_display _) hstep, hdue⟩
  | calling f =>
    rw [hd] at hdue
    exact hcalling s f hva hd hdue
  | waiting f delay =>
    rw [hd] at hdue
    by_cases hpos : delay.pos = true
    · have hfirst : ReachIf (step timeBase) Own s { s with display := .calling f } := by
        refine .single (a := .display 0) rfl ?_
        simp [step, displayStep, hd, hva, hpos]
      have hdue' : Due timeBase times s.sync (f :: frames) := by
        change if _ then _ else _ at hdue
        rw [if_pos hpos] at hdue
        exact hdue
      obtain ⟨sync, rest, hrun, hrest⟩ := hcalling { s with display := .calling f } f hva rfl hdue'
      exact ⟨sync, rest, hfirst.trans hrun, hrest⟩
    · have hfirst : ReachIf (step timeBase) Own s { s with display := .leaving f delay } := by
        refine .single (a := .display 0) rfl ?_
        simp [step, displayStep, hd, hpos]
      have hdue' : DisplayDue timeBase times s.sync frames (.leaving f delay) := by
        change if _ then _ else _ at hdue
        rw [if_neg hpos] at hdue
        exact hdue
      obtain ⟨sync, rest, hrun, hrest⟩ :=
        hleaving { s with display := .leaving f delay } f delay times hva rfl hdue'
      exact ⟨sync, rest, hfirst.trans hrun, hrest⟩
  | leaving f delay =>
    rw [hd] at hdue
    exact hleaving s f delay times hva hd hdue
  | exited => exact absurd hd hexited

/-- With `_isAlive` cleared the display thread ends, wherever it stands. -/
theorem reaches_exited (timeBase : ℚ) (s : VideoSide V) (hva : s.videoAlive = false) :
    ∃ t, ReachIf (step timeBase) Own s t ∧ t.reader = s.reader ∧ t.display = .exited := by
  suffices hrun : ∃ (times : List ℚ) (t : VideoSide V),
      exec (step timeBase) s (times.map .display) = some t ∧ t.reader = s.reader ∧
        t.display = .exited by
    obtain ⟨times, t, ht, hr, hd⟩ := hrun
    exact ⟨t, reachIf_of_exec (own_display times) ht, hr, hd⟩
  cases hd : s.display with
  | top => exact ⟨[0], by simp [exec, step, displayStep, hd, hva]⟩
  | reading =>
    cases hq : s.pipe.frameQueue with
    | nil => exact ⟨[0, 0], by simp [exec, step, displayStep, Pipe.takeFrame, hd, hva, hq]⟩
    | cons item rest =>
      cases item with
      | none => exact ⟨[0, 0, 0], by simp [exec, step, displayStep, Pipe.takeFrame, hd, hva, hq]⟩
      | some f =>
        exact ⟨[0, 0, 0, 0, 0],
          by simp [exec, step, displayStep, Pipe.takeFrame, hd, hva, hq]⟩
  | ending => exact ⟨[0, 0], by simp [exec, step, displayStep, hd, hva]⟩
  | calling f => exact ⟨[0, 0, 0, 0], by simp [exec, step, displayStep, hd, hva]⟩
  | waiting f delay => exact ⟨[0, 0, 0], by simp [exec, step, displayStep, hd, hva]⟩
  | leaving f delay => exact ⟨[0, 0], by simp [exec, step, displayStep, hd, hva]⟩
  | exited => exact ⟨[], by simp [exec, hd]⟩

/-! ## Every stop comes closer to the end -/

/-- What the decoder has before it, with the reader blocked or not. -/
def decoderRank : Bool → DecoderPc VideoFrame → Nat
  | _, .exited => 0
  | false, .top => 1
  | false, .flushing => 3
  | false, .emitting _ _ => 4
  | false, .reading => 5
  | true, .reading => 6
  | true, .top => 7
  | true, .flushing => 8
  | true, .emitting _ _ => 9

theorem decoderRank_le (blocked : Bool) (decoder : DecoderPc VideoFrame) :
    decoderRank blocked decoder ≤ 9 := by
  unfold decoderRank
  split <;> omega

def work (s : VideoSide V) : Nat :=
  20 * s.owed.length + 2 * decoderRank s.Blocked s.pipe.decoder + s.pipe.frameQueue.length

/-- The reader's stages first, then the work at a stage. -/
def Closer (t s : VideoSide V) : Prop :=
  t.reader.stagesLeft < s.reader.stagesLeft ∨
    (t.reader.stagesLeft = s.reader.stagesLeft ∧ t.work < s.work)

theorem closer_wf : WellFounded (Closer : VideoSide V → VideoSide V → Prop) := by
  have hlex := (Prod.lex (measure (fun n : Nat => n)) (measure (fun n : Nat => n))).wf
  refine Subrelation.wf ?_ (InvImage.wf (fun s : VideoSide V => (s.reader.stagesLeft, s.work)) hlex)
  rintro t s (hlt | ⟨heq, hlt⟩)
  · exact Prod.Lex.left _ _ hlt
  · show Prod.Lex _ _ (t.reader.stagesLeft, t.work) (s.reader.stagesLeft, s.work)
    rw [heq]
    exact Prod.Lex.right _ hlt

/-- A stopped session whose decoder can end. -/
structure Ready (timeBase : ℚ) (s : VideoSide V) : Prop where
  inv : s.Inv
  stopped : s.playAlive = false
  clears : s.Clears timeBase

theorem Ready.of_step {a : VideoAct P} (hs : s.Ready timeBase)
    (h : s.step timeBase a = some t) (hplay : t.playAlive = s.playAlive)
    (hc : t.Clears timeBase) : t.Ready timeBase :=
  ⟨hs.inv.step h, hplay.trans hs.stopped, hc⟩

/-- The display thread takes what keeps the frame queue full. -/
theorem Ready.take (hs : s.Ready timeBase) (hstages : 2 ≤ s.reader.stagesLeft)
    (howed : s.owed ≠ []) (hfull : s.pipe.frameQueue ≠ []) :
    ∃ t, ReachIf (step timeBase) Own s t ∧ t.Ready timeBase ∧ Closer t s := by
  have hva : s.videoAlive = true := by
    rw [InvAt.videoAlive hs.inv]
    exact decide_eq_true hstages
  have hexited : s.display ≠ .exited := fun hd => by
    have hle := InvAt.display hs.inv hd
    omega
  obtain ⟨x, rest, hq⟩ := List.exists_cons_of_ne_nil hfull
  obtain ⟨y, more, howed'⟩ := List.exists_cons_of_ne_nil howed
  have hlong : ¬(s.pipe.frameQueue ++ s.owed).length ≤ 1 := by
    rw [hq, howed']
    simp
  have htake := (or_iff_right howed).mp hs.clears
  obtain ⟨times, hdue⟩ := (or_iff_right hlong).mp htake
  obtain ⟨sync, later, hrun, hlater⟩ := reaches_reading s hva hexited times _ hdue
  have hcan : CanTake timeBase sync (taken x) (rest ++ s.owed) := by
    rw [← canTake_cons, ← List.cons_append, ← hq]
    exact .inr ⟨later, hlater⟩
  have hstep : step timeBase { s with display := .reading, sync := sync } (.display 0) =
      some { s with
        display := taken x, sync := sync, pipe := { s.pipe with frameQueue := rest } } := by
    cases x <;> simp [step, displayStep, Pipe.takeFrame, hq, taken]
  have hreach : ReachIf (step timeBase) Own s _ := .tail hrun rfl hstep
  refine ⟨_, hreach, ⟨?_, hs.stopped, .inr hcan⟩, .inr ⟨rfl, ?_⟩⟩
  · exact hreach.invariant hs.inv fun _ _ _ hi _ h => hi.step h
  · show 20 * s.owed.length + 2 * decoderRank s.Blocked s.pipe.decoder + rest.length < s.work
    unfold work
    rw [hq, List.length_cons]
    omega

/-- The decoder hands its next item to the empty frame queue. -/
theorem Ready.push (hs : s.Ready timeBase) (x : Option VideoFrame) (pipe : Pipe V)
    (h : s.step timeBase .decoder = some { s with pipe := pipe })
    (howed : s.owed = x :: owed { s with pipe := pipe })
    (hempty : s.pipe.frameQueue = []) (hframes : pipe.frameQueue = [x]) :
    ∃ t, ReachIf (step timeBase) Own s t ∧ t.Ready timeBase ∧ Closer t s := by
  have hne : s.owed ≠ [] := by
    rw [howed]
    simp
  have htake := (or_iff_right hne).mp hs.clears
  refine ⟨_, .single rfl h, hs.of_step h rfl (.inr ?_), .inr ⟨rfl, ?_⟩⟩
  · show CanTake timeBase s.sync s.display (pipe.frameQueue ++ _)
    rw [hframes]
    rw [hempty, howed] at htake
    exact htake
  · have hle := decoderRank_le (Blocked { s with pipe := pipe }) pipe.decoder
    have hone : pipe.frameQueue.length = 1 := by rw [hframes]; rfl
    have hmore : s.owed.length = (owed { s with pipe := pipe }).length + 1 := by rw [howed]; rfl
    unfold work
    dsimp only
    omega

/-- The decoder moves on without touching what it owes. -/
theorem Ready.quiet {pipe : Pipe V} (hs : s.Ready timeBase)
    (h : s.step timeBase .decoder = some { s with pipe := pipe })
    (howed : s.owed = owed { s with pipe := pipe })
    (hframes : s.pipe.frameQueue = pipe.frameQueue)
    (hrank : decoderRank (Blocked { s with pipe := pipe }) pipe.decoder <
      decoderRank s.Blocked s.pipe.decoder) :
    ∃ t, ReachIf (step timeBase) Own s t ∧ t.Ready timeBase ∧ Closer t s := by
  refine ⟨_, .single rfl h, hs.of_step h rfl (hs.clears.congr howed rfl rfl hframes),
    .inr ⟨rfl, ?_⟩⟩
  unfold work
  dsimp only
  rw [← howed, ← hframes]
  omega

/-- The decoder outside its read, with the reader waiting for it. -/
theorem Ready.decoder (hs : s.Ready timeBase) (hstages : 2 ≤ s.reader.stagesLeft)
    (hread : s.pipe.decoder ≠ .reading) (hexited : s.pipe.decoder ≠ .exited)
    (hwait : s.Blocked = true ∨ s.reader = .joiningDecoder) :
    ∃ t, ReachIf (step timeBase) Own s t ∧ t.Ready timeBase ∧ Closer t s := by
  cases hdec : s.pipe.decoder with
  | top =>
    rcases hwait with hb | hr
    · have halive := decoderAlive_of_blocked hs.inv hb
      have h : s.step timeBase .decoder = some { s with
          pipe := { s.pipe with decoder := .reading } } := by
        simp [step, Pipe.decoderStep, hdec, halive]
      have hb' : Blocked { s with pipe := { s.pipe with decoder := .reading } } = true := hb
      refine hs.quiet h (owed_top hdec hb) rfl ?_
      rw [hb, hb', hdec]
      simp [decoderRank]
    · have hdead : s.decoderAlive = false := by
        rw [InvAt.decoderAlive hs.inv, hr]
        rfl
      have h : s.step timeBase .decoder = some { s with
          pipe := { s.pipe with decoder := .exited } } := by
        simp [step, Pipe.decoderStep, hdec, hdead]
      have hb : s.Blocked = false := not_blocked_of_reader (by simp [hr])
      refine hs.quiet h ?_ rfl ?_
      · have hnothing : owed { s with pipe := { s.pipe with decoder := .exited } } = [] :=
          owed_of_exited (hs.inv.step h) rfl
        rw [hnothing, owed_eq_pending hread hb]
        simp [Pipe.pending, hdec]
      · rw [hb, hdec]
        simp [decoderRank]
  | reading => exact absurd hdec hread
  | emitting eof frames =>
    by_cases hdone : eof = false ∧ frames = []
    · obtain ⟨rfl, rfl⟩ := hdone
      have h : s.step timeBase .decoder = some { s with
          pipe := { s.pipe with decoder := .top } } := by
        simp [step, Pipe.decoderStep, hdec]
      refine hs.quiet h (owed_done hdec) rfl ?_
      show decoderRank s.Blocked .top < _
      rw [hdec]
      cases s.Blocked <;> simp [decoderRank]
    · have hne : s.owed ≠ [] := by
        unfold owed Pipe.pending
        rw [hdec]
        cases eof <;> simp_all
      by_cases hempty : s.pipe.frameQueue = []
      · cases frames with
        | nil =>
          cases eof with
          | false => exact absurd ⟨rfl, rfl⟩ hdone
          | true =>
            refine hs.push none { s.pipe with frameQueue := [none], decoder := .flushing }
              ?_ (owed_marker hdec) hempty rfl
            simp [step, Pipe.decoderStep, Pipe.onFrame, videoRoom, hdec, hempty]
        | cons f frames =>
          refine hs.push (some f)
            { s.pipe with frameQueue := [some f], decoder := .emitting eof frames }
            ?_ (owed_frame hdec) hempty rfl
          simp [step, Pipe.decoderStep, Pipe.onFrame, videoRoom, hdec, hempty]
      · exact hs.take hstages hne hempty
  | flushing =>
    have h : s.step timeBase .decoder = some { s with
        pipe := { s.pipe with decoder := .top, codec := V.fresh } } := by
      simp [step, Pipe.decoderStep, hdec]
    refine hs.quiet h (owed_flushed hdec) rfl ?_
    show decoderRank s.Blocked .top < _
    rw [hdec]
    cases s.Blocked <;> simp [decoderRank]
  | exited => exact absurd hdec hexited

/-- The decoder at its read. -/
theorem Ready.read (hs : s.Ready timeBase) (hread : s.pipe.decoder = .reading) :
    ∃ t, ReachIf (step timeBase) Own s t ∧ t.Ready timeBase ∧ Closer t s := by
  have hlen := InvAt.packets hs.inv
  have hroom : ∀ queue : List (Option P), queue.length < packetRoom → ∀ pipe : Pipe V,
      pipe.packetQueue = queue → Blocked { s with pipe := pipe } = false := by
    intro queue hqueue pipe hpipe
    unfold Blocked
    split
    · exact decide_eq_false (by dsimp only; rw [hpipe]; omega)
    · rfl
  cases hq : s.pipe.packetQueue with
  | nil =>
    have h : s.step timeBase .decoder = some { s with
        pipe := { s.pipe with decoder := .top } } := by
      simp [step, Pipe.decoderStep, hread, hq]
    have hb : s.Blocked = false := hroom [] (by show 0 < 2048 - 1; omega) s.pipe hq
    refine hs.quiet h ?_ rfl ?_
    · have howed : owed { s with pipe := { s.pipe with decoder := .top } } = [] :=
        owed_eq_pending (s := { s with pipe := { s.pipe with decoder := .top } }) (by simp) hb
      rw [howed]
      simp [owed, Pipe.pending, hread, hq, Codec.outputs]
    · show decoderRank s.Blocked .top < _
      rw [hb, hread]
      simp [decoderRank]
  | cons pkt rest =>
    let pipe : Pipe V := { s.pipe with
      packetQueue := rest
      decoder := .emitting pkt.isNone (V.decode s.pipe.codec pkt).1
      codec := (V.decode s.pipe.codec pkt).2 }
    have h : s.step timeBase .decoder = some { s with pipe := pipe } := by
      simp [step, Pipe.decoderStep, hread, hq, pipe]
    have hb : Blocked { s with pipe := pipe } = false := by
      refine hroom rest ?_ pipe rfl
      rw [hq, List.length_cons] at hlen
      omega
    refine hs.quiet h ?_ rfl ?_
    · have howed : owed { s with pipe := pipe } = pipe.pending :=
        owed_eq_pending (s := { s with pipe := pipe }) (by simp [pipe]) hb
      rw [howed]
      cases pkt <;>
        simp [owed, MustRead, Pipe.pending, Pipe.settled, hread, hq, Codec.outputs, pipe]
    · rw [hb, hread]
      show 4 < decoderRank s.Blocked .reading
      cases s.Blocked <;> decide

/-- The reader moves on, with the decoder outside its read. -/
theorem Ready.reader {a : VideoAct P} (hs : s.Ready timeBase) (ha : a.byAudio = false)
    (h : s.step timeBase a = some t) (hread : s.pipe.decoder ≠ .reading)
    (hb : s.Blocked = false) (hb' : t.Blocked = false) (hplay : t.playAlive = s.playAlive)
    (hdecoder : t.pipe.decoder = s.pipe.decoder) (hframes : s.pipe.frameQueue = t.pipe.frameQueue)
    (hsync : s.sync = t.sync) (hdisplay : s.display = t.display)
    (hstages : t.reader.stagesLeft < s.reader.stagesLeft) :
    ∃ t, ReachIf (step timeBase) Own s t ∧ t.Ready timeBase ∧ Closer t s := by
  have howed : s.owed = t.owed := by
    rw [owed_eq_pending hread hb, owed_eq_pending (hdecoder ▸ hread) hb']
    unfold Pipe.pending
    rw [hdecoder]
  exact ⟨t, .single ha h, hs.of_step h hplay (hs.clears.congr howed hsync hdisplay hframes),
    .inl hstages⟩

/-- From a stopped session that is not closed yet some run comes closer to the end. -/
theorem Ready.closer (hs : s.Ready timeBase) :
    (∃ t, ReachIf (step timeBase) Own s t ∧ t.reader = .closed) ∨
      ∃ t, ReachIf (step timeBase) Own s t ∧ t.Ready timeBase ∧ Closer t s := by
  by_cases hread : s.pipe.decoder = .reading
  · exact .inr (hs.read hread)
  cases hr : s.reader with
  | top =>
    have hb : s.Blocked = false := not_blocked_of_reader (by simp [hr])
    have h : s.step timeBase .reader = some { s with reader := .closing } := by
      simp [step, readerStep, hr, hs.stopped]
    exact .inr (hs.reader rfl h hread hb rfl rfl rfl rfl rfl rfl (by rw [hr]; exact Nat.lt_succ_self 4))
  | reading =>
    have hb : s.Blocked = false := not_blocked_of_reader (by simp [hr])
    have h : s.step timeBase (.pass .error) = some { s with reader := .closing } := by
      simp [step, loopPass, hr]
    exact .inr (hs.reader rfl h hread hb rfl rfl rfl rfl rfl rfl
      (by rw [hr]; show 4 < 6; decide))
  | writing pkt =>
    have hstages : 2 ≤ s.reader.stagesLeft := by
      rw [hr]
      show 2 ≤ 7
      decide
    have hexited : s.pipe.decoder ≠ .exited := by
      refine InvAt.running hs.inv ?_
      rw [hr]
      show 4 ≤ 7
      decide
    by_cases hfull : packetRoom ≤ s.pipe.packetQueue.length
    · have hb : s.Blocked = true := by
        unfold Blocked
        rw [hr]
        exact decide_eq_true hfull
      exact .inr (hs.decoder hstages hread hexited (.inl hb))
    · have hb : s.Blocked = false := by
        unfold Blocked
        rw [hr]
        exact decide_eq_false hfull
      have h : s.step timeBase .reader = some { s with
          reader := .top
          pipe := { s.pipe with packetQueue := s.pipe.packetQueue ++ [pkt] } } := by
        simp only [step, readerStep, hr, Pipe.write]
        rw [if_pos (by omega)]
        rfl
      exact .inr (hs.reader rfl h hread hb rfl rfl rfl rfl rfl rfl
        (by rw [hr]; show 5 < 7; decide))
  | closing =>
    have hb : s.Blocked = false := not_blocked_of_reader (by simp [hr])
    have h : s.step timeBase .reader =
        some { s with reader := .joiningDecoder, decoderAlive := false } := by
      simp [step, readerStep, hr]
    exact .inr (hs.reader rfl h hread hb rfl rfl rfl rfl rfl rfl (by rw [hr]; exact Nat.lt_succ_self 3))
  | joiningDecoder =>
    have hb : s.Blocked = false := not_blocked_of_reader (by simp [hr])
    by_cases hexited : s.pipe.decoder = .exited
    · have h : s.step timeBase .reader = some { s with
          reader := .stopping, pipe := { s.pipe with packetQueue := [] } } := by
        simp [step, readerStep, hr, hexited]
      exact .inr (hs.reader rfl h hread hb rfl rfl rfl rfl rfl rfl
        (by rw [hr]; exact Nat.lt_succ_self 2))
    · have hstages : 2 ≤ s.reader.stagesLeft := by
        rw [hr]
        exact Nat.le_succ 2
      exact .inr (hs.decoder hstages hread hexited (.inr hr))
  | stopping =>
    have hb : s.Blocked = false := not_blocked_of_reader (by simp [hr])
    have h : s.step timeBase .reader =
        some { s with reader := .joiningDisplay, videoAlive := false } := by
      simp [step, readerStep, hr]
    exact .inr (hs.reader rfl h hread hb rfl rfl rfl rfl rfl rfl (by rw [hr]; exact Nat.lt_succ_self 1))
  | joiningDisplay =>
    have hva : s.videoAlive = false := by
      rw [InvAt.videoAlive hs.inv, hr]
      rfl
    obtain ⟨t, ht, htr, htd⟩ := reaches_exited timeBase s hva
    have h : t.step timeBase .reader = some { t with
        reader := .closed, pipe := { t.pipe with frameQueue := [] } } := by
      simp [step, readerStep, htr, hr, htd]
    have hreach : ReachIf (step timeBase) Own s _ := .tail ht rfl h
    exact .inl ⟨_, hreach, rfl⟩
  | closed => exact .inl ⟨s, .refl, hr⟩

theorem Ready.returns (hs : s.Ready timeBase) :
    ∃ t, ReachIf (step timeBase) Own s t ∧ t.reader = .closed := by
  obtain ⟨t, ht, u, hu, hclosed⟩ := ReachIf.leads_to
    (G := fun s : VideoSide V => ∃ t, ReachIf (step timeBase) Own s t ∧ t.reader = .closed)
    closer_wf (fun s (hs : s.Ready timeBase) => hs.closer) hs
  exact ⟨u, ht.trans hu, hclosed⟩

end VideoSide

/-- After `stop()` `Video::close` can return without the audio side exactly if the decoder
owes nothing, or the display thread can take what is before its last item by the clocks
as they stand. -/
theorem close_returns_iff {V : Codec P VideoFrame} (timeBase : ℚ) (sync : ClockSync)
    (s : VideoSide V) (h : Reach (VideoSide.step timeBase) (VideoSide.start sync) s)
    (hstop : s.playAlive = false) :
    (∃ t, ReachIf (VideoSide.step timeBase) (fun _ a => a.byAudio = false) s t ∧
      t.reader = .closed) ↔ s.Clears timeBase := by
  have hi := VideoSide.inv_of_reach h
  constructor
  · rintro ⟨t, ht, hclosed⟩
    exact VideoSide.clears_of_returns hi ht hclosed
  · intro hc
    exact VideoSide.Ready.returns ⟨hi, hstop, hc⟩

/-- Three packets, the display thread at its first frame, then `stop()`. -/
def stopBehindFullQueue : List (VideoAct Unit) :=
  [.reader, .pass (.write (some ())), .reader, .reader, .pass (.write (some ())), .reader,
    .reader, .pass (.write (some ())), .reader,
    .decoder, .decoder, .decoder, .display 0, .display 0,
    .decoder, .decoder, .decoder, .decoder, .decoder, .decoder, .decoder,
    .stop, .reader, .reader]

/-- Audio has started: the display thread has a frame, one is queued and the decoder retries the
third one.  The clocks let the first frame go, and so the others. -/
theorem close_returns_queued :
    ∃ s : VideoSide (frameCodec ⟨some 0, 1⟩),
      Reach (VideoSide.step 1) (VideoSide.start { type := .audio }) s ∧ s.playAlive = false ∧
        s.pipe.frameQueue = [some ⟨some 0, 1⟩] ∧ s.owed = [some ⟨some 0, 1⟩] ∧
        ∃ t, ReachIf (VideoSide.step 1) (fun _ a => a.byAudio = false) s t ∧
          t.reader = .closed := by
  obtain ⟨s, hs, hp⟩ := reach_of_any (VideoSide.step (V := frameCodec ⟨some 0, 1⟩) 1)
    (VideoSide.start { type := .audio }) (.updateAudioPts 0 0 :: stopBehindFullQueue)
    (fun s => s.playAlive = false ∧ s.reader = .joiningDecoder ∧
      s.pipe.decoder = .emitting false [⟨some 0, 1⟩] ∧ s.pipe.frameQueue = [some ⟨some 0, 1⟩] ∧
      s.display = .calling ⟨some 0, 1⟩ ∧
      (s.sync.delayOf 1 0 ⟨some 0, 1⟩).2.pos = false) (by decide +kernel)
  obtain ⟨hstop, hr, hdec, hq, hd, hdue⟩ := of_decide_eq_true hp
  have howed : s.owed = [some ⟨some 0, 1⟩] := by
    rw [VideoSide.owed_eq_pending (by simp [hdec])
      (VideoSide.not_blocked_of_reader (by simp [hr]))]
    simp [Pipe.pending, hdec]
  have hclears : s.Clears 1 := by
    refine .inr (.inr ⟨[(0, 0)], ?_⟩)
    rw [hq, howed, hd]
    show Due 1 [(0, 0)] s.sync [⟨some 0, 1⟩]
    rw [due_cons, if_neg (Bool.eq_false_iff.mp hdue)]
    exact due_nil _ _ _
  exact ⟨s, hs, hstop, hq, howed, (close_returns_iff 1 _ s hs hstop).mpr hclears⟩

/-- Audio has not started: the display thread waits, the decoder retries its third
frame, and `Video::close` waits for the decoder for good. -/
theorem close_never_returns :
    ∃ s : VideoSide (frameCodec ⟨some 0, 1⟩),
      Reach (VideoSide.step 1) (VideoSide.start { type := .audio }) s ∧ s.playAlive = false ∧
        ¬∃ t, ReachIf (VideoSide.step 1) (fun _ a => a.byAudio = false) s t ∧
          t.reader = .closed := by
  obtain ⟨s, hs, hp⟩ := reach_of_any (VideoSide.step (V := frameCodec ⟨some 0, 1⟩) 1)
    (VideoSide.start { type := .audio }) stopBehindFullQueue
    (fun s => s.playAlive = false ∧ s.reader = .joiningDecoder ∧
      s.pipe.decoder = .emitting false [⟨some 0, 1⟩] ∧ s.pipe.frameQueue = [some ⟨some 0, 1⟩] ∧
      s.display = .calling ⟨some 0, 1⟩ ∧ s.sync.awaitsAudio = true) (by decide)
  obtain ⟨hstop, hr, hdec, hq, hd, hwait⟩ : _ ∧ _ ∧ _ ∧ _ ∧ _ ∧ _ := by simpa using hp
  refine ⟨s, hs, hstop, ?_⟩
  rintro ⟨t, ht, hclosed⟩
  have hclears := VideoSide.clears_of_returns (VideoSide.inv_of_reach hs) ht hclosed
  have howed : s.owed = [some ⟨some 0, 1⟩] := by
    rw [VideoSide.owed_eq_pending (by simp [hdec])
      (VideoSide.not_blocked_of_reader (by simp [hr]))]
    simp [Pipe.pending, hdec]
  rcases hclears with hnil | hlen | ⟨times, hdue⟩
  · rw [howed] at hnil
    cases hnil
  · rw [hq, howed] at hlen
    exact absurd hlen (by decide)
  · rw [hd] at hdue
    exact not_due_of_awaitsAudio hwait hdue

end VideoPlayerCore
