import VideoPlayerCore.DecoderDelivers
import VideoPlayerCore.VideoFrames

/-!
# Who owns a frame of the video side

A frame is the coroutine's until it is in the queue, the display thread's from `read` to
`av_frame_free`, and what is left in the queue is `Video::close`'s.  Behind `close` the object is
as it was before `open`, `_eof` aside, which the next `Decoder::open` clears.

    s.book.Owns s.owned                                                  (VideoWorld.Runs.owns)
    s.closing = .closed → every frame was freed once                 (video_frames_freed_once)
    the fates in order, the frame in hand, the queue = decoded       (video_frames_in_order)

What is decoded in a session begins as what the codec gives for the packets written.
-/

namespace VideoPlayerCore

open Machine Ledgers

variable {P F : Type}

namespace VideoWorld

variable {V : Codec P F} {s t : VideoWorld V} {f : MovedFrame F}

def heldIds (s : VideoWorld V) : List Nat := (s.display.held.map MovedFrame.id).toList

def queuedIds (s : VideoWorld V) : List Nat :=
  (s.frameQueue.filterMap id).map MovedFrame.id

/-- The frames that are allocated, by whose they are. -/
def owned (s : VideoWorld V) : List Nat :=
  s.frame.toList ++ (s.out.toList ++ (s.queuedIds ++ (s.heldIds ++ s.swsFrame.toList)))

/-- The coroutine's frames, where it stands. -/
def CoroutineOwns (s : VideoWorld V) : CoroutinePc P F → Prop
  | .exited => s.frame = none ∧ s.out = none
  | .handing _ _ => s.out.isSome = true
  | _ => s.out = none

/-- What `Video::close` has behind it. -/
def Behind (s : VideoWorld V) : VideoClosePc → Prop
  | .playing | .joiningDecoder => True
  | .drainingPackets => s.decoder.pc = .exited
  | .stopping => s.decoder = s.decoder.closed
  | .joiningDisplay => s.decoder = s.decoder.closed ∧ s.isAlive = false
  | .drainingFrames => s.decoder = s.decoder.closed ∧ s.isAlive = false ∧ s.display = .exited
  | .freeing => s.decoder = s.decoder.closed ∧ s.isAlive = false ∧ s.display = .exited ∧
      s.frameQueue = []
  | .closed => s.decoder = s.decoder.closed ∧ s.isAlive = false ∧ s.display = .exited ∧
      s.frameQueue = [] ∧ s.swsFrame = none

/-- The frames whose fate is open, in the order of decoding. -/
def waiting (s : VideoWorld V) : List F :=
  (s.display.undecided.toList ++ s.frameQueue.filterMap id).map MovedFrame.frame

/-- The frames that the decoder has put into the queue. -/
def decoded (s : VideoWorld V) : List F := (onFrameCalls s.events).filterMap id

/-- While the coroutine runs, it delivers what was written. -/
structure Decodes (s : VideoWorld V) : Prop where
  running : s.decoder.pc ≠ .exited → ∃ sent, s.decoder.Delivers s.written s.events sent
  calls : onFrameCalls s.events <+: V.outputs V.fresh s.written

structure Runs (s : VideoWorld V) : Prop where
  owns : s.book.Owns s.owned
  coroutine : CoroutineOwns s s.decoder.pc
  behind : Behind s s.closing
  order : s.fates.map Prod.fst ++ s.waiting = s.decoded
  decodes : Decodes s

theorem runs_start : Runs ({} : VideoWorld V) :=
  ⟨Book.owns_start, ⟨rfl, rfl⟩, ⟨rfl, rfl, rfl, rfl, rfl⟩, rfl, fun h => absurd rfl h,
    List.nil_prefix⟩

/-! ## The display thread -/

/-- While the thread runs, `close` has not waited for it. -/
theorem Behind.aside (h : Behind s s.closing) (hdisplay : s.display ≠ .exited)
    (hclosing : t.closing = s.closing) (hdecoder : t.decoder = s.decoder)
    (halive : t.isAlive = s.isAlive) : Behind t t.closing := by
  rw [hclosing]
  unfold Behind at h ⊢
  rw [hdecoder, halive]
  split at h
  · trivial
  · trivial
  · exact h
  · exact h
  · exact h
  · exact absurd h.2.2 hdisplay
  · exact absurd h.2.2.1 hdisplay
  · exact absurd h.2.2.1 hdisplay

/-- A step of the thread: the frames it takes, uses and frees, and those it decides on. -/
theorem Runs.display (h : Runs s) (hdisplay : s.display ≠ .exited)
    (hclosing : t.closing = s.closing) (hdecoder : t.decoder = s.decoder)
    (halive : t.isAlive = s.isAlive) (hframe : t.frame = s.frame) (hout : t.out = s.out)
    (hwritten : t.written = s.written) (hevents : t.events = s.events) (howns : t.book.Owns t.owned)
    (horder : t.fates.map Prod.fst ++ t.waiting = s.fates.map Prod.fst ++ s.waiting) : Runs t := by
  refine ⟨howns, ?_, h.behind.aside hdisplay hclosing hdecoder halive, ?_, ?_⟩
  · have hcoroutine := h.coroutine
    unfold CoroutineOwns at hcoroutine ⊢
    rw [hdecoder, hframe, hout]
    exact hcoroutine
  · unfold decoded
    rw [hevents, horder]
    exact h.order
  · obtain ⟨hrunning, hcalls⟩ := h.decodes
    refine ⟨?_, ?_⟩
    · rw [hdecoder, hwritten, hevents]
      exact hrunning
    · rw [hwritten, hevents]
      exact hcalls

theorem mem_owned_of_held (h : s.display.held = some f) : f.id ∈ s.owned := by
  unfold owned heldIds
  rw [h]
  simp

/-- The thread goes on, with the frame that it has. -/
theorem Runs.goOn {d : DisplayLoop F} (h : Runs s) (hdisplay : s.display ≠ .exited)
    (hheld : d.held = s.display.held) (hundecided : d.undecided = s.display.undecided) :
    Runs { s with display := d } := by
  refine h.display hdisplay rfl rfl rfl rfl rfl rfl rfl ?_ ?_
  · have howned : owned { s with display := d } = s.owned := by
      unfold owned heldIds queuedIds
      rw [hheld]
    rw [howned]
    exact h.owns
  · unfold waiting
    rw [hundecided]

/-- The thread decides on the frame in its hands. -/
theorem Runs.settle {fate : Fate} {book : Book} {sws : Option Nat} (h : Runs s)
    (hdisplay : s.display.undecided = some f)
    (howns : book.Owns (owned { s with swsFrame := sws })) :
    Runs (settle { s with book := book, swsFrame := sws } f fate) := by
  have hheld : s.display.held = some f := by
    cases hd : s.display with
    | waiting g | presenting g =>
      rw [hd] at hdisplay
      exact hdisplay
    | top | reading | ending | freeing g | exited =>
      rw [hd] at hdisplay
      cases hdisplay
  refine h.display (fun hexited => ?_) rfl rfl rfl rfl rfl rfl rfl ?_ ?_
  · rw [hexited] at hheld
    cases hheld
  · have howned : owned (VideoWorld.settle { s with book := book, swsFrame := sws } f fate) =
        owned { s with swsFrame := sws } := by
      unfold VideoWorld.settle owned heldIds queuedIds
      dsimp only
      rw [hheld]
      rfl
    rw [howned]
    exact howns
  · unfold VideoWorld.settle waiting
    dsimp only
    rw [hdisplay, List.map_append, List.append_assoc]
    rfl

/-- `_swsFrame` is there behind its use, and owned. -/
theorem useSwsFrame_eq (h : s.book.Owns s.owned) : ∃ book sws,
    s.useSwsFrame = { s with book := book, swsFrame := sws } ∧
      book.Owns (owned { s with swsFrame := sws }) := by
  unfold useSwsFrame
  split
  · next i hsws =>
    refine ⟨s.book.use i, s.swsFrame, rfl, h.use ?_⟩
    unfold owned
    rw [hsws]
    simp
  · next hsws =>
    refine ⟨_, some s.book.next, rfl, Book.Owns.use ?_ ?_⟩
    · refine h.obtain.recount fun i => ?_
      unfold owned heldIds queuedIds
      rw [hsws]
      simp [List.count_cons]
      omega
    · unfold owned
      simp

theorem Runs.displayStep {c : DisplayChoice} (h : Runs s) (hs : s.displayStep c = some t) :
    Runs t := by
  unfold VideoWorld.displayStep at hs
  split at hs
  · next hdisplay =>
    obtain rfl := Option.some.inj hs
    refine h.goOn (by rw [hdisplay]; nofun) ?_ ?_
    · rw [hdisplay]
      split <;> rfl
    · rw [hdisplay]
      split <;> rfl
  · next hdisplay =>
    have hrunning : s.display ≠ .exited := by rw [hdisplay]; nofun
    split at hs
    · obtain rfl := Option.some.inj hs
      exact h.goOn hrunning (by rw [hdisplay]; rfl) (by rw [hdisplay]; rfl)
    · next rest hqueue =>
      obtain rfl := Option.some.inj hs
      refine h.display hrunning rfl rfl rfl rfl rfl rfl rfl (h.owns.recount fun i => ?_) ?_
      · unfold owned heldIds queuedIds
        rw [hqueue, hdisplay]
        rfl
      · unfold waiting
        rw [hqueue, hdisplay]
        rfl
    · next f rest hqueue =>
      obtain rfl := Option.some.inj hs
      refine h.display hrunning rfl rfl rfl rfl rfl rfl rfl (Book.Owns.use ?_ ?_) ?_
      · refine h.owns.recount fun i => ?_
        unfold owned heldIds queuedIds
        rw [hqueue, hdisplay]
        simp [DisplayLoop.held, List.count_cons]
        omega
      · unfold owned heldIds
        simp [DisplayLoop.held]
      · unfold waiting
        rw [hqueue, hdisplay]
        rfl
  · next hdisplay =>
    obtain rfl := Option.some.inj hs
    exact h.goOn (by rw [hdisplay]; nofun) (by rw [hdisplay]; rfl) (by rw [hdisplay]; rfl)
  · split at hs
    · obtain rfl := Option.some.inj hs
      exact h
    · cases hs
  · next f hdisplay =>
    obtain rfl := Option.some.inj hs
    exact h.settle (by rw [hdisplay]; rfl) h.owns
  · next f hdisplay =>
    obtain rfl := Option.some.inj hs
    exact h.goOn (by rw [hdisplay]; nofun) (by rw [hdisplay]; rfl) (by rw [hdisplay]; rfl)
  · next f hdisplay =>
    obtain rfl := Option.some.inj hs
    exact h.settle (by rw [hdisplay]; rfl)
      (h.owns.use (mem_owned_of_held (by rw [hdisplay]; rfl)))
  · next f shown hdisplay =>
    obtain rfl := Option.some.inj hs
    have huse := h.owns.use (mem_owned_of_held (f := f) (by rw [hdisplay]; rfl))
    obtain ⟨book, sws, heq, howns⟩ :=
      useSwsFrame_eq (s := { s with book := s.book.use f.id }) huse
    rw [heq]
    exact h.settle (by rw [hdisplay]; rfl) howns
  · next f hdisplay =>
    obtain rfl := Option.some.inj hs
    exact h.settle (by rw [hdisplay]; rfl)
      (h.owns.use (mem_owned_of_held (by rw [hdisplay]; rfl)))
  · next f hdisplay =>
    obtain rfl := Option.some.inj hs
    refine h.display (by rw [hdisplay]; nofun) rfl rfl rfl rfl rfl rfl rfl ?_ ?_
    · have hsplit : s.book.Owns (s.frame.toList ++ (s.out.toList ++ s.queuedIds) ++
          f.id :: s.swsFrame.toList) := by
        refine h.owns.recount fun i => ?_
        unfold owned heldIds
        rw [hdisplay]
        simp [DisplayLoop.held, List.count_cons]
      refine hsplit.free.recount fun i => ?_
      unfold owned heldIds queuedIds
      simp [DisplayLoop.held]
    · unfold waiting
      rw [hdisplay]
      rfl
  · cases hs

/-- The display thread takes from the queue, and leaves the decoder to the others. -/
theorem displayStep_keeps {c : DisplayChoice} (hs : s.displayStep c = some t) :
    t.decoder = s.decoder ∧ t.closing = s.closing ∧ t.written = s.written ∧
      t.frameQueue <:+ s.frameQueue := by
  have hsws (u : VideoWorld V) : u.useSwsFrame.decoder = u.decoder ∧
      u.useSwsFrame.closing = u.closing ∧ u.useSwsFrame.written = u.written ∧
        u.useSwsFrame.frameQueue <:+ u.frameQueue := by
    unfold useSwsFrame
    split
    · exact ⟨rfl, rfl, rfl, List.suffix_refl _⟩
    · exact ⟨rfl, rfl, rfl, List.suffix_refl _⟩
  have hsame : s.frameQueue <:+ s.frameQueue := List.suffix_refl _
  unfold VideoWorld.displayStep at hs
  split at hs
  · obtain rfl := Option.some.inj hs
    exact ⟨rfl, rfl, rfl, hsame⟩
  · split at hs
    · obtain rfl := Option.some.inj hs
      exact ⟨rfl, rfl, rfl, hsame⟩
    · next rest hqueue =>
      obtain rfl := Option.some.inj hs
      exact ⟨rfl, rfl, rfl, hqueue ▸ List.suffix_cons _ rest⟩
    · next f rest hqueue =>
      obtain rfl := Option.some.inj hs
      exact ⟨rfl, rfl, rfl, hqueue ▸ List.suffix_cons _ rest⟩
  · obtain rfl := Option.some.inj hs
    exact ⟨rfl, rfl, rfl, hsame⟩
  · obtain ⟨-, hs⟩ := Option.ite_none_right_eq_some.mp hs
    obtain rfl := Option.some.inj hs
    exact ⟨rfl, rfl, rfl, hsame⟩
  · obtain rfl := Option.some.inj hs
    exact ⟨rfl, rfl, rfl, hsame⟩
  · obtain rfl := Option.some.inj hs
    exact ⟨rfl, rfl, rfl, hsame⟩
  · obtain rfl := Option.some.inj hs
    exact ⟨rfl, rfl, rfl, hsame⟩
  · next f shown _ =>
    obtain rfl := Option.some.inj hs
    exact hsws { s with book := s.book.use f.id }
  · obtain rfl := Option.some.inj hs
    exact ⟨rfl, rfl, rfl, hsame⟩
  · obtain rfl := Option.some.inj hs
    exact ⟨rfl, rfl, rfl, hsame⟩
  · cases hs

/-! ## The coroutine -/

/-- Behind `Decoder::close` the coroutine has left. -/
theorem pc_of_closed (h : s.decoder = s.decoder.closed) : s.decoder.pc = .exited :=
  congrArg Decoder.pc h

theorem Behind.running (h : Behind s s.closing) (hrun : s.decoder.pc ≠ .exited) :
    s.closing = .playing ∨ s.closing = .joiningDecoder := by
  have hnew : s.decoder ≠ s.decoder.closed := fun heq => hrun (pc_of_closed heq)
  unfold Behind at h
  split at h
  · next hclosing => exact .inl hclosing
  · next hclosing => exact .inr hclosing
  · exact absurd h hrun
  · exact absurd h hnew
  · exact absurd h.1 hnew
  · exact absurd h.1 hnew
  · exact absurd h.1 hnew
  · exact absurd h.1 hnew

/-- The decoder's part of a step of the coroutine. -/
theorem decoderStep_run (hs : s.decoderStep = some t) : ∃ events,
    s.decoder.run = some (t.decoder, events) ∧ t.events = s.events ++ events ∧
      t.written = s.written ∧ t.closing = s.closing := by
  obtain ⟨⟨decoder, events⟩, hrun, hs⟩ := Option.bind_eq_some_iff.mp hs
  refine ⟨events, ?_⟩
  dsimp only at hs
  have hpush {u : VideoWorld V} {frame : Option (MovedFrame F)} (h : u.onFrame frame = some t) :
      t.decoder = u.decoder ∧ t.events = u.events ∧ t.written = u.written ∧
        t.closing = u.closing := by
    unfold VideoWorld.onFrame at h
    split at h
    · obtain rfl := Option.some.inj h
      exact ⟨rfl, rfl, rfl, rfl⟩
    · cases h
  have hkeeps : t.decoder = decoder ∧ t.events = s.events ++ events ∧ t.written = s.written ∧
      t.closing = s.closing := by
    split at hs
    · obtain rfl := Option.some.inj hs
      exact ⟨rfl, rfl, rfl, rfl⟩
    · obtain rfl := Option.some.inj hs
      exact ⟨rfl, rfl, rfl, rfl⟩
    · obtain rfl := Option.some.inj hs
      exact ⟨rfl, rfl, rfl, rfl⟩
    · obtain ⟨i, -, hs⟩ := Option.bind_eq_some_iff.mp hs
      exact hpush hs
    · exact hpush hs
    · obtain rfl := Option.some.inj hs
      exact ⟨rfl, rfl, rfl, rfl⟩
  rw [hkeeps.1]
  exact ⟨hrun, hkeeps.2⟩

theorem Delivers.calls_prefix {d : Decoder V} {written sent : List (Option P)}
    {events : List (DecoderEvent P F)} (h : d.Delivers written events sent) :
    onFrameCalls events <+: V.outputs V.fresh written := by
  refine ⟨d.owed ++ V.outputs (V.after V.fresh sent) (d.hand ++ d.packetQueue), ?_⟩
  rw [← List.append_assoc, h.calls, ← V.outputs_append, ← List.append_assoc, ← h.written]

theorem Decodes.decoderStep (h : Decodes s) (hs : s.decoderStep = some t) : Decodes t := by
  obtain ⟨events, hrun, hevents, hwritten, -⟩ := decoderStep_run hs
  have hrunning : s.decoder.pc ≠ .exited := fun hexited => by
    unfold Decoder.run at hrun
    rw [hexited] at hrun
    cases hrun
  obtain ⟨sent, hsent⟩ := h.running hrunning
  obtain ⟨sent', hsent'⟩ := hsent.run hrun
  rw [← hevents, ← hwritten] at hsent'
  exact ⟨fun _ => ⟨sent', hsent'⟩, Delivers.calls_prefix hsent'⟩

/-- A step of the coroutine: until it has left, `close` waits for it. -/
theorem Runs.coroutineStep (h : Runs s) (hs : s.decoderStep = some t)
    (hrun : s.decoder.pc ≠ .exited) (hclosing : t.closing = s.closing)
    (howns : t.book.Owns t.owned) (hcoroutine : CoroutineOwns t t.decoder.pc)
    (horder : t.fates.map Prod.fst ++ t.waiting = t.decoded) : Runs t := by
  refine ⟨howns, hcoroutine, ?_, horder, h.decodes.decoderStep hs⟩
  rw [hclosing]
  rcases h.behind.running hrun with hplaying | hjoining
  · rw [hplaying]
    trivial
  · rw [hjoining]
    trivial

/-- `_onFrame` lets go of the coroutine's frame. -/
theorem onFrame_eq {frame : Option (MovedFrame F)} (hs : s.onFrame frame = some t) :
    t = { s with frameQueue := s.frameQueue ++ [frame], out := none } := by
  unfold VideoWorld.onFrame at hs
  split at hs
  · exact (Option.some.inj hs).symm
  · cases hs

theorem Runs.decoderStep (h : Runs s) (hs : s.decoderStep = some t) : Runs t := by
  obtain ⟨owns, coroutine, behind, order, -⟩ := id h
  have hgo := h.coroutineStep hs
  obtain ⟨⟨context, packets, decoding, eof, pc⟩, frame, out, queue, isAlive, display, sws, closing,
    book, written, events, fates⟩ := s
  -- a call that hands nothing to `onFrame`
  have hquiet (new : List (DecoderEvent P F)) (hnew : onFrameCalls new = []) :
      (onFrameCalls (events ++ new)).filterMap id = (onFrameCalls events).filterMap id := by
    rw [Decoder.onFrameCalls_append, hnew, List.append_nil]
  -- a call of `onFrame` adds the same to the queue and to what is decoded
  have hpush (frame : Option (MovedFrame F)) :
      fates.map Prod.fst ++
          (display.undecided.toList ++ (queue ++ [frame]).filterMap id).map MovedFrame.frame =
        (onFrameCalls (events ++ [.frame (frame.map MovedFrame.frame)])).filterMap id := by
    rw [Decoder.onFrameCalls_append, List.filterMap_append, List.filterMap_append,
      ← List.append_assoc, List.map_append, ← List.append_assoc]
    refine congrArg₂ (· ++ ·) order ?_
    cases frame <;> rfl
  cases pc with
  | top =>
    cases decoding with
    | true =>
      obtain rfl := Option.some.inj hs
      exact hgo nofun rfl owns coroutine (order.trans (hquiet [] rfl).symm)
    | false =>
      obtain rfl := Option.some.inj hs
      refine hgo nofun rfl ?_ ⟨rfl, coroutine⟩ (order.trans (hquiet [] rfl).symm)
      have hfreed : (book.freeOpt frame).Owns ([] ++ _) := Book.Owns.freeOpt owns
      exact hfreed
  | reading =>
    cases packets with
    | nil =>
      obtain rfl := Option.some.inj hs
      exact hgo nofun rfl owns coroutine (order.trans (hquiet [] rfl).symm)
    | cons pkt packets =>
      obtain rfl := Option.some.inj hs
      exact hgo nofun rfl owns coroutine (order.trans (hquiet [] rfl).symm)
  | sending pkt =>
    obtain rfl := Option.some.inj hs
    exact hgo nofun rfl owns coroutine (order.trans (hquiet [_] rfl).symm)
  | receiving pkt =>
    have huse : (book.useOpt frame).Owns _ := owns.useOpt fun j hj => by
      unfold owned
      simp [Option.mem_def.mp hj]
    obtain ⟨state, output, draining⟩ := context
    cases output with
    | nil =>
      cases pkt with
      | none =>
        obtain rfl := Option.some.inj hs
        exact hgo nofun rfl huse coroutine (order.trans (hquiet [] rfl).symm)
      | some p =>
        obtain rfl := Option.some.inj hs
        exact hgo nofun rfl huse coroutine (order.trans (hquiet [] rfl).symm)
    | cons f output =>
      obtain rfl := Option.some.inj hs
      refine hgo nofun rfl ?_ rfl (order.trans (hquiet [] rfl).symm)
      obtain rfl : out = none := coroutine
      refine huse.obtain.recount fun i => ?_
      unfold owned heldIds queuedIds
      rw [Book.useOpt_next]
      simp [List.count_cons]
      omega
  | handing pkt f =>
    obtain ⟨i, rfl⟩ := Option.isSome_iff_exists.mp coroutine
    obtain rfl := onFrame_eq hs
    refine hgo nofun rfl ?_ rfl ?_
    · refine owns.recount fun j => ?_
      unfold owned heldIds queuedIds
      simp [List.count_cons]
      omega
    · exact hpush (some { id := i, frame := f })
  | ending =>
    obtain rfl := onFrame_eq hs
    refine hgo nofun rfl ?_ rfl ?_
    · obtain rfl : out = none := coroutine
      refine owns.recount fun j => ?_
      unfold owned heldIds queuedIds
      simp
    · exact hpush none
  | flushing =>
    obtain rfl := Option.some.inj hs
    exact hgo nofun rfl owns coroutine (order.trans (hquiet [] rfl).symm)
  | freeing pkt =>
    obtain rfl := Option.some.inj hs
    refine hgo nofun rfl owns coroutine (order.trans (hquiet _ ?_).symm)
    cases pkt <;> rfl
  | exited => cases hs

/-! ## Video::close -/

theorem drain_keeps_pc {d d' : Decoder V} {packet : Option P} (h : d.drain = some (packet, d')) :
    d'.pc = d.pc := by
  unfold Decoder.drain at h
  split at h
  · cases h
  · cases h
    rfl

theorem write_keeps_pc {d d' : Decoder V} {packet : Option P} (h : d.write packet = some d') :
    d'.pc = d.pc := by
  unfold Decoder.write at h
  split at h
  · cases h
    rfl
  · cases h

/-- Behind the coroutine only what was decoded counts. -/
theorem Decodes.exited (h : Decodes s) (hexited : t.decoder.pc = .exited)
    (hwritten : t.written = s.written) (hevents : t.events = s.events) : Decodes t :=
  ⟨fun hrun => absurd hexited hrun, by rw [hwritten, hevents]; exact h.calls⟩

/-- `_isAlive = 0` takes nothing from the coroutine. -/
theorem Delivers.stop {d : Decoder V} {written sent : List (Option P)}
    {events : List (DecoderEvent P F)} (h : d.Delivers written events sent) :
    d.stop.Delivers written events sent :=
  ⟨h.ready, h.written, h.settled, h.calls, h.freed, h.refused⟩

/-- Only packets and flags change. -/
theorem Runs.keep (h : Runs s) (hbook : t.book = s.book) (howned : t.owned = s.owned)
    (hcoroutine : CoroutineOwns t t.decoder.pc) (hbehind : Behind t t.closing)
    (hfates : t.fates = s.fates) (hwaiting : t.waiting = s.waiting)
    (hevents : t.events = s.events) (hdecodes : Decodes t) : Runs t := by
  refine ⟨?_, hcoroutine, hbehind, ?_, hdecodes⟩
  · rw [hbook, howned]
    exact h.owns
  · unfold decoded
    rw [hfates, hwaiting, hevents]
    exact h.order

/-- `close` takes the next frame from the queue. -/
theorem Runs.drain {rest : List (Option (MovedFrame F))} {frame : Option (MovedFrame F)}
    (h : Runs s) (hclosing : s.closing = .drainingFrames) (hqueue : s.frameQueue = frame :: rest) :
    Runs { s with
      frameQueue := rest, book := s.book.freeOpt (frame.map MovedFrame.id)
      fates := s.fates ++ (frame.map fun f => (f.frame, Fate.discarded)).toList } := by
  have hbehind := h.behind
  rw [hclosing] at hbehind
  obtain ⟨hdecoder, halive, hdisplay⟩ := hbehind
  refine ⟨?_, h.coroutine, ?_, ?_, h.decodes.exited (pc_of_closed hdecoder) rfl rfl⟩
  · have hsplit : s.book.Owns (s.frame.toList ++ s.out.toList ++
        ((frame.map MovedFrame.id).toList ++
          ((rest.filterMap id).map MovedFrame.id ++ (s.heldIds ++ s.swsFrame.toList)))) := by
      refine h.owns.recount fun i => ?_
      unfold owned queuedIds
      rw [hqueue]
      cases frame <;> simp [List.count_cons]
    refine hsplit.freeOpt.recount fun i => ?_
    unfold owned queuedIds heldIds
    simp
  · dsimp only
    rw [hclosing]
    exact ⟨hdecoder, halive, hdisplay⟩
  · have horder := h.order
    unfold waiting at horder ⊢
    rw [hqueue, hdisplay] at horder
    refine Eq.trans ?_ horder
    dsimp only
    rw [hdisplay]
    cases frame <;> simp [DisplayLoop.undecided]

theorem Runs.closeStep (h : Runs s) (hs : s.closeStep = some t) : Runs t := by
  have hcoroutine := h.coroutine
  have hbehind := h.behind
  have hdecodes := h.decodes
  unfold VideoWorld.closeStep at hs
  split at hs
  · next hclosing =>
    obtain rfl := Option.some.inj hs
    refine h.keep rfl rfl hcoroutine trivial rfl rfl rfl ⟨fun hrun => ?_, hdecodes.calls⟩
    obtain ⟨sent, hsent⟩ := hdecodes.running hrun
    exact ⟨sent, Delivers.stop hsent⟩
  · next hclosing =>
    split at hs
    · next hexited =>
      obtain rfl := Option.some.inj hs
      exact h.keep rfl rfl hcoroutine hexited rfl rfl rfl (hdecodes.exited hexited rfl rfl)
    · cases hs
  · next hclosing =>
    rw [hclosing] at hbehind
    split at hs
    · next decoder hdrain =>
      obtain rfl := Option.some.inj hs
      have hpc := drain_keeps_pc hdrain
      refine h.keep rfl rfl ?_ ?_ rfl rfl rfl (hdecodes.exited (hpc.trans hbehind) rfl rfl)
      · dsimp only
        rw [hpc]
        exact hcoroutine
      · dsimp only
        rw [hclosing]
        exact hpc.trans hbehind
    · obtain rfl := Option.some.inj hs
      have hexited : s.decoder.pc = .exited := hbehind
      rw [hexited] at hcoroutine
      exact h.keep rfl rfl hcoroutine rfl rfl rfl rfl (hdecodes.exited rfl rfl rfl)
  · next hclosing =>
    rw [hclosing] at hbehind
    obtain rfl := Option.some.inj hs
    exact h.keep rfl rfl hcoroutine ⟨hbehind, rfl⟩ rfl rfl rfl
      (hdecodes.exited (pc_of_closed hbehind) rfl rfl)
  · next hclosing =>
    rw [hclosing] at hbehind
    split at hs
    · next hexited =>
      obtain rfl := Option.some.inj hs
      exact h.keep rfl rfl hcoroutine ⟨hbehind.1, hbehind.2, hexited⟩ rfl rfl rfl
        (hdecodes.exited (pc_of_closed hbehind.1) rfl rfl)
    · cases hs
  · next hclosing =>
    split at hs
    · next hqueue =>
      rw [hclosing] at hbehind
      obtain rfl := Option.some.inj hs
      exact h.keep rfl rfl hcoroutine ⟨hbehind.1, hbehind.2.1, hbehind.2.2, hqueue⟩ rfl rfl rfl
        (hdecodes.exited (pc_of_closed hbehind.1) rfl rfl)
    · next rest hqueue =>
      obtain rfl := Option.some.inj hs
      have hdrained := h.drain hclosing hqueue
      simpa using hdrained
    · next f rest hqueue =>
      obtain rfl := Option.some.inj hs
      exact h.drain hclosing hqueue
  · next hclosing =>
    rw [hclosing] at hbehind
    obtain rfl := Option.some.inj hs
    obtain ⟨hdecoder, halive, hdisplay, hqueue⟩ := hbehind
    refine ⟨?_, hcoroutine, ⟨hdecoder, halive, hdisplay, hqueue, rfl⟩, h.order,
      hdecodes.exited (pc_of_closed hdecoder) rfl rfl⟩
    have hsplit : s.book.Owns (s.frame.toList ++ s.out.toList ++ s.queuedIds ++ s.heldIds ++
        (s.swsFrame.toList ++ [])) := by
      refine h.owns.recount fun i => ?_
      unfold owned
      simp
    refine hsplit.freeOpt.recount fun i => ?_
    unfold owned queuedIds heldIds
    simp
  · cases hs

theorem Runs.step {a : VideoWorldAct P} (h : Runs s) (hs : s.step a = some t) : Runs t := by
  cases a with
  | opens ok =>
    simp only [VideoWorld.step] at hs
    split at hs
    · next hclosing =>
      have hbehind := h.behind
      rw [hclosing] at hbehind
      obtain ⟨hdecoder, halive, hdisplay, hqueue, hsws⟩ := hbehind
      have hcoroutine := h.coroutine
      rw [hdecoder] at hcoroutine
      obtain ⟨hframe, hout⟩ := hcoroutine
      have hexited := pc_of_closed hdecoder
      -- nothing is decoded yet, and nothing is left of the last session
      have hnothing : ([] : List F) ++ s.waiting = [] := by
        unfold waiting
        rw [hdisplay, hqueue]
        rfl
      cases ok with
      | false =>
        obtain rfl := Option.some.inj hs
        exact ⟨h.owns, h.coroutine, trivial, hnothing, fun hrun => absurd hexited hrun,
          List.nil_prefix⟩
      | true =>
        obtain rfl := Option.some.inj hs
        refine ⟨h.owns.obtain.recount fun i => ?_, hout, trivial, ?_,
          fun _ => ⟨[], Decoder.delivers_opened⟩, List.nil_prefix⟩
        · unfold owned queuedIds heldIds
          rw [hframe, hdisplay]
          simp [List.count_cons, DisplayLoop.held]
        · unfold waiting
          dsimp only
          rw [hqueue]
          rfl
    · cases hs
  | write packet =>
    simp only [VideoWorld.step] at hs
    split at hs
    · next hclosing =>
      obtain ⟨decoder, hwrite, rfl⟩ := Option.map_eq_some_iff.mp hs
      have hpc := write_keeps_pc hwrite
      refine h.keep rfl rfl ?_ (by dsimp only; rw [hclosing]; trivial) rfl rfl rfl ⟨?_, ?_⟩
      · dsimp only
        rw [hpc]
        exact h.coroutine
      · intro hrun
        obtain ⟨sent, hsent⟩ := h.decodes.running (by rw [← hpc]; exact hrun)
        exact ⟨sent, hsent.write hwrite⟩
      · dsimp only
        rw [V.outputs_append]
        exact h.decodes.calls.trans (List.prefix_append ..)
    · cases hs
  | decoder => exact h.decoderStep hs
  | display c => exact h.displayStep hs
  | close => exact h.closeStep hs

theorem runs_of_reach (h : Reach step {} s) : Runs s :=
  Reach.invariant h runs_start fun _ _ _ hI hs => hI.step hs

end VideoWorld

open VideoWorld

/-- A session that shows one frame and leaves one in the queue. -/
def oneShown : List (VideoWorldAct Unit) :=
  .opens true :: .write (some ()) :: .write (some ()) :: List.replicate 7 .decoder ++
    [.display .go, .display .go] ++ List.replicate 7 .decoder ++
    [.display .again, .display .present, .display (.convert true), .display .go, .close, .decoder,
      .close, .close, .close, .display .go, .close, .close, .close, .close]

/-- Every decoded frame has one fate, in the order of decoding: behind those that were decided
comes the frame that the display thread has in hand, and then the queue.  What is decoded begins
as what the codec gives for the packets written. -/
theorem video_frames_in_order {V : Codec P F} {s : VideoWorld V} (h : Reach step {} s) :
    s.fates.map Prod.fst ++ s.waiting = s.decoded ∧
      onFrameCalls s.events <+: V.outputs V.fresh s.written ∧
      (s.closing = .closed → s.fates.map Prod.fst = s.decoded) := by
  have hruns := runs_of_reach h
  refine ⟨hruns.order, hruns.decodes.calls, fun hclosed => ?_⟩
  have hbehind := hruns.behind
  rw [hclosed] at hbehind
  obtain ⟨-, -, hdisplay, hqueue, -⟩ := hbehind
  have hnone : s.waiting = [] := by
    unfold waiting
    rw [hdisplay, hqueue]
    rfl
  have horder := hruns.order
  rw [hnone, List.append_nil] at horder
  exact horder

theorem video_frames_in_order_shown :
    ∃ s : VideoWorld (frameCodec 7), s.fates.map Prod.snd = [.shown, .discarded] ∧
      s.fates.map Prod.fst = s.decoded := by
  obtain ⟨s, hreach, hend⟩ := reach_of_any (step (V := frameCodec 7)) {} oneShown
    (fun s => s.closing = .closed ∧ s.fates.map Prod.snd = [.shown, .discarded])
    (by decide +kernel)
  obtain ⟨hclosed, hfates⟩ := of_decide_eq_true hend
  exact ⟨s, hfates, (video_frames_in_order hreach).2.2 hclosed⟩

end VideoPlayerCore
