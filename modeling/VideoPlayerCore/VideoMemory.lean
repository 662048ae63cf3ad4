import VideoPlayerCore.VideoLedger

/-!
# How much the video side holds

Both queues are bounded, and whoever writes to a full one waits.  So the frames that exist at a
time are few however long the file is and however the threads run: the coroutine's `frame` and
`out`, one in the queue, the one that the display thread has in hand, and `_swsFrame`.

    s.Bounded → s.step a = some t → t.Bounded                                 (Bounded.step)
-/

namespace VideoPlayerCore

open Machine Ledgers

variable {P F : Type}

theorem Decoder.run_packetQueue {C : Codec P F} {d d' : Decoder C}
    {events : List (DecoderEvent P F)} (h : d.run = some (d', events)) :
    d'.packetQueue.length ≤ d.packetQueue.length := by
  unfold Decoder.run at h
  split at h
  · cases h
    exact Nat.le_refl _
  · split at h
    · cases h
      exact Nat.le_refl _
    · next hqueue =>
      cases h
      rw [hqueue]
      exact Nat.le_succ _
  · cases h
    exact Nat.le_refl _
  · split at h
    · cases h
      exact Nat.le_refl _
    · split at h
      · cases h
        exact Nat.le_refl _
      · cases h
        exact Nat.le_refl _
  · cases h
    exact Nat.le_refl _
  · cases h
    exact Nat.le_refl _
  · cases h
    exact Nat.le_refl _
  · cases h
    exact Nat.le_refl _
  · cases h

namespace VideoWorld

variable {V : Codec P F} {s t : VideoWorld V}

/-- The queues keep to their capacities. -/
structure Bounded (s : VideoWorld V) : Prop where
  frames : s.frameQueue.length ≤ videoRoom
  packets : s.decoder.packetQueue.length ≤ packetRoom

theorem onFrame_frames {frame : Option (MovedFrame F)} (h : s.onFrame frame = some t) :
    t.frameQueue.length ≤ videoRoom := by
  unfold VideoWorld.onFrame at h
  split at h
  · next hroom =>
    obtain rfl := Option.some.inj h
    rw [List.length_append]
    exact hroom
  · cases h

theorem decoderStep_frames (hframes : s.frameQueue.length ≤ videoRoom)
    (hs : s.decoderStep = some t) : t.frameQueue.length ≤ videoRoom := by
  obtain ⟨⟨decoder, events⟩, -, hs⟩ := Option.bind_eq_some_iff.mp hs
  dsimp only at hs
  split at hs
  · obtain rfl := Option.some.inj hs
    exact hframes
  · obtain rfl := Option.some.inj hs
    exact hframes
  · obtain rfl := Option.some.inj hs
    exact hframes
  · obtain ⟨i, -, hs⟩ := Option.bind_eq_some_iff.mp hs
    exact onFrame_frames hs
  · exact onFrame_frames hs
  · obtain rfl := Option.some.inj hs
    exact hframes

theorem Bounded.decoderStep (h : Bounded s) (hs : s.decoderStep = some t) : Bounded t := by
  obtain ⟨events, hrun, -⟩ := decoderStep_run hs
  exact ⟨decoderStep_frames h.frames hs, Nat.le_trans (Decoder.run_packetQueue hrun) h.packets⟩

theorem Bounded.displayStep {c : DisplayChoice} (h : Bounded s) (hs : s.displayStep c = some t) :
    Bounded t := by
  obtain ⟨hdecoder, -, -, hqueue⟩ := displayStep_keeps hs
  refine ⟨Nat.le_trans hqueue.length_le h.frames, ?_⟩
  rw [hdecoder]
  exact h.packets

theorem Bounded.closeStep (h : Bounded s) (hs : s.closeStep = some t) : Bounded t := by
  obtain ⟨hframes, hpackets⟩ := h
  unfold VideoWorld.closeStep at hs
  split at hs
  · obtain rfl := Option.some.inj hs
    exact ⟨hframes, hpackets⟩
  · split at hs
    · obtain rfl := Option.some.inj hs
      exact ⟨hframes, hpackets⟩
    · cases hs
  · split at hs
    · next packet decoder hdrain =>
      obtain rfl := Option.some.inj hs
      refine ⟨hframes, Nat.le_trans ?_ hpackets⟩
      unfold Decoder.drain at hdrain
      split at hdrain
      · cases hdrain
      · next hqueue =>
        cases hdrain
        rw [hqueue]
        exact Nat.le_succ _
    · obtain rfl := Option.some.inj hs
      exact ⟨hframes, Nat.zero_le _⟩
  · obtain rfl := Option.some.inj hs
    exact ⟨hframes, hpackets⟩
  · split at hs
    · obtain rfl := Option.some.inj hs
      exact ⟨hframes, hpackets⟩
    · cases hs
  · split at hs
    · obtain rfl := Option.some.inj hs
      exact ⟨hframes, hpackets⟩
    · next rest hqueue =>
      obtain rfl := Option.some.inj hs
      rw [hqueue] at hframes
      exact ⟨Nat.le_of_succ_le hframes, hpackets⟩
    · next f rest hqueue =>
      obtain rfl := Option.some.inj hs
      rw [hqueue] at hframes
      exact ⟨Nat.le_of_succ_le hframes, hpackets⟩
  · obtain rfl := Option.some.inj hs
    exact ⟨hframes, hpackets⟩
  · cases hs

theorem Bounded.step {a : VideoWorldAct P} (h : Bounded s) (hs : s.step a = some t) :
    Bounded t := by
  cases a with
  | opens ok =>
    rw [VideoWorld.step] at hs
    split at hs
    · split at hs
      · obtain rfl := Option.some.inj hs
        exact ⟨h.frames, Nat.zero_le _⟩
      · obtain rfl := Option.some.inj hs
        exact ⟨h.frames, h.packets⟩
    · cases hs
  | write packet =>
    rw [VideoWorld.step] at hs
    split at hs
    · obtain ⟨decoder, hwrite, rfl⟩ := Option.map_eq_some_iff.mp hs
      refine ⟨h.frames, ?_⟩
      unfold Decoder.write at hwrite
      split at hwrite
      · next hroom =>
        obtain rfl := Option.some.inj hwrite
        dsimp only
        rw [List.length_append]
        exact hroom
      · cases hwrite
    · cases hs
  | decoder => exact h.decoderStep hs
  | display c => exact h.displayStep hs
  | close => exact h.closeStep hs

/-- The frames that are allocated and not freed. -/
theorem length_owned (hbounded : Bounded s) : s.owned.length ≤ 4 + videoRoom := by
  have hqueue : s.queuedIds.length ≤ videoRoom := by
    unfold queuedIds
    rw [List.length_map]
    exact Nat.le_trans (List.length_filterMap_le _ _) hbounded.frames
  have hone (o : Option Nat) : o.toList.length ≤ 1 := by
    cases o with
    | none => exact Nat.zero_le 1
    | some => exact Nat.le_refl 1
  have hframe := hone s.frame
  have hout := hone s.out
  have hheld : s.heldIds.length ≤ 1 := hone _
  have hsws := hone s.swsFrame
  unfold owned
  simp only [List.length_append]
  omega

end VideoWorld

open VideoWorld

/-- In every run at most five frames of the video side are allocated and not freed, and at most
2047 packets wait for the decoder. -/
theorem video_memory_bounded {V : Codec P F} {s : VideoWorld V} (h : Reach step {} s) :
    s.decoder.packetQueue.length ≤ 2047 ∧ ∃ alive : List Nat, alive.length ≤ 5 ∧
      ∀ i, .alloc i ∈ s.book.entries → (.free i ∉ s.book.entries ↔ i ∈ alive) := by
  have hbounded : Bounded s :=
    h.invariant ⟨Nat.zero_le _, Nat.zero_le _⟩ fun _ _ _ hI hs => hI.step hs
  have howns := (runs_of_reach h).owns
  exact ⟨hbounded.packets, s.owned, length_owned hbounded, fun i hi => howns.alive_iff hi⟩

/-- All five: the display thread has the second frame in hand, the third is in the queue, and
the coroutine waits with the fourth. -/
theorem video_memory_bounded_five :
    ∃ s : VideoWorld (frameCodec 7), s.owned.length = 5 ∧
      (∀ i ∈ s.owned, .alloc i ∈ s.book.entries) ∧ ∃ alive : List Nat, alive.length ≤ 5 ∧
        ∀ i, .alloc i ∈ s.book.entries → (.free i ∉ s.book.entries ↔ i ∈ alive) := by
  obtain ⟨s, hreach, hend⟩ := reach_of_any (step (V := frameCodec 7)) {}
    (.opens true :: List.replicate 4 (.write (some ())) ++ List.replicate 5 .decoder ++
      [.display .go, .display .go, .display .present, .display (.convert true), .display .go] ++
      List.replicate 7 .decoder ++ [.display .go, .display .go] ++ List.replicate 13 .decoder)
    (fun s => s.owned.length = 5 ∧ ∀ i ∈ s.owned, Entry.alloc i ∈ s.book.entries)
    (by decide +kernel)
  obtain ⟨hfive, halloc⟩ := of_decide_eq_true hend
  exact ⟨s, hfive, halloc, (video_memory_bounded hreach).2⟩

end VideoPlayerCore
