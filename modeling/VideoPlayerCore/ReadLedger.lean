import VideoPlayerCore.DecoderDelivers
import VideoPlayerCore.ReadSteps

/-!
# Who owns a packet

A packet is the reader's until it is written, then the decoder's: in its queue or in the
coroutine's hands.  `Decoder::close` waits for the coroutine and frees what is left in the
queue, so once `_readThread` has returned nothing is owned any more, unless an error other
than EOF made the reader leave its loop: `break` goes past the `av_packet_free`.

    Accounts s.ledger (s.owned lost)                                    (ReadWorld.Balanced)
    s.pc = .returned → (every packet was freed once ↔ no such error)    (packets_freed_once)
-/

namespace VideoPlayerCore

open Machine Ledgers

variable {F G : Type}

/-! ## Decoders -/

namespace Decoder

variable {C : Codec Nat F} {d d' : Decoder C} {events : List (DecoderEvent Nat F)}
  {ledger : List (Entry Nat)}

/-- The coroutine's packet. -/
def current (d : Decoder C) : List Nat :=
  match d.pc with
  | .sending pkt | .receiving pkt | .handing pkt _ | .freeing pkt => pkt.toList
  | _ => []

def held (d : Decoder C) : List Nat := d.current ++ d.packetQueue.filterMap id

/-- The coroutine has ended, and the queue is empty. -/
def Closed (d : Decoder C) : Prop := d.pc = .exited ∧ d.packetQueue = []

theorem Closed.held (h : d.Closed) : d.held = [] := by
  obtain ⟨hpc, hqueue⟩ := h
  unfold Decoder.held current
  rw [hpc, hqueue]
  rfl

theorem run_of_exited (h : d.pc = .exited) : d.run = none := by
  unfold run
  rw [h]

/-- A call that leaves its packets where they are, or passes them on. -/
theorem accounts_same {before after : List Nat}
    (h : Accounts ledger (before ++ (d.held ++ after))) (hheld : d'.held = d.held)
    (hevents : events.flatMap DecoderEvent.entries = []) :
    Accounts (ledger ++ events.flatMap DecoderEvent.entries) (before ++ (d'.held ++ after)) := by
  rw [hevents, List.append_nil, hheld]
  exact h

theorem run_accounts {before after : List Nat}
    (h : Accounts ledger (before ++ (d.held ++ after))) (hs : d.run = some (d', events)) :
    Accounts (ledger ++ events.flatMap DecoderEvent.entries) (before ++ (d'.held ++ after)) := by
  obtain ⟨⟨state, output, draining⟩, queue, isAlive, eof, pc⟩ := d
  cases pc with
  | top =>
    obtain ⟨rfl, rfl⟩ := Prod.mk.inj (Option.some.inj hs)
    cases isAlive <;> exact accounts_same h rfl rfl
  | reading =>
    cases queue with
    | nil =>
      obtain ⟨rfl, rfl⟩ := Prod.mk.inj (Option.some.inj hs)
      exact accounts_same h rfl rfl
    | cons pkt queue =>
      obtain ⟨rfl, rfl⟩ := Prod.mk.inj (Option.some.inj hs)
      cases pkt <;> exact accounts_same h rfl rfl
  | sending pkt =>
    obtain ⟨rfl, rfl⟩ := Prod.mk.inj (Option.some.inj hs)
    cases pkt with
    | none => exact accounts_same h rfl rfl
    | some p =>
      refine h.use p (List.mem_append_right _ ?_)
      exact List.mem_append_left _ (List.mem_cons_self ..)
  | receiving pkt =>
    cases output with
    | nil =>
      cases pkt <;> obtain ⟨rfl, rfl⟩ := Prod.mk.inj (Option.some.inj hs) <;>
        exact accounts_same h rfl rfl
    | cons f output =>
      obtain ⟨rfl, rfl⟩ := Prod.mk.inj (Option.some.inj hs)
      exact accounts_same h rfl rfl
  | handing pkt out =>
    obtain ⟨rfl, rfl⟩ := Prod.mk.inj (Option.some.inj hs)
    exact accounts_same h rfl rfl
  | ending =>
    obtain ⟨rfl, rfl⟩ := Prod.mk.inj (Option.some.inj hs)
    exact accounts_same h rfl rfl
  | flushing =>
    obtain ⟨rfl, rfl⟩ := Prod.mk.inj (Option.some.inj hs)
    exact accounts_same h rfl rfl
  | freeing pkt =>
    obtain ⟨rfl, rfl⟩ := Prod.mk.inj (Option.some.inj hs)
    cases pkt with
    | none => exact accounts_same h rfl rfl
    | some p => exact h.free_mid
  | exited => cases hs

/-- A packet goes over to the decoder. -/
theorem write_accounts {packet : Option Nat} (before after : List Nat)
    (h : Accounts ledger (packet.toList ++ (before ++ (d.held ++ after))))
    (hs : d.write packet = some d') : Accounts ledger (before ++ (d'.held ++ after)) := by
  unfold write at hs
  split at hs
  · obtain rfl := Option.some.inj hs
    refine h.recount fun i => ?_
    unfold held current
    cases packet <;> simp [List.count_cons]
    omega
  · cases hs

theorem drain_pc {packet : Option Nat} (hs : d.drain = some (packet, d')) : d'.pc = d.pc := by
  unfold drain at hs
  split at hs
  · cases hs
  · cases hs
    rfl

/-- The drain loop frees what it reads. -/
theorem drain_accounts {packet : Option Nat} (before after : List Nat) (hpc : d.pc = .exited)
    (h : Accounts ledger (before ++ (d.held ++ after))) (hs : d.drain = some (packet, d')) :
    Accounts (ledger ++ packet.toList.map .free) (before ++ (d'.held ++ after)) := by
  obtain ⟨context, queue, isAlive, eof, pc⟩ := d
  obtain rfl : pc = .exited := hpc
  cases queue with
  | nil => cases hs
  | cons pkt queue =>
    obtain ⟨rfl, rfl⟩ := Prod.mk.inj (Option.some.inj hs)
    cases pkt with
    | none =>
      rw [Option.toList_none, List.map_nil, List.append_nil]
      exact h
    | some p => exact h.free_mid

theorem drain_none (hpc : d.pc = .exited) (hs : d.drain = none) : d.Closed := by
  unfold drain at hs
  split at hs
  · next hqueue => exact ⟨hpc, hqueue⟩
  · cases hs

end Decoder

theorem entries_no_alloc (events : List (DecoderEvent Nat F)) (i : Nat) :
    .alloc i ∉ events.flatMap DecoderEvent.entries := by
  intro hmem
  obtain ⟨e, -, he⟩ := List.mem_flatMap.mp hmem
  cases e with
  | sent pkt taken => cases pkt <;> simp [DecoderEvent.entries] at he
  | frame f => simp [DecoderEvent.entries] at he
  | freed pkt => simp [DecoderEvent.entries] at he

/-! ## The invariant -/

namespace ReadPc

/-- The reader's packet. -/
def packet : ReadPc → List Nat
  | .reading p | .toVideo p | .toAudio p | .freeing p | .endFreeing p => [p]
  | _ => []

end ReadPc

namespace ReadWorld

variable {V : Codec Nat F} {A : Codec Nat G} {s t : ReadWorld V A} {a : ReadAct}

/-- What is owned when nobody can free `lost`. -/
def owned (s : ReadWorld V A) (lost : List Nat) : List Nat :=
  s.pc.packet ++ (s.video.held ++ (s.audio.held ++ lost))

/-- How far the closing has come. -/
def Placed (s : ReadWorld V A) : Prop :=
  match s.pc with
  | .opening | .returned => s.video.Closed ∧ s.audio.Closed
  | .closingVideo .drain => s.video.pc = .exited
  | .closingAudio .drain => s.video.Closed ∧ s.audio.pc = .exited
  | .closingAudio _ => s.video.Closed
  | _ => True

structure Balanced (s : ReadWorld V A) : Prop where
  accounts : ∃ lost, Accounts s.ledger (s.owned lost) ∧ (lost = [] ↔ s.failed = false)
  allocated : ∀ i, .alloc i ∈ s.ledger ↔ i < s.allocated
  placed : s.Placed

theorem balanced_start : Balanced ({} : ReadWorld V A) where
  accounts := ⟨[], .nil, iff_of_true rfl rfl⟩
  allocated := fun i => iff_of_false List.not_mem_nil (Nat.not_lt_zero i)
  placed := ⟨⟨rfl, rfl⟩, rfl, rfl⟩

/-- A step that allocates nothing and meets no error. -/
theorem Balanced.goes {new : List (Entry Nat)} (h : s.Balanced)
    (hledger : t.ledger = s.ledger ++ new) (hnew : ∀ i, .alloc i ∉ new)
    (hallocated : t.allocated = s.allocated) (hfailed : t.failed = s.failed)
    (howned : ∀ lost, Accounts s.ledger (s.owned lost) →
      Accounts (s.ledger ++ new) (t.owned lost))
    (hplaced : t.Placed) : t.Balanced := by
  obtain ⟨lost, haccounts, hlost⟩ := h.accounts
  refine ⟨⟨lost, hledger ▸ howned lost haccounts, hfailed ▸ hlost⟩, fun i => ?_, hplaced⟩
  rw [hledger, hallocated, ← h.allocated, List.mem_append]
  exact or_iff_left (hnew i)

/-- A step without a call that allocates, uses or frees. -/
theorem Balanced.keeps (h : s.Balanced) (hledger : t.ledger = s.ledger)
    (hallocated : t.allocated = s.allocated) (hfailed : t.failed = s.failed)
    (howned : ∀ lost, Accounts s.ledger (s.owned lost) → Accounts s.ledger (t.owned lost))
    (hplaced : t.Placed) : t.Balanced := by
  have hnil : t.ledger = s.ledger ++ [] := by rw [hledger, List.append_nil]
  refine h.goes hnil (fun _ => List.not_mem_nil) hallocated hfailed (fun lost haccounts => ?_)
    hplaced
  rw [List.append_nil]
  exact howned lost haccounts

theorem Balanced.stays (h : s.Balanced) (hledger : t.ledger = s.ledger)
    (hallocated : t.allocated = s.allocated) (hfailed : t.failed = s.failed)
    (howned : ∀ lost, t.owned lost = s.owned lost) (hplaced : t.Placed) : t.Balanced :=
  h.keeps hledger hallocated hfailed (fun lost haccounts => howned lost ▸ haccounts) hplaced

/-! ## The decoder coroutines -/

theorem Balanced.video {d : Decoder V} {events : List (DecoderEvent Nat F)} (h : s.Balanced)
    (hs : s.video.run = some (d, events)) :
    Balanced { s with
      video := d, ledger := s.ledger ++ events.flatMap DecoderEvent.entries } := by
  have hrun : s.video.pc ≠ .exited := fun hpc => by
    rw [Decoder.run_of_exited hpc] at hs
    cases hs
  refine h.goes rfl (entries_no_alloc events) rfl rfl
    (fun lost haccounts => Decoder.run_accounts haccounts hs) ?_
  have hplaced := h.placed
  unfold Placed at hplaced ⊢
  dsimp only
  split at hplaced
  · exact absurd hplaced.1.1 hrun
  · exact absurd hplaced.1.1 hrun
  · exact absurd hplaced hrun
  · exact absurd hplaced.1.1 hrun
  · exact absurd hplaced.1 hrun
  · trivial

theorem Balanced.audio {d : Decoder A} {events : List (DecoderEvent Nat G)} (h : s.Balanced)
    (hs : s.audio.run = some (d, events)) :
    Balanced { s with
      audio := d, ledger := s.ledger ++ events.flatMap DecoderEvent.entries } := by
  have hrun : s.audio.pc ≠ .exited := fun hpc => by
    rw [Decoder.run_of_exited hpc] at hs
    cases hs
  refine h.goes rfl (entries_no_alloc events) rfl rfl (fun lost haccounts => ?_) ?_
  · unfold owned at haccounts ⊢
    rw [← List.append_assoc] at haccounts ⊢
    exact Decoder.run_accounts haccounts hs
  · have hplaced := h.placed
    unfold Placed at hplaced ⊢
    dsimp only
    split at hplaced
    · exact absurd hplaced.2.1 hrun
    · exact absurd hplaced.2.1 hrun
    · exact hplaced
    · exact absurd hplaced.2 hrun
    · exact hplaced
    · trivial

/-! ## The reader -/

/-- `_video.write(packet)` -/
theorem Balanced.toVideo {packet : Option Nat} {d : Decoder V} {pc : ReadPc} (h : s.Balanced)
    (hpc : s.pc.packet = packet.toList) (hs : s.video.write packet = some d)
    (hnext : pc = .top ∨ pc = .endAudio) : Balanced { s with video := d, pc := pc } := by
  refine h.keeps rfl rfl rfl (fun lost haccounts => ?_) ?_
  · have hnone : pc.packet = [] := by rcases hnext with rfl | rfl <;> rfl
    unfold owned at haccounts ⊢
    rw [hpc] at haccounts
    rw [hnone]
    exact Decoder.write_accounts [] _ haccounts hs
  · rcases hnext with rfl | rfl <;> trivial

theorem Balanced.toAudio {packet : Option Nat} {d : Decoder A} (h : s.Balanced)
    (hpc : s.pc.packet = packet.toList) (hs : s.audio.write packet = some d) :
    Balanced { s with audio := d, pc := .top } := by
  refine h.keeps rfl rfl rfl (fun lost haccounts => ?_) trivial
  unfold owned at haccounts ⊢
  rw [hpc] at haccounts
  exact Decoder.write_accounts _ lost haccounts hs

/-- `av_packet_free(&packet)` of the reader -/
theorem Balanced.free {packet : Nat} {pc : ReadPc} (h : s.Balanced)
    (hpc : s.pc.packet = [packet]) (hnext : pc = .top ∨ pc = .endVideo) :
    Balanced { s.free (some packet) with pc := pc } := by
  refine h.goes rfl (fun i => by simp) rfl rfl (fun lost haccounts => ?_) ?_
  · unfold owned at haccounts ⊢
    rw [hpc] at haccounts
    have hfree := Accounts.free packet haccounts
    rcases hnext with rfl | rfl <;> exact hfree
  · rcases hnext with rfl | rfl <;> trivial

theorem free_no_alloc (packet : Option Nat) (i : Nat) :
    .alloc i ∉ packet.toList.map Entry.free := by
  cases packet <;> simp

/-- The drain loop of `_video.close()` -/
theorem Balanced.drainVideo {packet : Option Nat} {d : Decoder V} (h : s.Balanced)
    (hpc : s.pc = .closingVideo .drain) (hs : s.video.drain = some (packet, d)) :
    Balanced ({ s with video := d }.free packet) := by
  have hexit : s.video.pc = .exited := by
    have hplaced := h.placed
    unfold Placed at hplaced
    rw [hpc] at hplaced
    exact hplaced
  refine h.goes rfl (free_no_alloc packet) rfl rfl
    (fun lost haccounts => Decoder.drain_accounts _ _ hexit haccounts hs) ?_
  unfold Placed ReadWorld.free
  dsimp only
  rw [hpc]
  exact (Decoder.drain_pc hs).trans hexit

theorem Balanced.drainAudio {packet : Option Nat} {d : Decoder A} (h : s.Balanced)
    (hpc : s.pc = .closingAudio .drain) (hs : s.audio.drain = some (packet, d)) :
    Balanced ({ s with audio := d }.free packet) := by
  obtain ⟨hclosed, hexit⟩ : s.video.Closed ∧ s.audio.pc = .exited := by
    have hplaced := h.placed
    unfold Placed at hplaced
    rw [hpc] at hplaced
    exact hplaced
  refine h.goes rfl (free_no_alloc packet) rfl rfl (fun lost haccounts => ?_) ?_
  · unfold owned at haccounts ⊢
    rw [← List.append_assoc] at haccounts ⊢
    exact Decoder.drain_accounts _ lost hexit haccounts hs
  · unfold Placed ReadWorld.free
    dsimp only
    rw [hpc]
    exact ⟨hclosed, (Decoder.drain_pc hs).trans hexit⟩

theorem Balanced.alloc (h : s.Balanced) (hpc : s.pc = .turn) :
    Balanced { s with
      pc := .reading s.allocated, allocated := s.allocated + 1
      ledger := s.ledger ++ [.alloc s.allocated] } := by
  obtain ⟨lost, haccounts, hlost⟩ := h.accounts
  refine ⟨⟨lost, ?_, hlost⟩, fun i => ?_, trivial⟩
  · have hnew : .alloc s.allocated ∉ s.ledger := fun hmem =>
      Nat.lt_irrefl _ ((h.allocated _).mp hmem)
    unfold owned at haccounts
    rw [hpc] at haccounts
    exact haccounts.alloc _ hnew
  · dsimp only
    rw [List.mem_append, h.allocated]
    simp
    omega

/-- A step of the reader between its calls with packets. -/
theorem Balanced.moves {pc : ReadPc} (h : s.Balanced) (hpc : s.pc.packet = [])
    (hnext : pc.packet = []) (hplaced : Placed { s with pc := pc }) : Balanced { s with pc := pc } := by
  refine h.stays rfl rfl rfl (fun lost => ?_) hplaced
  unfold owned
  rw [hpc]
  dsimp only
  rw [hnext]

/-- `_video.close()` -/
theorem Balanced.closeVideo {pc : ClosePc} (h : s.Balanced) (hpc : s.pc = .closingVideo pc)
    (hs : s.go = some t) : t.Balanced := by
  have hplaced := h.placed
  unfold Placed at hplaced
  unfold ReadWorld.go at hs
  cases pc with
  | stop =>
    rw [hpc] at hs
    cases hs
    exact h.stays rfl rfl rfl (fun lost => by unfold owned; rw [hpc]; rfl) trivial
  | wait =>
    rw [hpc] at hs
    dsimp only at hs
    split at hs
    · next hexit =>
      cases hs
      exact h.moves (hpc ▸ rfl) rfl hexit
    · cases hs
  | drain =>
    rw [hpc] at hs hplaced
    dsimp only at hs
    split at hs
    · next packet d hd =>
      cases hs
      have hdrain := h.drainVideo hpc hd
      rw [hpc] at hdrain
      exact hdrain
    · next hd =>
      cases hs
      exact h.moves (hpc ▸ rfl) rfl (Decoder.drain_none hplaced hd)

/-- `_audio.close()` -/
theorem Balanced.closeAudio {pc : ClosePc} (h : s.Balanced) (hpc : s.pc = .closingAudio pc)
    (hs : s.go = some t) : t.Balanced := by
  have hplaced := h.placed
  unfold Placed at hplaced
  unfold ReadWorld.go at hs
  cases pc with
  | stop =>
    rw [hpc] at hs hplaced
    cases hs
    exact h.stays rfl rfl rfl (fun lost => by unfold owned; rw [hpc]; rfl) hplaced
  | wait =>
    rw [hpc] at hs hplaced
    dsimp only at hs
    split at hs
    · next hexit =>
      cases hs
      exact h.moves (hpc ▸ rfl) rfl ⟨hplaced, hexit⟩
    · cases hs
  | drain =>
    rw [hpc] at hs hplaced
    dsimp only at hs
    split at hs
    · next packet d hd =>
      cases hs
      have hdrain := h.drainAudio hpc hd
      rw [hpc] at hdrain
      exact hdrain
    · next hd =>
      cases hs
      exact h.moves (hpc ▸ rfl) rfl ⟨hplaced.1, Decoder.drain_none hplaced.2 hd⟩

theorem Balanced.go (h : s.Balanced) (hs : s.go = some t) : t.Balanced := by
  have hgo := hs
  unfold ReadWorld.go at hs
  cases hpc : s.pc with
  | opening | reading | returned =>
    rw [hpc] at hs
    cases hs
  | top =>
    rw [hpc] at hs
    cases hs
    split <;> exact h.moves (hpc ▸ rfl) rfl trivial
  | turn =>
    rw [hpc] at hs
    dsimp only at hs
    split at hs
    · cases hs
      exact h.moves (hpc ▸ rfl) rfl trivial
    · cases hs
      exact h.alloc hpc
  | toVideo packet =>
    rw [hpc] at hs
    obtain ⟨d, hd, hs⟩ := Option.bind_eq_some_iff.mp hs
    cases hs
    exact h.toVideo (hpc ▸ rfl) hd (.inl rfl)
  | toAudio packet =>
    rw [hpc] at hs
    obtain ⟨d, hd, hs⟩ := Option.bind_eq_some_iff.mp hs
    cases hs
    exact h.toAudio (hpc ▸ rfl) hd
  | freeing packet =>
    rw [hpc] at hs
    cases hs
    exact h.free (hpc ▸ rfl) (.inl rfl)
  | endFreeing packet =>
    rw [hpc] at hs
    cases hs
    exact h.free (hpc ▸ rfl) (.inr rfl)
  | endVideo =>
    rw [hpc] at hs
    obtain ⟨d, hd, hs⟩ := Option.bind_eq_some_iff.mp hs
    cases hs
    exact h.toVideo (hpc ▸ rfl) hd (.inr rfl)
  | endAudio =>
    rw [hpc] at hs
    obtain ⟨d, hd, hs⟩ := Option.bind_eq_some_iff.mp hs
    cases hs
    exact h.toAudio (hpc ▸ rfl) hd
  | closingVideo pc => exact h.closeVideo hpc hgo
  | closingAudio pc => exact h.closeAudio hpc hgo

/-- `av_read_frame`, and where its packet goes. -/
theorem Balanced.read {packet : Nat} {result : PacketRead} (h : s.Balanced)
    (hpc : s.pc = .reading packet) :
    Balanced ({ s with ledger := s.ledger ++ [Entry.use packet] }.afterRead packet result) := by
  have huse (lost : List Nat) (haccounts : Accounts s.ledger (s.owned lost)) :
      Accounts (s.ledger ++ [.use packet])
        (packet :: (s.video.held ++ (s.audio.held ++ lost))) := by
    unfold owned at haccounts
    rw [hpc] at haccounts
    exact haccounts.use packet (List.mem_cons_self ..)
  have hnoalloc : ∀ i, Entry.alloc i ∉ [Entry.use packet] := fun i => by simp
  unfold afterRead
  split
  · split
    · exact h.goes rfl hnoalloc rfl rfl huse trivial
    · split
      · exact h.goes rfl hnoalloc rfl rfl huse trivial
      · exact h.goes rfl hnoalloc rfl rfl huse trivial
  · exact h.goes rfl hnoalloc rfl rfl huse trivial
  · -- `break`: nobody has the packet any more
    obtain ⟨lost, haccounts, -⟩ := h.accounts
    refine ⟨⟨packet :: lost, ?_, ?_⟩, fun i => ?_, trivial⟩
    · refine (huse lost haccounts).recount fun i => ?_
      unfold owned ReadPc.packet
      simp [List.count_cons]
      omega
    · exact iff_of_false (List.cons_ne_nil _ _) nofun
    · dsimp only
      rw [List.mem_append, h.allocated]
      exact or_iff_left (hnoalloc i)

theorem Balanced.step (h : s.Balanced) (hs : s.step a = some t) : t.Balanced := by
  have hplaced := h.placed
  unfold Placed at hplaced
  unfold ReadWorld.step at hs
  cases a with
  | openFails =>
    dsimp only at hs
    split at hs
    · next hpc =>
      cases hs
      exact h.moves (hpc ▸ rfl) rfl trivial
    · cases hs
  | openStreams video audioDecoder audioDevice =>
    dsimp only at hs
    split at hs
    · next hpc =>
      cases hs
      rw [hpc] at hplaced
      refine h.stays rfl rfl rfl (fun lost => ?_) trivial
      unfold owned
      rw [hpc, hplaced.1.held, hplaced.2.held]
      cases video <;> cases audioDecoder <;> rfl
    · cases hs
  | go => exact h.go hs
  | read result =>
    dsimp only at hs
    split at hs
    · next hpc =>
      cases hs
      exact h.read hpc
    · cases hs
  | sleep =>
    dsimp only at hs
    split at hs
    · next hpc =>
      cases hs
      exact h.moves (hpc ▸ rfl) rfl trivial
    · cases hs
  | rewind =>
    dsimp only at hs
    split at hs
    · next hpc =>
      split at hs
      · cases hs
        exact h.stays rfl rfl rfl (fun lost => by unfold owned; rw [hpc]; rfl) trivial
      · cases hs
    · cases hs
  | video =>
    obtain ⟨⟨d, events⟩, hd, hs⟩ := Option.bind_eq_some_iff.mp hs
    cases hs
    exact h.video hd
  | audio =>
    obtain ⟨⟨d, events⟩, hd, hs⟩ := Option.bind_eq_some_iff.mp hs
    cases hs
    exact h.audio hd
  | stop =>
    cases hs
    exact h.stays rfl rfl rfl (fun _ => rfl) h.placed

end ReadWorld

/-- Over any run nothing is used or freed after it was freed, and once `_readThread` has
returned every packet was freed once if and only if no `av_read_frame` returned an error
other than EOF. -/
theorem packets_freed_once {V : Codec Nat F} {A : Codec Nat G} {s : ReadWorld V A}
    (h : Reach ReadWorld.step {} s) :
    UsedAlive s.ledger ∧ (∀ i, .alloc i ∈ s.ledger ↔ i < s.allocated) ∧
      (s.pc = .returned →
        ((∀ i < s.allocated, s.ledger.count (.free i) = 1) ↔ s.failed = false)) := by
  have hbalanced : s.Balanced :=
    Reach.invariant h ReadWorld.balanced_start fun t a u ht hs => ht.step hs
  obtain ⟨⟨lost, haccounts, hlost⟩, hallocated, hplaced⟩ := hbalanced
  refine ⟨haccounts.usedAlive, hallocated, fun hpc => ?_⟩
  unfold ReadWorld.Placed at hplaced
  rw [hpc] at hplaced
  have howned : s.owned lost = lost := by
    unfold ReadWorld.owned
    rw [hpc, hplaced.1.held, hplaced.2.held]
    rfl
  rw [howned] at haccounts
  rw [← hlost]
  constructor
  · intro hfreed
    refine List.eq_nil_iff_forall_not_mem.mpr fun i hi => ?_
    have hcount := haccounts.count_alloc i
    have honce := haccounts.alloc_once i
    have hpos := List.count_pos_iff.mpr hi
    have hlt : i < s.allocated :=
      (hallocated i).mp (List.count_pos_iff.mp (by omega))
    have hfree := hfreed i hlt
    omega
  · rintro rfl i hi
    have hcount := haccounts.count_alloc i
    have honce := haccounts.alloc_once i
    have hpos := List.count_pos_iff.mpr ((hallocated i).mpr hi)
    rw [List.count_nil] at hcount
    omega

/-- A packet of each stream and the end of the file; the stop request finds the first packet
in the coroutine's hands and the second one in its queue. -/
theorem packets_freed_once_stopped :
    ∃ s : ReadWorld lateCodec lateCodec, s.pc = .returned ∧ s.allocated = 4 ∧
      ∀ i < 4, s.ledger.count (.free i) = 1 := by
  obtain ⟨s, hreach, hend⟩ := reach_of_any ReadWorld.step ({} : ReadWorld lateCodec lateCodec)
    [.openStreams true true true, .go, .go, .read (.packet .video), .go, .go, .go,
      .read (.packet .audio), .go, .go, .go, .read (.packet .other), .go, .go, .go, .read .eof,
      .go, .go, .go, .video, .video, .stop, .go, .go, .video, .video, .video, .video, .go, .go,
      .go, .go, .audio, .go, .go, .go, .go]
    (fun s => decide (s.pc = .returned ∧ s.allocated = 4 ∧ s.failed = false))
    (by decide +kernel)
  obtain ⟨hpc, hallocated, hfailed⟩ := of_decide_eq_true hend
  obtain ⟨-, -, hall⟩ := packets_freed_once hreach
  refine ⟨s, hpc, hallocated, fun i hi => (hall hpc).mpr hfailed i ?_⟩
  rw [hallocated]
  exact hi

/-- `Play::stop` during `av_read_frame`: the interrupt callback makes it return
`AVERROR_EXIT`, and its packet is never freed. -/
theorem failed_read_leaks_packet :
    ∃ s : ReadWorld lateCodec lateCodec, Reach ReadWorld.step {} s ∧ s.pc = .returned ∧
      s.allocated = 1 ∧ s.ledger.count (.free 0) = 0 := by
  obtain ⟨s, hreach, hend⟩ := reach_of_any ReadWorld.step ({} : ReadWorld lateCodec lateCodec)
    [.openStreams true false false, .go, .go, .stop, .read .error, .go, .video, .go, .go, .go,
      .go, .go]
    (fun s => decide (s.pc = .returned ∧ s.allocated = 1 ∧ s.ledger.count (.free 0) = 0))
    (by decide +kernel)
  exact ⟨s, hreach, of_decide_eq_true hend⟩

end VideoPlayerCore
