import Mathlib.Data.Set.BooleanAlgebra
import Mathlib.Data.Set.Disjoint
import Mathlib.Order.CompletePartialOrder
import VideoPlayerCore.RingInvariant

/-!
# What the ring buffer guarantees to one producer and one consumer

For every interleaving of the steps of `RingSteps`, from a fresh buffer of either
class: the consumer obtains a prefix of what was published, the two sides never
touch the same slot, the two queries count the unread and the free slots, and a
call without a grant changes nothing                          (ring_spsc_safe)
-/

namespace VideoPlayerCore

open Words AudioRingBuffer Machine

variable {W : Nat} {T : Type}

namespace RingState

/-- The elements published and not yet consumed. -/
def unread (s : RingState W T) : Nat := s.published.length - s.obtained.length

/-! ## What one step leaves alone -/

theorem step_cap {s t : RingState W T} {a : RingAct W T} (h : s.step a = some t) :
    t.ring.cap = s.ring.cap := by
  cases a <;>
    simp only [step, beginWrite, loadRead, fill, copyIn, endWrite, storeWrite, beginRead,
      loadWrite, use, copyOut, endRead, storeRead] at h <;>
    (repeat' split at h) <;> cases h <;> rfl

theorem step_ring_of_not_granted {s t : RingState W T} {a : RingAct W T} (h : s.step a = some t)
    (hg : ¬ s.granted a) : t.ring = s.ring := by
  cases a with
  | beginWrite call =>
    simp only [step, beginWrite] at h
    split at h <;> cases h
    rfl
  | loadRead =>
    simp only [step, loadRead] at h
    split at h
    · split at h <;> cases h <;> rfl
    · cases h
  | fill i v =>
    simp only [step, fill] at h
    split at h
    · next hp => exact absurd (.inl ⟨_, _, _, hp⟩) hg
    · cases h
  | copyIn =>
    simp only [step, copyIn] at h
    split at h
    · next hp => exact absurd (.inl ⟨_, _, _, hp⟩) hg
    · cases h
  | endWrite =>
    simp only [step, endWrite] at h
    split at h
    · split at h <;> cases h
      rfl
    · cases h
  | storeWrite =>
    simp only [step, storeWrite] at h
    split at h
    · next hp => exact absurd (.inr ⟨_, _, _, hp⟩) hg
    · cases h
  | beginRead call =>
    simp only [step, beginRead] at h
    split at h <;> cases h
    rfl
  | loadWrite =>
    simp only [step, loadWrite] at h
    split at h
    · split at h <;> cases h <;> rfl
    · cases h
  | use i =>
    simp only [step, use] at h
    split at h
    · split at h <;> cases h
      rfl
    · cases h
  | copyOut =>
    simp only [step, copyOut] at h
    split at h
    · split at h <;> cases h
      rfl
    · cases h
  | endRead =>
    simp only [step, endRead] at h
    split at h
    · split at h <;> cases h
      rfl
    · cases h
      rfl
    · cases h
  | storeRead =>
    simp only [step, storeRead] at h
    split at h
    · next hc => exact absurd (.inr ⟨_, _, _, _, hc⟩) hg
    · cases h

/-- The consumer's steps leave `write_pos_` and the published elements. -/
theorem step_by_consumer {s t : RingState W T} {a : RingAct W T} (h : s.step a = some t)
    (ha : ¬ a.byProducer) : t.ring.writePos = s.ring.writePos ∧ t.published = s.published := by
  cases a <;> simp only [RingAct.byProducer, not_true_eq_false, not_false_eq_true] at ha <;>
    simp only [step, beginRead, loadWrite, use, copyOut, endRead, storeRead] at h <;>
    (repeat' split at h) <;> cases h <;> exact ⟨rfl, rfl⟩

/-- The producer's steps leave `read_pos_`, the obtained elements and the consumer. -/
theorem step_by_producer {s t : RingState W T} {a : RingAct W T} (h : s.step a = some t)
    (ha : a.byProducer) : t.ring.readPos = s.ring.readPos ∧ t.obtained = s.obtained ∧
      t.consumer = s.consumer := by
  cases a <;> simp only [RingAct.byProducer] at ha <;>
    simp only [step, beginWrite, loadRead, fill, copyIn, endWrite, storeWrite] at h <;>
    (repeat' split at h) <;> cases h <;> exact ⟨rfl, rfl, rfl⟩

theorem reach_cap {ok : RingState W T → RingAct W T → Prop} {s t : RingState W T}
    (h : ReachIf step ok s t) : t.ring.cap = s.ring.cap :=
  h.invariant (I := fun t => t.ring.cap = s.ring.cap) rfl
    fun _ _ _ hi _ hs => (step_cap hs).trans hi

end RingState

/-! ## Consequences of the invariant -/

section
variable {s : RingState W T} (hi : RingInv s)
include hi

theorem RingInv.availableRead_eq : s.ring.availableRead.toNat = s.unread :=
  hi.counts.availableRead

theorem RingInv.availableWrite_eq : s.ring.availableWrite.toNat = s.ring.slots - 1 - s.unread :=
  hi.counts.availableWrite

theorem RingInv.seen_published {e : Nat × T} (he : e ∈ s.seen) :
    s.published[s.obtained.length + e.1]? = some e.2 := by
  have hc := hi.consumer
  unfold RingState.seen at he
  split at he
  · next hco =>
    rw [hco] at hc
    exact (hc.2.mem e he).2
  · next hco =>
    rw [hco] at hc
    exact (hc.2.2.1.mem e he).2
  · cases he

/-- A slot is readable iff it is the slot of an unread counter. -/
theorem RingInv.mem_readableSlots {x : Nat} : x ∈ s.readableSlots ↔
    ∃ k, s.obtained.length ≤ k ∧ k < s.published.length ∧ x = k % s.ring.slots := by
  have hle := hi.counts.le
  simp only [RingState.readableSlots, Set.mem_ofPred_eq, hi.counts.availableRead, hi.counts.read,
    Nat.mod_add_mod]
  constructor
  · rintro ⟨j, hj, rfl⟩
    exact ⟨s.obtained.length + j, by omega, by omega, rfl⟩
  · rintro ⟨k, h1, h2, rfl⟩
    exact ⟨k - s.obtained.length, by omega, by rw [Nat.add_sub_cancel' h1]⟩

theorem RingInv.disjoint_fill_readable : Disjoint s.fillSlots s.readableSlots := by
  have hslots : ∀ {frames : BitVec W} {slot : Nat},
      WriteGrant s.ring s.published.length s.obtained.length frames slot →
      Disjoint {x | slot ≤ x ∧ x < slot + frames.toNat} s.readableSlots := by
    intro frames slot hg
    rw [Set.disjoint_left]
    rintro x ⟨h1, h2⟩ hx
    obtain ⟨k, hok, hkp, rfl⟩ := hi.mem_readableSlots.mp hx
    obtain ⟨j, hj⟩ := Nat.exists_eq_add_of_le h1
    exact hg.slot_ne (i := j) hi.counts (by omega) hok hkp hj
  have hp := hi.producer
  unfold RingState.fillSlots
  split
  · next hpr =>
    rw [hpr] at hp
    exact hslots hp.1
  · next hpr =>
    rw [hpr] at hp
    exact hslots hp.2.1
  · exact Set.empty_disjoint _

theorem RingInv.held_subset_readable : s.heldSlots ⊆ s.readableSlots := by
  have hslots : ∀ {frames : BitVec W} {slot : Nat},
      ReadGrant s.ring s.published.length s.obtained.length frames slot →
      {x | slot ≤ x ∧ x < slot + frames.toNat} ⊆ s.readableSlots := by
    intro frames slot hg x hx
    obtain ⟨h1, h2⟩ := hx
    obtain ⟨j, rfl⟩ := Nat.exists_eq_add_of_le h1
    have hu := hg.unread
    exact hi.mem_readableSlots.mpr
      ⟨s.obtained.length + j, by omega, by omega, hg.slot_eq_mod hi.counts (by omega)⟩
  have hc := hi.consumer
  unfold RingState.heldSlots
  split
  · next hco =>
    rw [hco] at hc
    exact hslots hc.1
  · next hco =>
    rw [hco] at hc
    exact hslots hc.2.1
  · exact Set.empty_subset _

/-- A query by the producer, its two loads `consumer steps` apart. -/
theorem RingInv.query_by_producer {t : RingState W T}
    (h : ReachIf RingState.step (fun _ a => ¬ a.byProducer) s t) :
    ((t.ring.writePos - s.ring.readPos) &&& s.ring.cap.mask).toNat = s.unread ∧
    ((t.ring.readPos - s.ring.writePos - 1) &&& s.ring.cap.mask).toNat =
      s.ring.slots - 1 - t.unread := by
  have hw : t.ring.writePos = s.ring.writePos ∧ t.published = s.published :=
    h.invariant (I := fun t => t.ring.writePos = s.ring.writePos ∧ t.published = s.published)
      ⟨rfl, rfl⟩ fun u a v hu ha hs =>
        have hv := RingState.step_by_consumer hs ha
        ⟨hv.1.trans hu.1, hv.2.trans hu.2⟩
  have ht : RingInv t := h.invariant hi fun _ _ _ hu _ hs => hu.step hs
  have hcap := RingState.reach_cap h
  refine ⟨?_, ?_⟩
  · rw [hw.1]
    exact hi.availableRead_eq
  · have hq := ht.availableWrite_eq
    simp only [availableWrite, slots, hcap, hw.1] at hq
    exact hq

/-- A query by the consumer, its two loads `producer steps` apart. -/
theorem RingInv.query_by_consumer {t : RingState W T}
    (h : ReachIf RingState.step (fun _ a => a.byProducer) s t) :
    ((t.ring.writePos - s.ring.readPos) &&& s.ring.cap.mask).toNat = t.unread ∧
    ((t.ring.readPos - s.ring.writePos - 1) &&& s.ring.cap.mask).toNat =
      s.ring.slots - 1 - s.unread := by
  have hr : t.ring.readPos = s.ring.readPos ∧ t.obtained = s.obtained :=
    h.invariant (I := fun t => t.ring.readPos = s.ring.readPos ∧ t.obtained = s.obtained)
      ⟨rfl, rfl⟩ fun u a v hu ha hs =>
        have hv := RingState.step_by_producer hs ha
        ⟨hv.1.trans hu.1, hv.2.1.trans hu.2⟩
  have ht : RingInv t := h.invariant hi fun _ _ _ hu _ hs => hu.step hs
  have hcap := RingState.reach_cap h
  refine ⟨?_, ?_⟩
  · have hq := ht.availableRead_eq
    simp only [availableRead, hcap, hr.1] at hq
    exact hq
  · rw [hr.1]
    exact hi.availableWrite_eq

end

/-! ## Main theorem -/

/-- **The ring buffer is a lossless queue.**  In every state of every run: what
was obtained is a prefix of what was published, and so is everything seen through
a pointer; the producer's slots are not readable, the consumer's are; a query
returns the unread or the free count, also when its two loads are apart; a step
of a call that has not been granted (all the steps of a failing call) leaves
positions and elements as they are. -/
theorem ring_spsc_safe {b : AudioRingBuffer W T} {s : RingState W T} (hb : FreshRing b)
    (h : Reach RingState.step (.start b) s) :
    s.obtained <+: s.published ∧
    (∀ e ∈ s.seen, s.published[s.obtained.length + e.1]? = some e.2) ∧
    Disjoint s.fillSlots s.readableSlots ∧
    s.heldSlots ⊆ s.readableSlots ∧
    s.ring.availableRead.toNat + s.obtained.length = s.published.length ∧
    s.ring.availableRead.toNat + s.ring.availableWrite.toNat = b.slots - 1 ∧
    (∀ t, ReachIf RingState.step (fun _ a => ¬ a.byProducer) s t →
      ((t.ring.writePos - s.ring.readPos) &&& b.cap.mask).toNat = s.unread ∧
      ((t.ring.readPos - s.ring.writePos - 1) &&& b.cap.mask).toNat = b.slots - 1 - t.unread) ∧
    (∀ t, ReachIf RingState.step (fun _ a => a.byProducer) s t →
      ((t.ring.writePos - s.ring.readPos) &&& b.cap.mask).toNat = t.unread ∧
      ((t.ring.readPos - s.ring.writePos - 1) &&& b.cap.mask).toNat = b.slots - 1 - s.unread) ∧
    (∀ a t, s.step a = some t → ¬ s.granted a → t.ring = s.ring) := by
  have hi := ringInv_of_reach hb h
  have hcap : s.ring.cap = b.cap := RingState.reach_cap h
  have hslots : s.ring.slots = b.slots := by simp only [slots, hcap]
  have hle := hi.counts.le
  have hlt := hi.counts.lt
  have hread := hi.availableRead_eq
  have hwrite := hi.availableWrite_eq
  refine ⟨hi.obtained, fun e he => hi.seen_published he, hi.disjoint_fill_readable,
    hi.held_subset_readable, ?_, ?_, ?_, ?_, fun a t hs hg => RingState.step_ring_of_not_granted hs hg⟩
  · rw [hread, RingState.unread, Nat.sub_add_cancel hle]
  · rw [hread, hwrite, ← hslots, RingState.unread]
    omega
  · intro t ht
    rw [← hcap, ← hslots]
    exact hi.query_by_producer ht
  · intro t ht
    rw [← hcap, ← hslots]
    exact hi.query_by_consumer ht

/-- A buffer of 2 slots: one element is written and read, and a second write wraps around. -/
theorem ring_spsc_safe_wrap :
    ∃ s : RingState 8 Nat,
      (s.published = [7, 9] ∧ s.ring.writePos = 0) ∧ s.obtained <+: s.published := by
  let b := StaticAudioRingBuffer (W := 8) (T := Nat) ⟨2, by decide, by decide⟩ fun _ => 0
  obtain ⟨s, hs, hp⟩ := reach_of_any RingState.step (.start b)
    [.beginWrite (.write (fun _ => 7) 1), .loadRead, .copyIn, .endWrite, .storeWrite,
      .beginRead (.read 1), .loadWrite, .copyOut, .endRead, .storeRead,
      .beginWrite (.zeroCopy 1), .loadRead, .fill 0 9, .endWrite, .storeWrite]
    (fun s => decide (s.published = [7, 9] ∧ s.ring.writePos = 0)) (by decide)
  exact ⟨s, of_decide_eq_true hp, (ring_spsc_safe (.inl ⟨_, _, rfl⟩) hs).1⟩

end VideoPlayerCore
