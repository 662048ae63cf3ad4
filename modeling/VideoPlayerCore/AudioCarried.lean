import VideoPlayerCore.AudioPath

/-!
# From the frames to the device

What the callback gets is what was published, each block with its time and its samples, in order
and once; it is at most seven blocks behind, and behind no block when `_onEof()` is called
                                                                          (blocks_reach_device)

Where no EOF marker comes, that is the samples of the frames taken, but for those of fewer than
eight blocks                                                            (samples_reach_device)

The callback must not decide from positions that `reset()` is storing (`PathRun.Whole`).
-/

namespace VideoPlayerCore

open AudioRingBuffer BlockWriter Machine SlotQueues Windows

variable {W : Nat} {A : AudioSetup W}

namespace AudioThread

variable {s t : AudioThread W} {k : Nat} {consumed unplayed : List (List UInt8)}

/-- A block is open: it has a header, and will be published. -/
def Open (s : AudioThread W) : Prop := s.pc.begun = true ∨ s.blocks.writtenSamples ≠ 0

theorem not_open (hbegun : s.pc.begun = false) (hwritten : s.blocks.writtenSamples = 0) :
    ¬ s.Open := by
  rintro (hbegun' | hne)
  · rw [hbegun] at hbegun'
    cases hbegun'
  · exact hne hwritten

/-- Every block that is published has its header, and so has the open one. -/
structure Headed (A : AudioSetup W) (s : AudioThread W) : Prop where
  opened : s.Open → ∃ earlier header, s.headers = earlier ++ [header] ∧
    earlier.length = s.blocks.allPayloads.length ∧
    read s.blocks.ring.buf s.blocks.ring.writePos.toNat 8 = A.doubleBytes header.value
  closed : ¬ s.Open → s.headers.length = s.blocks.allPayloads.length

/-- The callback has consumed some of the blocks, and the others are in the ring. -/
structure Carried (A : AudioSetup W) (s : AudioThread W) (k : Nat)
    (consumed unplayed : List (List UInt8)) : Prop where
  published : s.published A = consumed ++ unplayed
  queued : s.pc.midReset = false → Queued A s.blocks k unplayed
  room : s.Open → unplayed.length < 7
  headed : Headed A s
  empty : s.pc.resetting = true → unplayed = []
  mixing : ∀ slot, s.callback = .mixing slot → slot = A.slot k ∧ unplayed ≠ []
  ending : ∀ r, s.callback = .ending r → r = s.blocks.ring.readPos ∧ unplayed ≠ []

theorem zipWith_concat {α β γ : Type} (f : α → β → γ) {xs : List α} {ys : List β}
    (h : xs.length = ys.length) (x : α) (y : β) :
    List.zipWith f (xs ++ [x]) (ys ++ [y]) = List.zipWith f xs ys ++ [f x y] ∧
      List.zipWith f (xs ++ [x]) ys = List.zipWith f xs ys := by
  constructor
  · rw [List.zipWith_append h]
    rfl
  · have happend : List.zipWith f (xs ++ [x]) (ys ++ []) =
        List.zipWith f xs ys ++ List.zipWith f [x] [] := List.zipWith_append h
    rw [List.append_nil] at happend
    rw [happend, List.zipWith_nil_right, List.append_nil]

/-- `end_write` of the open block. -/
theorem Carried.endWrite (h : Carried A s k consumed unplayed) (hopen : s.Open)
    {b : BlockWriter W} (hqueued : Queued A b k unplayed)
    (hall : b.allPayloads = s.blocks.allPayloads)
    (hheader : read b.ring.buf b.ring.writePos.toNat 8 =
      read s.blocks.ring.buf s.blocks.ring.writePos.toNat 8) :
    ∃ x, Queued A (b.endWrite A) k (unplayed ++ [x]) ∧
      List.zipWith A.blockBytes s.headers (b.endWrite A).allPayloads =
        consumed ++ (unplayed ++ [x]) ∧
      s.headers.length = (b.endWrite A).allPayloads.length := by
  obtain ⟨earlier, header, hheaders, hlen, hbytes⟩ := h.headed.opened hopen
  have hpublished := h.published
  unfold AudioThread.published at hpublished
  refine ⟨_, hqueued.endWrite (h.room hopen) (hheader.trans hbytes), ?_, ?_⟩
  · rw [allPayloads_endWrite, hall, ← List.append_assoc, ← hpublished, hheaders,
      (zipWith_concat A.blockBytes hlen header _).1, (zipWith_concat A.blockBytes hlen header []).2]
  · rw [allPayloads_endWrite, hall, hheaders, List.length_append, List.length_append, hlen]
    rfl

/-- Neither the ring nor the headers change. -/
theorem Carried.congr (h : Carried A s k consumed unplayed)
    (hring : t.blocks.ring = s.blocks.ring)
    (hall : t.blocks.allPayloads = s.blocks.allPayloads) (hheaders : t.headers = s.headers)
    (hcallback : t.callback = s.callback) (hopen : t.Open ↔ s.Open)
    (hmid : t.pc.midReset = false → s.pc.midReset = false)
    (hempty : t.pc.resetting = true → unplayed = []) : Carried A t k consumed unplayed := by
  obtain ⟨hpublished, hqueued, hroom, ⟨hopened, hclosed⟩, -, hmixing, hending⟩ := h
  refine ⟨?_, fun h => (hqueued (hmid h)).congr hring, fun h => hroom (hopen.mp h),
    ⟨fun h => ?_, fun h => ?_⟩, hempty, ?_, ?_⟩
  · unfold AudioThread.published at hpublished ⊢
    rw [hall, hheaders]
    exact hpublished
  · rw [hring, hall, hheaders]
    exact hopened (hopen.mp h)
  · rw [hall, hheaders]
    exact hclosed (mt hopen.mpr h)
  · rw [hcallback]
    exact hmixing
  · rw [hcallback, hring]
    exact hending

/-- Behind `end_write` no block is open. -/
theorem Carried.shut {more : List (List UInt8)} (h : Carried A s k consumed unplayed)
    (hqueued : Queued A t.blocks k (unplayed ++ more))
    (hpublished : t.published A = consumed ++ (unplayed ++ more)) (hopen : ¬ t.Open)
    (hlen : t.headers.length = t.blocks.allPayloads.length) (hcallback : t.callback = s.callback)
    (hread : t.blocks.ring.readPos = s.blocks.ring.readPos)
    (hresetting : t.pc.resetting = false) : Carried A t k consumed (unplayed ++ more) := by
  refine ⟨hpublished, fun _ => hqueued, fun h => absurd h hopen,
    ⟨fun h => absurd h hopen, fun _ => hlen⟩, fun h => ?_, fun slot hslot => ?_, fun r hr => ?_⟩
  · rw [hresetting] at h
    cases h
  · obtain ⟨hfirst, hne⟩ := h.mixing slot (hcallback.symm.trans hslot)
    exact ⟨hfirst, List.append_ne_nil_of_left_ne_nil hne _⟩
  · obtain ⟨hpos, hne⟩ := h.ending r (hcallback.symm.trans hr)
    exact ⟨hpos.trans hread.symm, List.append_ne_nil_of_left_ne_nil hne _⟩

/-- In `reset()` the callback has nothing. -/
theorem Carried.reset {k' : Nat} (h : Carried A s k consumed unplayed) (hempty : unplayed = [])
    (hopen : ¬ s.Open) (hbegun : t.pc.begun = false) (hwritten : t.blocks.writtenSamples = 0)
    (hqueued : t.pc.midReset = false → Queued A t.blocks k' [])
    (hall : t.blocks.allPayloads = s.blocks.allPayloads) (hheaders : t.headers = s.headers)
    (hcallback : t.callback = s.callback) : Carried A t k' consumed unplayed := by
  subst hempty
  have hopen' := not_open hbegun hwritten
  refine ⟨?_, hqueued, fun h => absurd h hopen', ⟨fun h => absurd h hopen', fun _ => ?_⟩,
    fun _ => rfl, fun slot hslot => ?_, fun r hr => ?_⟩
  · have hpublished := h.published
    unfold AudioThread.published at hpublished ⊢
    rw [hall, hheaders]
    exact hpublished
  · rw [hall, hheaders]
    exact h.headed.closed hopen
  · exact absurd rfl (h.mixing slot (hcallback.symm.trans hslot)).2
  · exact absurd rfl (h.ending r (hcallback.symm.trans hr)).2

/-- At an EOF marker the open block is published as it is. -/
theorem Carried.flush (h : Carried A s k consumed unplayed) (hpc : s.pc = .flushing) :
    ∃ more, Carried A { s with pc := .polling, blocks := s.blocks.flush A } k consumed
      (unplayed ++ more) := by
  have hqueued := h.queued (by rw [hpc]; rfl)
  by_cases hwritten : s.blocks.writtenSamples = 0
  · have hopen : ¬ s.Open := not_open (by rw [hpc]; rfl) hwritten
    have hring : (s.blocks.flush A).ring = s.blocks.ring := by
      unfold BlockWriter.flush
      dsimp only
      rw [if_pos hwritten]
    have hall : (s.blocks.flush A).allPayloads = s.blocks.allPayloads := by
      rw [allPayloads_flush, if_pos hwritten]
    have hnone : (s.blocks.flush A).writtenSamples = 0 := by
      unfold BlockWriter.flush
      dsimp only
      rw [if_pos hwritten]
      exact hwritten
    refine ⟨[], ?_⟩
    rw [List.append_nil]
    exact h.congr hring hall rfl rfl (iff_of_false (not_open rfl hnone) hopen)
      (fun _ => by rw [hpc]; rfl) nofun
  · have hopen : s.Open := .inr hwritten
    obtain ⟨x, hqueued', hpublished, hlen⟩ := h.endWrite hopen hqueued rfl rfl
    have hall : (s.blocks.flush A).allPayloads = (s.blocks.endWrite A).allPayloads := by
      rw [allPayloads_flush, if_neg hwritten]
    have hring : (s.blocks.flush A).ring = (s.blocks.endWrite A).ring := by
      unfold BlockWriter.flush
      dsimp only
      rw [if_neg hwritten]
    have hnone : (s.blocks.flush A).writtenSamples = 0 := by
      unfold BlockWriter.flush
      dsimp only
      rw [if_neg hwritten]
      rfl
    refine ⟨[x], h.shut (hqueued'.congr hring) ?_ (not_open rfl hnone) ?_ rfl ?_ rfl⟩
    · unfold AudioThread.published
      rw [hall]
      exact hpublished
    · rw [hall]
      exact hlen
    · rw [hring]
      rfl

/-- A block is begun. -/
theorem Carried.beginWrite (h : Carried A s k consumed unplayed) {d : Dequeued} {rest : Rest}
    {b : BlockWriter W} {header : BlockHeader} (hpc : s.pc = .cutting d rest)
    (hwritten : s.blocks.writtenSamples = 0)
    (hbegin : s.blocks.beginWrite A header.value = some b) :
    Carried A { s with
      pc := .starting d rest, blocks := b, headers := s.headers ++ [header] }
      k consumed unplayed := by
  have hqueued := h.queued (by rw [hpc]; rfl)
  have hopen : ¬ s.Open := not_open (by rw [hpc]; rfl) hwritten
  have hroom := hqueued.beginWrite hbegin
  have hlen := h.headed.closed hopen
  have height := A.doubleBytes_length header.value
  have hbytes := A.frameBytes_le
  have hpublished := h.published
  obtain rfl := BlockWriter.beginWrite_eq hbegin
  unfold AudioThread.published at hpublished
  refine ⟨?_, fun _ => ?_, fun _ => hroom, ⟨fun _ => ⟨s.headers, header, rfl, hlen, ?_⟩,
    fun hclosed => absurd (.inl rfl) hclosed⟩, nofun, h.mixing, h.ending⟩
  · unfold AudioThread.published
    rw [← hpublished]
    exact (zipWith_concat A.blockBytes hlen header []).2
  · exact (hqueued.write (Nat.le_refl _) (by omega)).congr rfl
  · rw [← height]
    exact read_write

/-- A pass of the block loop. -/
theorem Carried.fill (h : Carried A s k consumed unplayed) {d : Dequeued} {rest : Rest}
    (hpc : s.pc = .filling d rest) (hstage : Stage A s.blocks (.filling d rest)) :
    ∃ more, Carried A (s.fill A d rest) k consumed (unplayed ++ more) := by
  obtain ⟨⟨hinv, hfits⟩, hbuf, havail⟩ := hstage
  have hopen : s.Open := .inl (by rw [hpc]; rfl)
  obtain ⟨hqueued, hheader⟩ :=
    (h.queued (by rw [hpc]; rfl)).copy hinv.written_lt hfits hbuf
  have hblocks : (s.fill A d rest).blocks = s.blocks.fill A rest := rfl
  by_cases hfull : (s.blocks.copy A rest).writtenSamples = A.samples
  · have hfill : s.blocks.fill A rest = (s.blocks.copy A rest).endWrite A := if_pos hfull
    obtain ⟨x, hqueued', hpublished, hlen⟩ := h.endWrite hopen hqueued rfl hheader
    refine ⟨[x], h.shut ?_ ?_ ?_ ?_ rfl ?_ rfl⟩
    · rw [hblocks, hfill]
      exact hqueued'
    · unfold AudioThread.published
      rw [hblocks, hfill]
      exact hpublished
    · exact not_open rfl (by rw [hblocks, hfill]; rfl)
    · rw [hblocks, hfill]
      exact hlen
    · rw [hblocks, hfill]
      rfl
  · have hfill : s.blocks.fill A rest = s.blocks.copy A rest := if_neg hfull
    have hpos := fillOf_pos hinv.written_lt havail
    have hopen' : (s.fill A d rest).Open := by
      refine .inr ?_
      rw [hblocks, hfill]
      show s.blocks.writtenSamples + s.blocks.fillOf A rest ≠ 0
      omega
    obtain ⟨earlier, header, hheaders, hlen, hbytes⟩ := h.headed.opened hopen
    refine ⟨[], ?_⟩
    rw [List.append_nil]
    refine ⟨?_, fun _ => ?_, fun _ => h.room hopen, ⟨fun _ => ?_, fun hclosed =>
      absurd hopen' hclosed⟩, nofun, h.mixing, fun r hr => ?_⟩
    · unfold AudioThread.published
      rw [hblocks, hfill]
      exact h.published
    · rw [hblocks, hfill]
      exact hqueued
    · rw [hblocks, hfill]
      exact ⟨earlier, header, hheaders, hlen, hheader.trans hbytes⟩
    · rw [hblocks, hfill]
      exact h.ending r hr

/-- What the others do: they publish, or they leave the blocks as they are. -/
theorem Carried.moves (hstage : Stage A s.blocks s.pc) (h : Carried A s k consumed unplayed)
    (hs : s.Moves A t) (hcallback : t.callback = s.callback)
    (hdrained : t.pc.resetting = true → s.pc.resetting = true ∨ s.blocks.ring.availableRead = 0) :
    ∃ k' more, Carried A t k' consumed (unplayed ++ more) := by
  have hkeep {t : AudioThread W} {k' : Nat} (h : Carried A t k' consumed unplayed) :
      ∃ k' more, Carried A t k' consumed (unplayed ++ more) :=
    ⟨k', [], by rw [List.append_nil]; exact h⟩
  have hsame {t : AudioThread W} (hcallback : t.callback = s.callback)
      (hblocks : t.blocks = s.blocks) (hheaders : t.headers = s.headers)
      (hpc : t.pc.begun = s.pc.begun ∧ s.pc.midReset = false ∧ t.pc.resetting = false) :
      ∃ k' more, Carried A t k' consumed (unplayed ++ more) := by
    obtain ⟨hbegun, hmid, hresetting⟩ := hpc
    refine hkeep (h.congr (by rw [hblocks]) (by rw [hblocks]) hheaders hcallback ?_
      (fun _ => hmid) fun hreset => ?_)
    · unfold Open
      rw [hblocks, hbegun]
    · rw [hresetting] at hreset
      cases hreset
  cases hs with
  | aside sync volume queue isAlive closing callback =>
    obtain rfl : callback = s.callback := hcallback
    exact hkeep (h.congr rfl rfl rfl rfl Iff.rfl id h.empty)
  | consume r hending =>
    rw [hending] at hcallback
    cases hcallback
  | drain queue => exact hkeep (h.congr rfl rfl rfl rfl Iff.rfl id h.empty)
  | poll | sleep => exact hkeep h
  | begin hpc | leave hpc | idle hpc | marker _ hpc | take _ _ hpc | skip _ _ _ hpc
  | done _ _ hpc | wait _ _ _ hpc | play _ _ _ hpc | endLoop _ hpc | exit hpc =>
    exact hsame rfl rfl rfl (by rw [hpc]; exact ⟨rfl, rfl, rfl⟩)
  | flush hpc =>
    obtain ⟨more, hcarried⟩ := h.flush hpc
    exact ⟨k, more, hcarried⟩
  | drained hpc =>
    have hqueued := h.queued (by rw [hpc]; rfl)
    have hzero : s.blocks.ring.availableRead = 0 := by
      rcases hdrained rfl with hreset | hzero
      · rw [hpc] at hreset
        cases hreset
      · exact hzero
    refine hkeep (h.congr rfl rfl rfl rfl ?_ (fun _ => by rw [hpc]; rfl)
      fun _ => hqueued.availableRead hzero)
    unfold Open
    rw [hpc]
    exact Iff.rfl
  | resetWrite hpc =>
    rw [hpc] at hstage
    refine ⟨k, [], ?_⟩
    rw [List.append_nil]
    refine h.reset (h.empty (by rw [hpc]; rfl)) (not_open (by rw [hpc]; rfl) hstage.written)
      rfl hstage.written (fun hmid => ?_) rfl rfl rfl
    cases hmid
  | resetRead hpc =>
    rw [hpc] at hstage
    obtain ⟨hemptied, hpos⟩ := hstage
    refine ⟨0, [], ?_⟩
    rw [List.append_nil]
    exact h.reset (h.empty (by rw [hpc]; rfl)) (not_open (by rw [hpc]; rfl) hemptied.written)
      rfl hemptied.written (fun _ => .reset hemptied.cap hpos) rfl rfl rfl
  | clear sync hpc =>
    rw [hpc] at hstage
    obtain ⟨hemptied, -⟩ := hstage
    have hqueued := h.queued (by rw [hpc]; rfl)
    have hempty := h.empty (by rw [hpc]; rfl)
    rw [hempty] at hqueued
    obtain ⟨hcap, ⟨hwrite, hread, hle, hlt⟩, -⟩ := hqueued
    refine ⟨k, [], ?_⟩
    rw [List.append_nil]
    exact h.reset hempty (not_open (by rw [hpc]; rfl) hemptied.written) rfl hemptied.written
      (fun _ => ⟨hcap, ⟨hwrite, hread, hle, hlt⟩, holds_nil⟩) rfl rfl rfl
  | prepare d e r o hpc hprepare =>
    refine hkeep (h.congr rfl rfl rfl rfl ?_ (fun _ => by rw [hpc]; rfl) nofun)
    unfold Open
    rw [hpc]
    exact Iff.rfl
  | beginWrite d rest b hpc havail hwritten hbegin =>
    exact hkeep (h.beginWrite hpc hwritten hbegin)
  | resume d rest hpc havail hwritten =>
    refine hkeep (h.congr rfl rfl rfl rfl ?_ (fun _ => by rw [hpc]; rfl) nofun)
    exact iff_of_true (.inr hwritten) (.inr hwritten)
  | fill d rest hpc =>
    rw [hpc] at hstage
    obtain ⟨more, hcarried⟩ := h.fill hpc hstage
    exact ⟨k, more, hcarried⟩

/-- Where a block is in the ring, `reset()` is not begun. -/
theorem Carried.queued_of_ne (h : Carried A s k consumed unplayed) (hne : unplayed ≠ []) :
    Queued A s.blocks k unplayed := by
  refine h.queued ?_
  cases hpc : s.pc with
  | resetRead => exact absurd (h.empty (by rw [hpc]; rfl)) hne
  | _ => rfl

/-- Only the place of the callback changes, and the clocks. -/
theorem Carried.recall (h : Carried A s k consumed unplayed) (sync : ClockSync)
    {callback : CallbackPc W}
    (hmixing : ∀ slot, callback = .mixing slot → slot = A.slot k ∧ unplayed ≠ [])
    (hending : ∀ r, callback = .ending r → r = s.blocks.ring.readPos ∧ unplayed ≠ []) :
    Carried A { s with callback := callback, sync := sync } k consumed unplayed :=
  ⟨h.published, h.queued, h.room, ⟨h.headed.opened, h.headed.closed⟩, h.empty, hmixing, hending⟩

/-- `end_read` of the first block. -/
theorem Carried.consume {x : List UInt8} (h : Carried A s k consumed (x :: unplayed)) :
    Carried A { s.setRing (s.blocks.ring.setRead
        (s.blocks.ring.endRead s.blocks.ring.readPos A.frameAlignBytes)) with callback := .idle }
      (k + 1) (consumed ++ [x]) unplayed := by
  have hqueued := h.queued_of_ne (List.cons_ne_nil x unplayed)
  refine ⟨?_, fun _ => hqueued.consume, fun hopen => ?_, ⟨h.headed.opened, h.headed.closed⟩,
    fun hreset => ?_, nofun, nofun⟩
  · rw [List.append_assoc]
    exact h.published
  · have hroom := h.room hopen
    rw [List.length_cons] at hroom
    omega
  · exact absurd (h.empty hreset) (List.cons_ne_nil x unplayed)

end AudioThread

/-- The block that the callback has mixed and not consumed. -/
def CallbackPc.taken : CallbackPc W → List (List UInt8) → List (List UInt8)
  | .ending _, unplayed => unplayed.take 1
  | _, _ => []

namespace AudioThread

variable {s t : AudioThread W} {k : Nat} {consumed unplayed : List (List UInt8)}

theorem Carried.callback (h : Carried A s k consumed unplayed) (now : ℚ)
    (hwhole : ∀ r, s.callback = .loaded r →
      r = s.blocks.ring.readPos ∧ s.pc.midReset = false) :
    ∃ k' consumed' unplayed', Carried A (s.audioCallback A now) k' consumed' unplayed' ∧
      consumed ++ s.callback.taken unplayed ++ (s.mixedBlock A (.callback now)).toList =
        consumed' ++ (s.audioCallback A now).callback.taken unplayed' := by
  unfold audioCallback mixedBlock
  cases hcallback : s.callback with
  | idle =>
    exact ⟨k, consumed, unplayed, h.recall s.sync nofun nofun, List.append_nil _⟩
  | loaded r =>
    obtain ⟨rfl, hmid⟩ := hwhole r hcallback
    dsimp only
    cases hread : s.blocks.ring.beginRead s.blocks.ring.readPos s.blocks.ring.writePos
        A.frameAlignBytes with
    | none => exact ⟨k, consumed, unplayed, h.recall s.sync nofun nofun, List.append_nil _⟩
    | some slot =>
      refine ⟨k, consumed, unplayed, h.recall s.sync ?_ nofun, List.append_nil _⟩
      rintro slot' ⟨⟩
      exact (h.queued hmid).beginRead hread
  | mixing slot =>
    obtain ⟨rfl, hne⟩ := h.mixing slot hcallback
    refine ⟨k, consumed, unplayed, h.recall _ nofun ?_, ?_⟩
    · rintro r ⟨⟩
      exact ⟨rfl, hne⟩
    · cases unplayed with
      | nil => exact absurd rfl hne
      | cons x rest =>
        have hblock := (h.queued_of_ne hne).blocks.head
        dsimp only
        rw [hblock]
        simp [CallbackPc.taken]
  | ending r =>
    obtain ⟨rfl, hne⟩ := h.ending r hcallback
    cases unplayed with
    | nil => exact absurd rfl hne
    | cons x rest =>
      exact ⟨k + 1, consumed ++ [x], rest, h.consume, by simp [CallbackPc.taken]⟩

theorem cut_callback (d : Dequeued) (rest : Rest) :
    (s.cut A d rest).callback = s.callback ∧
      ((s.cut A d rest).pc = s.pc ∨ (s.cut A d rest).pc.resetting = false) := by
  unfold cut
  split
  · exact ⟨rfl, .inr rfl⟩
  · split
    · dsimp only
      split
      · exact ⟨rfl, .inl rfl⟩
      · exact ⟨rfl, .inr rfl⟩
    · exact ⟨rfl, .inr rfl⟩

/-- `reset()` begins behind `available_read() == 0`. -/
theorem display_aside {now : ℚ} {e : SwrAnswers} (hs : s.display A now e = some t) :
    t.callback = s.callback ∧
      (t.pc.resetting = true → s.pc.resetting = true ∨ s.blocks.ring.availableRead = 0) := by
  cases hpc : s.pc <;> simp only [display, hpc] at hs
  case exited => cases hs
  all_goals obtain rfl := Option.some.inj hs
  case polling =>
    refine ⟨rfl, fun hreset => .inr ?_⟩
    dsimp only at hreset
    split at hreset
    · next hzero => exact hzero
    · cases hreset
  case reading =>
    unfold takeFrame
    split <;> exact ⟨rfl, fun hreset => by cases hreset⟩
  case converting d =>
    unfold prepare
    dsimp only
    split <;> exact ⟨rfl, fun hreset => by cases hreset⟩
  case cutting d rest =>
    obtain ⟨hcallback, hsame⟩ := cut_callback (A := A) (s := s) d rest
    refine ⟨hcallback, fun hreset => ?_⟩
    rcases hsame with hsame | hnone
    · rw [hsame, hpc] at hreset
      cases hreset
    · rw [hnone] at hreset
      cases hreset
  case top | starting =>
    refine ⟨rfl, fun hreset => ?_⟩
    dsimp only [delay] at hreset
    split at hreset <;> cases hreset
  case resetWrite | resetRead | clearing => exact ⟨rfl, fun _ => .inl rfl⟩
  all_goals exact ⟨rfl, fun hreset => by cases hreset⟩

/-- Only the callback's own steps move it. -/
theorem step_aside {a : AudioThreadAct} (hs : s.step A a = some t)
    (hother : ∀ now, a ≠ .callback now) :
    t.callback = s.callback ∧
      (t.pc.resetting = true → s.pc.resetting = true ∨ s.blocks.ring.availableRead = 0) := by
  by_cases hdisplay : ∃ now e, a = .display now e
  · obtain ⟨now, e, rfl⟩ := hdisplay
    exact display_aside hs
  · have hbeside : ∀ now e, a ≠ .display now e := fun now e ha => hdisplay ⟨now, e, ha⟩
    refine ⟨?_, fun hreset => .inl ?_⟩
    · cases a with
      | display now e => exact absurd rfl (hbeside now e)
      | callback now => exact absurd rfl (hother now)
      | close =>
        simp only [step, close] at hs
        repeat' split at hs
        all_goals cases hs
        all_goals rfl
      | decoder frame =>
        obtain ⟨-, hs⟩ := Option.ite_none_right_eq_some.mp hs
        obtain rfl := Option.some.inj hs
        rfl
      | setVolume | clock | restart =>
        obtain rfl := Option.some.inj hs
        rfl
    · rw [(step_beside hs hbeside).1] at hreset
      exact hreset

theorem carried_start (A : AudioSetup W) (memory : Nat → UInt8) (sync : ClockSync)
    (volume channelVolume : Int) :
    Carried A (start A memory sync volume channelVolume) 0 [] [] := by
  have hopen : ¬ (start A memory sync volume channelVolume).Open := not_open rfl rfl
  refine ⟨rfl, fun _ => ⟨rfl, ⟨?_, ?_, Nat.le_refl _, ?_⟩, holds_nil⟩, fun h => absurd h hopen,
    ⟨fun h => absurd h hopen, fun _ => rfl⟩, fun _ => rfl, nofun, nofun⟩
  · simp [start, AudioSetup.channel]
  · simp [start, AudioSetup.channel]
  · simp [start, AudioRingBuffer.slots, AudioSetup.channel, A.capacity_eq, frameAlignBytes_pos A]

end AudioThread

open AudioThread

/-- What was mixed is what was consumed, and the block in the callback's hands. -/
def PathRun.Carries (A : AudioSetup W) (s : PathRun W) : Prop :=
  ∃ k consumed unplayed, Carried A s.thread k consumed unplayed ∧
    s.mixed = consumed ++ s.thread.callback.taken unplayed

theorem PathRun.Carries.step {s t : PathRun W} {a : AudioThreadAct}
    (hstage : Stage A s.thread.blocks s.thread.pc) (h : s.Carries A) (hwhole : s.Whole a)
    (hs : s.step A a = some t) : t.Carries A := by
  obtain ⟨thread, hthread, rfl⟩ := Option.map_eq_some_iff.mp hs
  obtain ⟨k, consumed, unplayed, hcarried, hmixed⟩ := h
  unfold PathRun.Carries
  dsimp only
  by_cases hcallback : ∃ now, a = .callback now
  · obtain ⟨now, rfl⟩ := hcallback
    obtain rfl := Option.some.inj hthread
    have hloaded : ∀ r, s.thread.callback = .loaded r →
        r = s.thread.blocks.ring.readPos ∧ s.thread.pc.midReset = false := by
      intro r hr
      unfold PathRun.Whole at hwhole
      rw [hr] at hwhole
      exact hwhole
    rw [hmixed]
    exact hcarried.callback now hloaded
  · have hother : ∀ now, a ≠ .callback now := fun now ha => hcallback ⟨now, ha⟩
    obtain ⟨hsame, hdrained⟩ := step_aside hthread hother
    obtain ⟨k', more, hnext⟩ := hcarried.moves hstage (step_moves hthread) hsame hdrained
    have hnone : s.thread.mixedBlock A a = none := by
      cases a with
      | callback now => exact absurd rfl (hother now)
      | _ => rfl
    refine ⟨k', consumed, unplayed ++ more, hnext, ?_⟩
    rw [hnone, Option.toList_none, List.append_nil, hsame, hmixed]
    congr 1
    cases hending : s.thread.callback with
    | ending r =>
      have hne := (hcarried.ending r hending).2
      exact (List.take_append_of_le_length (List.length_pos_iff.mpr hne)).symm
    | _ => rfl

instance (s : PathRun W) (a : AudioThreadAct) : Decidable (s.Whole a) := by
  unfold PathRun.Whole
  split
  · split
    · infer_instance
    · infer_instance
  · infer_instance

/-- What the callback has is a prefix of what was published, behind by seven blocks at most. -/
theorem PathRun.Carries.prefix_lag {s : PathRun W} (h : s.Carries A) :
    s.mixed <+: s.thread.published A ∧
      (s.thread.published A).length ≤ s.mixed.length + 7 ∧
      (s.thread.pc.resetting = true → s.mixed = s.thread.published A) := by
  obtain ⟨k, consumed, unplayed, hcarried, hmixed⟩ := h
  have htaken : s.thread.callback.taken unplayed <+: unplayed := by
    cases s.thread.callback with
    | ending r => exact List.take_prefix 1 unplayed
    | _ => exact List.nil_prefix
  have hlag : unplayed.length ≤ 7 := by
    by_cases hnil : unplayed = []
    · rw [hnil]
      exact Nat.zero_le _
    · exact Nat.le_of_lt_succ (hcarried.queued_of_ne hnil).length_lt
  rw [hcarried.published, hmixed]
  refine ⟨(List.prefix_append_right_inj consumed).mpr htaken, ?_, fun hreset => ?_⟩
  · rw [List.length_append, List.length_append]
    omega
  · obtain rfl := hcarried.empty hreset
    rw [List.prefix_nil.mp htaken]

/-- Whatever frames and EOF markers there are, as long as none is converted behind a direct one:
the callback gets the blocks that were published, each with its header, in order and once.  It is
at most seven blocks behind, and behind no block in `reset()` and when `_onEof()` is called. -/
theorem blocks_reach_device (A : AudioSetup W) (memory : Nat → UInt8) (sync : ClockSync)
    (volume channelVolume : Int) {s : PathRun W}
    (h : ReachIf (PathRun.step A) PathRun.Whole
      { thread := start A memory sync volume channelVolume } s)
    (halive : OutAlive A s.thread.inputs) :
    s.mixed <+: s.thread.published A ∧
      (s.thread.published A).length ≤ s.mixed.length + 7 ∧
      (s.thread.pc.resetting = true → s.mixed = s.thread.published A) := by
  suffices hinv : Reach (AudioThread.step A) (start A memory sync volume channelVolume) s.thread ∧
      (OutAlive A s.thread.inputs → s.Carries A) from (hinv.2 halive).prefix_lag
  refine h.invariant
    (I := fun s : PathRun W =>
      Reach (AudioThread.step A) (start A memory sync volume channelVolume) s.thread ∧
        (OutAlive A s.thread.inputs → s.Carries A))
    ⟨.refl, fun _ => ⟨0, [], [], carried_start A memory sync volume channelVolume, rfl⟩⟩
    fun u a v hI hwhole hs => ?_
  obtain ⟨hreach, hcarries⟩ := hI
  obtain ⟨thread, hthread, rfl⟩ := Option.map_eq_some_iff.mp hs
  refine ⟨hreach.tail trivial hthread, fun hall => ?_⟩
  have hbefore := hall.of_prefix (step_moves hthread).inputs_grow
  exact (hcarries hbefore).step (stage_of_reach hreach hbefore) hwhole hs

/-- Two blocks, an EOF marker, and one block of the next iteration. -/
theorem blocks_reach_device_twice :
    ∃ s : PathRun 64, s.mixed.length = 3 ∧ s.mixed <+: s.thread.published (smallDevice (1 / 8000)) ∧
      s.thread.blocks.ended.length = 1 := by
  obtain ⟨s, hs, hp⟩ := reach_of_any
    (guarded (PathRun.step (smallDevice (1 / 8000))) PathRun.Whole)
    { thread := start (smallDevice (1 / 8000)) (fun _ => 0) audioOnly 128 128 }
    ([.decoder (some (stereoFrame .s16 8000 4 0)), .decoder none,
        .decoder (some (stereoFrame .s16 8000 2 4))] ++
      displaySteps 14 (goodAnswers 0 fun _ => 1) ++ List.replicate 8 (.callback 0) ++
      displaySteps 13 (goodAnswers 0 fun _ => 1) ++ List.replicate 4 (.callback 0))
    (fun s => s.mixed.length = 3 ∧ s.thread.blocks.ended.length = 1 ∧
      s.thread.inputs.all fun x => (smallDevice (1 / 8000)).isDirect x.1) (by decide +kernel)
  obtain ⟨hmixed, hended, hdirect⟩ := of_decide_eq_true hp
  have halive : OutAlive (smallDevice (1 / 8000)) s.thread.inputs :=
    .of_direct fun x hx => List.all_eq_true.mp hdirect x hx
  exact ⟨s, hmixed, (blocks_reach_device _ _ _ _ _ (reachIf_of_guarded hs) halive).1, hended⟩

/-! ## Frames without an EOF marker -/

/-- There is no `reset()`, and only the callback stores `read_pos_`. -/
theorem AudioThread.Chunking.whole {s : PathRun W} (h : Chunking A s.thread) (a : AudioThreadAct) :
    s.Whole a := by
  obtain ⟨played, hsound⟩ := h.sound
  cases a with
  | callback now =>
    unfold PathRun.Whole
    dsimp only
    split
    · next r hr =>
      refine ⟨hsound.loaded r hr, ?_⟩
      have hstreaming := h.streaming
      cases hpc : s.thread.pc with
      | resetRead =>
        rw [hpc] at hstreaming
        exact hstreaming.elim
      | _ => rfl
    · trivial
  | _ => trivial

theorem AudioThread.Streaming.ended {s t : AudioThread W} (h : Streaming A s.pc)
    (hs : s.Moves A t) : t.blocks.ended = s.blocks.ended := by
  cases hs with
  | flush hpc =>
    rw [hpc] at h
    exact h.elim
  | beginWrite d rest b hpc havail hwritten hbegin => exact beginWrite_ended hbegin
  | fill d rest hpc => exact fill_ended
  | _ => rfl

/-- The payloads that the callback got are those of the first blocks. -/
theorem PathRun.Carries.payloads {s : PathRun W} (h : s.Carries A) :
    ∃ waiting, s.mixed.map (List.drop 8) ++ waiting = s.thread.blocks.allPayloads ∧
      waiting.length ≤ 7 := by
  obtain ⟨k, consumed, unplayed, hcarried, -⟩ := id h
  obtain ⟨⟨rest, hrest⟩, hlag, -⟩ := h.prefix_lag
  have hle : s.thread.blocks.allPayloads.length ≤ s.thread.headers.length := by
    by_cases hopen : s.thread.Open
    · obtain ⟨earlier, header, hheaders, hlen, -⟩ := hcarried.headed.opened hopen
      rw [hheaders, List.length_append, hlen]
      exact Nat.le_add_right _ _
    · exact (hcarried.headed.closed hopen).ge
  have hpayloads : (s.thread.published A).map (List.drop 8) = s.thread.blocks.allPayloads := by
    unfold AudioThread.published AudioSetup.blockBytes
    rw [List.map_zipWith]
    refine List.ext_getElem ?_ fun i hi hi' => ?_
    · rw [List.length_zipWith, Nat.min_eq_right hle]
    · rw [List.getElem_zipWith, List.drop_left' (A.doubleBytes_length _)]
  refine ⟨rest.map (List.drop 8), ?_, ?_⟩
  · rw [← List.map_append, hrest, hpayloads]
  · rw [← hrest, List.length_append] at hlag
    rw [List.length_map]
    omega

/-- Frames of the device's format: their samples are those that the callback has got, then
those that wait in less than eight blocks, then the rest of the frame that is cut. -/
theorem samples_reach_device (A : AudioSetup W) (memory : Nat → UInt8) (sync : ClockSync)
    (volume channelVolume : Int) {s : PathRun W}
    (h : ReachIf (PathRun.step A) (fun s => FramesOnly A s.thread)
      { thread := start A memory sync volume channelVolume } s) :
    ∃ waiting, s.mixed.flatMap (List.drop 8) ++ waiting ++ s.thread.pc.left =
        s.thread.inputs.flatMap (fun x => A.sampleBytes x.1) ∧
      waiting.length < 8 * A.frameBytes := by
  obtain ⟨hchunking, hended, hcarries⟩ : Chunking A s.thread ∧ s.thread.blocks.ended = [] ∧
      s.Carries A := by
    refine h.invariant
      (I := fun s : PathRun W => Chunking A s.thread ∧ s.thread.blocks.ended = [] ∧ s.Carries A)
      ⟨chunking_start A memory sync volume channelVolume, rfl, 0, [], [],
        carried_start A memory sync volume channelVolume, rfl⟩ fun u a v hI hok hs => ?_
    obtain ⟨hchunking, hended, hcarries⟩ := hI
    obtain ⟨thread, hthread, rfl⟩ := Option.map_eq_some_iff.mp hs
    exact ⟨hchunking.step hok hthread,
      (hchunking.streaming.ended (step_moves hthread)).trans hended,
      hcarries.step hchunking.stage (hchunking.whole a) hs⟩
  have hstream := hchunking.streaming.stream hchunking.stage
  have hfed := hchunking.fed
  unfold Fed at hfed
  obtain ⟨waiting, hwaiting, hlen⟩ := hcarries.payloads
  have hall : s.thread.blocks.allPayloads = s.thread.blocks.payloads := by
    unfold allPayloads
    rw [hended]
    rfl
  rw [hall] at hwaiting
  have hcut : waiting.flatten.length = A.frameBytes * waiting.length := by
    refine Chunks.Cut.length_flatten fun x hx => hstream.cut x ?_
    rw [← hwaiting]
    exact List.mem_append_right _ hx
  refine ⟨waiting.flatten ++ read s.thread.blocks.ring.buf (s.thread.blocks.ring.writePos.toNat + 8)
    (s.thread.blocks.writtenSamples * A.bps), ?_, ?_⟩
  · rw [← hfed, ← hstream.stream, ← hwaiting, List.flatten_append, List.flatMap_def]
    simp only [List.append_assoc]
  · have hopen : s.thread.blocks.writtenSamples * A.bps < A.frameBytes :=
      Nat.mul_lt_mul_of_pos_right hstream.written_lt A.bps_pos
    have hblocks : A.frameBytes * waiting.length ≤ A.frameBytes * 7 := Nat.mul_le_mul_left _ hlen
    rw [List.length_append, hcut, length_read]
    omega

/-- Five samples in blocks of two: one block is played, one waits, and one is open. -/
theorem samples_reach_device_five :
    ∃ s : PathRun 64, s.mixed.length = 1 ∧ s.thread.blocks.payloads.length = 2 ∧
      ∃ waiting, s.mixed.flatMap (List.drop 8) ++ waiting ++ s.thread.pc.left =
          s.thread.inputs.flatMap (fun x => (smallDevice (1 / 8000)).sampleBytes x.1) ∧
        waiting.length < 8 * (smallDevice (1 / 8000)).frameBytes := by
  obtain ⟨s, hs, hp⟩ := reachIf_of_any (PathRun.step (smallDevice (1 / 8000)))
    (fun s => FramesOnly (smallDevice (1 / 8000)) s.thread)
    { thread := start (smallDevice (1 / 8000)) (fun _ => 0) audioOnly 128 128 }
    ([.decoder (some (stereoFrame .s16 8000 5 0))] ++ displaySteps 12 (goodAnswers 0 fun _ => 1) ++
      List.replicate 4 (.callback 0))
    (fun s => s.mixed.length = 1 ∧ s.thread.blocks.payloads.length = 2)
    (by
      intro a ha s
      simp only [displaySteps, List.mem_append, List.mem_singleton, List.mem_replicate] at ha
      rcases ha with (rfl | ⟨-, rfl⟩) | ⟨-, rfl⟩
      · rfl
      · trivial
      · trivial)
    (by decide +kernel)
  obtain ⟨hmixed, hpublished⟩ := of_decide_eq_true hp
  exact ⟨s, hmixed, hpublished, samples_reach_device _ _ _ _ _ hs⟩

end VideoPlayerCore
