import VideoPlayerCore.PlaybackInvariant

/-!
# The invariant of a playback along every run

    Reach (Playback.step cfg) (Playback.start file) s →
      ∃ delivered videoTaken audioTaken, Inv cfg file delivered videoTaken audioTaken s
                                                                  (Playback.inv_of_reach)
-/

namespace VideoPlayerCore

open Machine

variable {cfg : PlaybackConfig} {file : MediaFile} {s t : Playback} {now : ℚ}

/-! ## Clock calls -/

namespace ClockSync

variable (timeBase : ℚ) (sync : ClockSync) (now : ℚ) (f : VideoFrame)

@[simp] theorem delayOf_audio : (sync.delayOf timeBase now f).1.audio = sync.audio := by
  simp [delayOf]

@[simp] theorem delayOf_type : (sync.delayOf timeBase now f).1.type = sync.type := by
  simp [delayOf]

@[simp] theorem delayOf_isDisabled :
    (sync.delayOf timeBase now f).1.video.isDisabled = sync.video.isDisabled := by
  simp [delayOf]

theorem delayOf_startPts : (sync.delayOf timeBase now f).1.video.startPts =
    sync.video.startPts.or (some (f.time timeBase)) := calVideoDelay_startPts _ _ _ _

theorem delayOf_absolute : (sync.delayOf timeBase now f).1.absolute.startPts =
    sync.absolute.startPts.or (some now) := calVideoDelay_absolute _ _ _ _

variable (delay : Pts)

@[simp] theorem leave_audio : (sync.leave timeBase now f delay).audio = sync.audio := by
  unfold leave
  split <;> rfl

@[simp] theorem leave_type : (sync.leave timeBase now f delay).type = sync.type := by
  unfold leave
  split <;> rfl

@[simp] theorem leave_isDisabled :
    (sync.leave timeBase now f delay).video.isDisabled = sync.video.isDisabled := by
  unfold leave
  split <;> rfl

theorem leave_absolute (h : sync.absolute.startPts ≠ none) :
    (sync.leave timeBase now f delay).absolute.startPts ≠ none := by
  obtain ⟨a, ha⟩ := Option.ne_none_iff_exists'.mp h
  unfold leave updateVideoPts tick
  split <;> simp [ha]

theorem leave_startPts {v : ℚ} (h : sync.video.startPts = some v) :
    (sync.leave timeBase now f delay).video.startPts = some v := by
  unfold leave
  split
  · exact h
  · simp [h]

end ClockSync

/-! ## The video display thread -/

namespace VideoInv

variable {frames : List VideoFrame} {display next : VideoDisplay} {start : Pts}

/-- With a frame that was called for, video's clock is started. -/
theorem start_of_held {f : VideoFrame} (h : VideoInv cfg frames display start)
    (hf : display.frame? = some f) (hcall : display ≠ .calling f) :
    ∃ first, frames.head? = some first ∧ start = some (first.time cfg.timeBase) := by
  have hlast := h.held f hf
  rcases h.started with ⟨-, hnil | ⟨g, hg, -⟩⟩ | hstart
  · rw [hnil] at hlast
    cases hlast
  · rw [hg] at hf
    cases hf
    exact absurd hg hcall
  · exact hstart

/-- The display thread moves without a call for its frame. -/
theorem move (h : VideoInv cfg frames display start)
    (hframe : ∀ f, next.frame? = some f → display.frame? = some f)
    (hcall : ∀ f, display ≠ .calling f) : VideoInv cfg frames next start := by
  refine ⟨fun f hf => h.held f (hframe f hf), ?_⟩
  rcases h.started with ⟨hnone, hnil | ⟨f, hf, -⟩⟩ | hstart
  · exact .inl ⟨hnone, .inl hnil⟩
  · exact absurd hf (hcall f)
  · exact .inr hstart

/-- A call of `calVideoDelay`. -/
theorem call {f : VideoFrame} (h : VideoInv cfg frames (.calling f) start) (delay : Pts) :
    VideoInv cfg frames (.waiting f delay) (start.or (some (f.time cfg.timeBase))) := by
  have hlast := h.held f rfl
  refine ⟨fun g hg => ?_, .inr ?_⟩
  · cases hg
    exact hlast
  · rcases h.started with ⟨hnone, hnil | ⟨g, hg, hone⟩⟩ | ⟨first, hfirst, hstart⟩
    · rw [hnil] at hlast
      cases hlast
    · cases hg
      exact ⟨f, by rw [hone]; rfl, by rw [hnone]; rfl⟩
    · exact ⟨first, hfirst, by rw [hstart]; rfl⟩

theorem take {f : VideoFrame} (h : VideoInv cfg frames .reading start) :
    VideoInv cfg (frames ++ [f]) (.calling f) start := by
  refine ⟨fun g hg => ?_, ?_⟩
  · cases hg
    simp
  · rcases h.started with ⟨hnone, hnil | ⟨g, hg, -⟩⟩ | ⟨first, hfirst, hstart⟩
    · exact .inl ⟨hnone, .inr ⟨f, rfl, by rw [hnil]; rfl⟩⟩
    · cases hg
    · refine .inr ⟨first, ?_, hstart⟩
      rw [List.head?_append, hfirst]
      rfl

end VideoInv

theorem reduceOption_concat_none {α : Type} (l : List (Option α)) :
    (l ++ [none]).reduceOption = l.reduceOption := by
  rw [List.reduceOption_append, List.reduceOption_cons_of_none, List.reduceOption_nil,
    List.append_nil]

theorem reduceOption_concat_some {α : Type} (l : List (Option α)) (x : α) :
    (l ++ [some x]).reduceOption = l.reduceOption ++ [x] := by
  rw [List.reduceOption_append, List.reduceOption_cons_of_some, List.reduceOption_nil]

/-! ## The audio display thread -/

namespace AudioInv

variable {frames : List AudioFrame} {n played : Nat}

theorem congr (h : AudioInv cfg frames n played s) (hdisplay : t.audioDisplay = s.audioDisplay)
    (hwritten : t.writtenSamples = s.writtenSamples) (hheader : t.header = s.header)
    (hblocks : t.blocks = s.blocks) (haudio : t.sync.audio = s.sync.audio)
    (hvideo : s.sync.video.startPts ≠ none → t.sync.video.startPts ≠ none) :
    AudioInv cfg frames n played t where
  bound := h.bound
  rest := by rw [hdisplay]; exact h.rest
  held := by rw [hdisplay]; exact h.held
  busy := by rw [hdisplay]; exact h.busy
  written := by rw [hwritten]; exact h.written
  fresh := by rw [hdisplay, hwritten]; exact h.fresh
  header := by rw [hdisplay, hwritten, hheader]; exact h.header
  count := by rw [hblocks]; exact h.count
  blocks := by rw [hblocks]; exact h.blocks
  clock := by rw [hdisplay, haudio]; exact h.clock
  video := by rw [hdisplay]; exact fun hn => hvideo (h.video hn)

theorem samples_left (h : AudioInv cfg frames n played s) :
    n + (s.audioDisplay.left cfg.freq).length = (sampleTimes cfg.freq frames).length := by
  rw [← h.rest, List.length_drop]
  have hbound := h.bound
  omega

/-- The display thread stands elsewhere, and no sample has moved. -/
theorem stand (h : AudioInv cfg frames n played s) {display : AudioDisplay} {header : ℚ}
    (hleft : display.left cfg.freq = s.audioDisplay.left cfg.freq)
    (hheld : ∀ r, display.left? = some r → ∃ r', s.audioDisplay.left? = some r')
    (hbusy : display.begun = true → display.left cfg.freq ≠ [])
    (hfresh : display.begun = true → display.fills = false → s.writtenSamples = 0)
    (hheader : s.writtenSamples ≠ 0 ∨ display.begun = true →
      (sampleTimes cfg.freq frames)[n / cfg.samples * cfg.samples]? = some header)
    (hfills : display.fills = true → s.sync.audio.startPts ≠ none ∧ s.sync.video.startPts ≠ none) :
    AudioInv cfg frames n played { s with audioDisplay := display, header := header } where
  bound := h.bound
  rest := h.rest.trans hleft.symm
  held r hr := by
    obtain ⟨r', hr'⟩ := hheld r hr
    exact h.held r' hr'
  busy := hbusy
  written := h.written
  fresh := hfresh
  header := hheader
  count := h.count
  blocks := h.blocks
  clock := by
    rcases h.clock with ⟨hnone, hzero, -⟩ | hstarted
    · refine .inl ⟨hnone, hzero, Bool.eq_false_iff.mpr fun hf => ?_⟩
      exact (hfills hf).1 hnone
    · exact .inr hstarted
  video hn := by
    rcases hn with hne | hf
    · exact h.video (.inl hne)
    · exact (hfills hf).2

/-- The display thread takes the next frame. -/
theorem take (h : AudioInv cfg frames n played s) (hread : s.audioDisplay = .reading)
    (f : AudioFrame) :
    AudioInv cfg (frames ++ [f]) n played
      { s with audioDisplay := .cutting f.pts f.samples } := by
  have hleft := h.samples_left
  have hn : n = (sampleTimes cfg.freq frames).length := by
    rw [hread] at hleft
    exact hleft
  have hmore : ∀ {i : Nat} {x : ℚ}, (sampleTimes cfg.freq frames)[i]? = some x →
      (sampleTimes cfg.freq (frames ++ [f]))[i]? = some x := by
    intro i x hx
    rw [sampleTimes_append, List.getElem?_append_left (List.getElem?_eq_some_iff.mp hx).1, hx]
  refine ⟨?_, ?_, ?_, fun hb => absurd hb Bool.false_ne_true, h.written,
    fun hb => absurd hb Bool.false_ne_true, fun hw => ?_, h.count,
    fun i b hb => hmore (h.blocks i b hb), ?_, fun hn => ?_⟩
  · rw [sampleTimes_append, List.length_append]
    omega
  · rw [sampleTimes_append, hn, List.drop_left, sampleTimes_singleton]
    rfl
  · rintro r ⟨⟩
    exact ⟨frames, f, rfl, Nat.le_of_eq hn.symm⟩
  · rcases hw with hw | hb
    · exact hmore (h.header (.inl hw))
    · exact absurd hb Bool.false_ne_true
  · rcases h.clock with ⟨hnone, hzero, -⟩ | ⟨a, c, hstart, hcurrent, ha, hc⟩
    · exact .inl ⟨hnone, hzero, rfl⟩
    · exact .inr ⟨a, c, hstart, hcurrent, hmore ha, hmore hc⟩
  · rcases hn with hne | hf
    · exact h.video (.inl hne)
    · exact absurd hf Bool.false_ne_true

/-- Before the display thread takes the next frame, every sample is in a block, and the first of
them has started audio's clock. -/
theorem sounded (h : AudioInv cfg frames n played s) (hread : s.audioDisplay = .reading)
    (hne : sampleTimes cfg.freq frames ≠ []) : s.sync.audio.startPts ≠ none := by
  have hleft := h.samples_left
  rw [hread] at hleft
  rcases h.clock with ⟨-, hzero, -⟩ | ⟨a, c, hstart, -⟩
  · rw [hzero] at hleft
    exact absurd (List.length_eq_zero_iff.mp hleft.symm) hne
  · rw [hstart]
    simp

/-- The frame is done. -/
theorem done (h : AudioInv cfg frames n played s) {pts : Int}
    (hcut : s.audioDisplay = .cutting pts 0) :
    AudioInv cfg frames n played { s with audioDisplay := .reading } := by
  refine h.stand ?_ (fun r hr => by cases hr) (fun hb => absurd hb Bool.false_ne_true)
    (fun hb => absurd hb Bool.false_ne_true) (fun hw => ?_) fun hf => absurd hf Bool.false_ne_true
  · rw [hcut]
    rfl
  · rcases hw with hw | hb
    · exact h.header (.inl hw)
    · exact absurd hb Bool.false_ne_true

theorem sampleRun_ne_nil {freq : ℚ} {pts : Int} {avail : Nat} (havail : avail ≠ 0) :
    sampleRun freq pts avail ≠ [] := by
  rw [Ne, ← List.length_eq_zero_iff, length_sampleRun]
  exact havail

/-- A block is begun: its header is the time of its first sample. -/
theorem begin (h : AudioInv cfg frames n played s) {pts : Int} {avail : Nat}
    (hcut : s.audioDisplay = .cutting pts avail) (havail : avail ≠ 0)
    (hzero : s.writtenSamples = 0) :
    AudioInv cfg frames n played
      { s with audioDisplay := .starting pts avail, header := pts / cfg.freq } := by
  have hrun := h.rest
  rw [hcut] at hrun
  refine h.stand (by rw [hcut]; rfl) (fun r hr => ⟨(pts, avail), by rw [hcut]; rfl⟩)
    (fun _ => sampleRun_ne_nil havail) (fun _ _ => hzero) (fun _ => ?_)
    fun hf => absurd hf Bool.false_ne_true
  have hmod : n % cfg.samples = 0 := by rw [← h.written, hzero]
  have hhead : (sampleRun cfg.freq pts avail)[0]? = some (pts / cfg.freq) := sampleRun_head havail
  rw [Nat.div_mul_cancel (Nat.dvd_of_mod_eq_zero hmod), ← hhead]
  rw [show sampleRun cfg.freq pts avail = _ from hrun.symm, List.getElem?_drop, Nat.add_zero]

/-- A block that is begun already is filled on. -/
theorem fillOn (h : AudioInv cfg frames n played s) {pts : Int} {avail : Nat}
    (hcut : s.audioDisplay = .cutting pts avail) (havail : avail ≠ 0)
    (hwritten : s.writtenSamples ≠ 0) :
    AudioInv cfg frames n played { s with audioDisplay := .filling pts avail } := by
  have hne : n ≠ 0 := by
    intro hn
    rw [h.written, hn, Nat.zero_mod] at hwritten
    exact hwritten rfl
  refine h.stand (by rw [hcut]; rfl) (fun r hr => ⟨(pts, avail), by rw [hcut]; rfl⟩)
    (fun _ => sampleRun_ne_nil havail) (fun _ hf => absurd hf (by simp [AudioDisplay.fills]))
    (fun _ => h.header (.inl hwritten)) fun _ => ⟨?_, h.video (.inl hne)⟩
  rcases h.clock with ⟨-, hzero, -⟩ | ⟨a, c, hstart, -⟩
  · exact absurd hzero hne
  · rw [hstart]
    simp

/-- A call of `calAudioDelay`. -/
theorem call (now : ℚ) (h : AudioInv cfg frames n played s) {pts : Int} {avail : Nat}
    (hstarting : s.audioDisplay = .starting pts avail) (henabled : s.sync.video.isDisabled = false) :
    AudioInv cfg frames n played { s with
      sync := (s.sync.calAudioDelay now (some s.header) (some 0)).1
      audioDisplay :=
        if (s.sync.calAudioDelay now (some s.header) (some 0)).2.pos then .starting pts avail
        else .filling pts avail } := by
  have hbegun : s.audioDisplay.begun = true := by rw [hstarting]; rfl
  have hheader := h.header (.inr hbegun)
  have hzero := h.fresh hbegun (by rw [hstarting]; rfl)
  generalize hsync : (s.sync.calAudioDelay now (some s.header) (some 0)).1 = sync
  have hvideo : sync.video = s.sync.video := by rw [← hsync]; simp
  -- audio's clock is started now, with this block if it is the first
  have hclock : ∃ a c, sync.audio.startPts = some a ∧ sync.audio.currentPts = some c ∧
      (sampleTimes cfg.freq frames)[0]? = some a ∧
      (sampleTimes cfg.freq frames)[(played - 1) * cfg.samples]? = some c := by
    rcases h.clock with ⟨hnone, hn, -⟩ | ⟨a, c, hstart, hcurrent, ha, hc⟩
    · have hplayed : played = 0 := by
        have hcount := h.count
        rw [hn, Nat.zero_div] at hcount
        omega
      rw [hn, Nat.zero_div, Nat.zero_mul] at hheader
      refine ⟨s.header, s.header, ?_, ?_, hheader, ?_⟩
      · rw [← hsync, ClockSync.calAudioDelay_startPts, hnone]
        rfl
      · rw [← hsync]
        simp [ClockSync.calAudioDelay, ClockSync.startAudio, hnone]
      · rw [hplayed, Nat.zero_sub, Nat.zero_mul, hheader]
    · refine ⟨a, c, ?_, ?_, ha, hc⟩
      · rw [← hsync, ClockSync.calAudioDelay_startPts, hstart]
        rfl
      · rw [← hsync]
        simp [ClockSync.calAudioDelay, ClockSync.startAudio, hstart, hcurrent]
  have hsame : AudioInv cfg frames n played { s with sync := sync } :=
    { h with
      clock := .inr hclock
      video := fun hn => by rw [hvideo]; exact h.video hn }
  split
  · refine hsame.stand (by rw [hstarting]) (fun r hr => ⟨(pts, avail), by rw [hstarting]; rfl⟩)
      (fun _ => ?_) (fun _ _ => hzero) (fun _ => hheader) fun hf => absurd hf Bool.false_ne_true
    have hbusy := h.busy hbegun
    rwa [hstarting] at hbusy
  · next hpos =>
    have hstart : s.sync.video.startPts ≠ none := by
      intro hnone
      apply hpos
      have hwait : (s.sync.startAudio now (some s.header)).awaitsVideo = true := by
        simp [ClockSync.awaitsVideo, henabled, hnone]
      unfold ClockSync.calAudioDelay
      dsimp only
      rw [if_pos hwait]
      decide +kernel
    refine hsame.stand (by rw [hstarting]; rfl) (fun r hr => ⟨(pts, avail), by rw [hstarting]; rfl⟩)
      (fun _ => ?_) (fun _ hf => absurd hf (by simp [AudioDisplay.fills])) (fun _ => hheader)
      fun _ => ⟨?_, by rw [hvideo]; exact hstart⟩
    · have hbusy := h.busy hbegun
      rwa [hstarting] at hbusy
    · obtain ⟨a, c, hstart, -⟩ := hclock
      rw [hstart]
      simp

/-! ### Filling a block -/

theorem fill_part {n k S : Nat} (h : n % S + k < S) :
    (n + k) / S = n / S ∧ (n + k) % S = n % S + k := by
  have hpos : 0 < S := by omega
  have hsplit := Nat.mod_add_div n S
  refine (Nat.div_mod_unique hpos).mpr ⟨?_, h⟩
  omega

theorem fill_full {n k S : Nat} (hpos : 0 < S) (h : n % S + k = S) :
    (n + k) / S = n / S + 1 ∧ (n + k) % S = 0 := by
  have hsplit := Nat.mod_add_div n S
  refine (Nat.div_mod_unique hpos).mpr ⟨?_, hpos⟩
  rw [Nat.mul_add, Nat.mul_one]
  omega

/-- The `memcpy`, whether it completes the block or the frame. -/
theorem fill (h : AudioInv cfg frames n played s) {pts : Int} {avail k : Nat}
    (hfilling : s.audioDisplay = .filling pts avail) (hk : k ≤ avail)
    {written : Nat} {blocks : List ℚ}
    (hblock : n % cfg.samples + k < cfg.samples ∧ written = n % cfg.samples + k ∧
        blocks = s.blocks ∨
      n % cfg.samples + k = cfg.samples ∧ written = 0 ∧ blocks = s.blocks ++ [s.header]) :
    AudioInv cfg frames (n + k) played { s with
      audioDisplay := .cutting (pts + k) (avail - k), writtenSamples := written
      blocks := blocks } := by
  have hbegun : s.audioDisplay.begun = true := by rw [hfilling]; rfl
  have hheader := h.header (.inr hbegun)
  have hleft : s.audioDisplay.left cfg.freq = sampleRun cfg.freq pts avail := by
    rw [hfilling]
    rfl
  have hlength := h.samples_left
  rw [hleft, length_sampleRun] at hlength
  obtain ⟨before, f, hframes, hbefore⟩ := h.held (pts, avail) (by rw [hfilling]; rfl)
  refine
    { bound := by omega
      rest := ?_
      held := fun r _ => ⟨before, f, hframes, by omega⟩
      busy := fun hb => absurd hb Bool.false_ne_true
      written := ?_
      fresh := fun hb => absurd hb Bool.false_ne_true
      header := fun hw => ?_
      count := ?_
      blocks := fun i b hb => ?_
      clock := ?_
      video := fun _ => h.video (.inr (by rw [hfilling]; rfl)) }
  · rw [← List.drop_drop, h.rest, hleft, sampleRun_drop]
    rfl
  · rcases hblock with ⟨hpart, hw, -⟩ | ⟨hfull, hw, -⟩
    · exact hw.trans (fill_part hpart).2.symm
    · exact hw.trans (fill_full cfg.samples_pos hfull).2.symm
  · rcases hw with hw | hb
    · rcases hblock with ⟨hpart, -, -⟩ | ⟨-, hzero, -⟩
      · rw [(fill_part hpart).1]
        exact hheader
      · exact absurd hzero hw
    · exact absurd hb Bool.false_ne_true
  · have hcount := h.count
    rcases hblock with ⟨hpart, -, hb⟩ | ⟨hfull, -, hb⟩
    · rw [(fill_part hpart).1]
      dsimp only
      rw [hb, hcount]
    · rw [(fill_full cfg.samples_pos hfull).1]
      dsimp only
      rw [hb, List.length_append, List.length_singleton]
      omega
  · rcases hblock with ⟨-, -, hsame⟩ | ⟨-, -, hmore⟩
    · exact h.blocks i b (by rwa [← hsame])
    · dsimp only at hb
      rw [hmore, List.getElem?_append] at hb
      split at hb
      · exact h.blocks i b hb
      · next hi =>
        rw [List.getElem?_singleton] at hb
        split at hb
        · next hlast =>
          obtain rfl := Option.some.inj hb
          rw [show played + i = n / cfg.samples by have hcount := h.count; omega]
          exact hheader
        · cases hb
  · rcases h.clock with ⟨-, -, hfills⟩ | hstarted
    · rw [hfilling] at hfills
      cases hfills
    · exact .inr hstarted

/-- The callback plays a block. -/
theorem play (h : AudioInv cfg frames n played s) {b : ℚ} {blocks : List ℚ}
    (hb : s.blocks = b :: blocks) :
    AudioInv cfg frames n (played + 1)
      { s with sync := s.sync.updateAudioPts now (some b), blocks := blocks } := by
  have hcount := h.count
  rw [hb, List.length_cons] at hcount
  refine { h with count := ?_, blocks := fun i c hc => ?_, clock := ?_ }
  · show played + 1 + blocks.length = _
    omega
  · rw [show played + 1 + i = played + (i + 1) by omega]
    refine h.blocks (i + 1) c ?_
    rw [hb]
    exact hc
  · rcases h.clock with ⟨-, hn, -⟩ | ⟨a, c, hstart, -, ha, -⟩
    · rw [hn, Nat.zero_div] at hcount
      omega
    · refine .inr ⟨a, b, ?_, rfl, ha, ?_⟩
      · rw [ClockSync.updateAudioPts_audio, Clock.updatePts_startPts, hstart]
        rfl
      · rw [Nat.add_sub_cancel]
        exact h.blocks 0 b (by rw [hb]; rfl)

end AudioInv

/-! ## The steps of the parties -/

theorem MediaFile.items_filterMap {α : Type} (file : MediaFile)
    {f : Item → Option (Option α)} {g : Packet → Option α}
    (hfg : ∀ p : Packet, f p.item = (g p).map some) : file.items.filterMap f =
      (file.packets.filterMap g).map some ++ [.video none, .audio none].filterMap f := by
  rw [MediaFile.items, List.filterMap_append, List.filterMap_map, List.map_filterMap]
  exact congrArg (fun h => file.packets.filterMap h ++ _) (funext hfg)

theorem MediaFile.items_video (file : MediaFile) : file.items.filterMap Item.video? =
    (file.packets.filterMap Packet.video?).map some ++ [none] :=
  file.items_filterMap (by rintro (f | f) <;> rfl)

theorem MediaFile.items_audio (file : MediaFile) : file.items.filterMap Item.audio? =
    (file.packets.filterMap Packet.audio?).map some ++ [none] :=
  file.items_filterMap (by rintro (f | f) <;> rfl)

/-- Audio's NULL is written last. -/
theorem MediaFile.delivered_all {delivered rest : List Item} (h : file.items = delivered ++ rest)
    (hmem : .audio none ∈ delivered) : rest = [] := by
  rcases List.eq_nil_or_concat rest with hrest | ⟨front, last, hrest⟩
  · exact hrest
  · have hfront : file.packets.map Packet.item ++ [.video none] = delivered ++ front := by
      rw [MediaFile.items, hrest, List.concat_eq_append, ← List.append_assoc] at h
      rw [show [Item.video none, .audio none] = [.video none] ++ [.audio none] from rfl,
        ← List.append_assoc] at h
      exact (List.append_inj' h rfl).1
    have hold : Item.audio none ∈ file.packets.map Packet.item ++ [.video none] := by
      rw [hfront]
      exact List.mem_append_left front hmem
    rcases List.mem_append.mp hold with hpacket | hlast
    · obtain ⟨p, -, hp⟩ := List.mem_map.mp hpacket
      cases p <;> cases hp
    · cases List.mem_singleton.mp hlast

namespace Playback

variable {delivered : List Item} {videoTaken : List (Option VideoFrame)}
  {audioTaken : List (Option AudioFrame)}

namespace Inv

/-- Behind the end of audio everything is delivered, and its pipe is empty. -/
theorem audio_ended (h : Inv cfg file delivered videoTaken audioTaken s)
    (hnone : none ∈ audioTaken) : delivered = file.items ∧ s.audio.frameQueue = [] := by
  have hfed : none ∈ delivered.filterMap Item.audio? :=
    (Pipe.none_mem_outputs _ _ _).mp (h.audioPipe.taken_begins.subset hnone)
  obtain ⟨item, hitem, haudio⟩ := List.mem_filterMap.mp hfed
  have hmem : Item.audio none ∈ delivered := by
    cases item with
    | video pkt => cases haudio
    | audio pkt =>
      obtain rfl := Option.some.inj haudio
      exact hitem
  have hitems := h.items
  rw [List.append_assoc] at hitems
  have hall : delivered = file.items := by
    rw [hitems, MediaFile.delivered_all hitems hmem, List.append_nil]
  have hpipe := h.audioPipe
  rw [hall, file.items_audio] at hpipe
  exact ⟨hall, (hpipe.drained hnone).2.1⟩

/-- A step that the audio display thread takes no part in. -/
theorem audio_of_same (h : Inv cfg file delivered videoTaken audioTaken s)
    (hdisplay : t.audioDisplay = s.audioDisplay) (hwritten : t.writtenSamples = s.writtenSamples)
    (hheader : t.header = s.header) (hblocks : t.blocks = s.blocks)
    (haudio : t.sync.audio = s.sync.audio) (htype : t.sync.type = s.sync.type)
    (hvideo : s.sync.video.startPts ≠ none → t.sync.video.startPts ≠ none) :
    none ∈ audioTaken ∧ t.audioDisplay.left? = none ∨
      none ∉ audioTaken ∧ t.audioDisplay ≠ .ending ∧ t.sync.type = .audio ∧
        ∃ n played, AudioInv cfg audioTaken.reduceOption n played t := by
  rw [hdisplay, htype]
  rcases h.audio with hended | ⟨hnone, hopen, haud, n, played, hinv⟩
  · exact .inl hended
  · exact .inr ⟨hnone, hopen, haud, n, played,
      hinv.congr hdisplay hwritten hheader hblocks haudio hvideo⟩

theorem readerStep (h : Inv cfg file delivered videoTaken audioTaken s)
    (hs : s.readerStep = some t) : ∃ delivered, Inv cfg file delivered videoTaken audioTaken t := by
  have hitems := h.items
  unfold Playback.readerStep at hs
  split at hs
  · next hreader =>
    split at hs
    · cases hs
    · next item rest hrest =>
      obtain rfl := Option.some.inj hs
      refine ⟨delivered, { h with
        items := ?_, audio := h.audio_of_same rfl rfl rfl rfl rfl rfl id }⟩
      rw [hitems, hreader, hrest]
      simp [PlaybackReader.hand]
  · next pkt hreader =>
    obtain ⟨video, hwrite, rfl⟩ := Option.map_eq_some_iff.mp hs
    refine ⟨delivered ++ [.video pkt], { h with
      items := ?_, videoPipe := ?_, audioPipe := ?_, videoFits := h.videoFits.write hwrite
      audio := h.audio_of_same rfl rfl rfl rfl rfl rfl id }⟩
    · rw [hitems, hreader]
      simp [PlaybackReader.hand]
    · rw [List.filterMap_append]
      exact h.videoPipe.write hwrite
    · rw [List.filterMap_append, show [Item.video pkt].filterMap Item.audio? = [] from rfl,
        List.append_nil]
      exact h.audioPipe
  · next pkt hreader =>
    obtain ⟨audio, hwrite, rfl⟩ := Option.map_eq_some_iff.mp hs
    refine ⟨delivered ++ [.audio pkt], { h with
      items := ?_, videoPipe := ?_, audioPipe := ?_, audioFits := h.audioFits.write hwrite
      audio := h.audio_of_same rfl rfl rfl rfl rfl rfl id }⟩
    · rw [hitems, hreader]
      simp [PlaybackReader.hand]
    · rw [List.filterMap_append, show [Item.audio pkt].filterMap Item.video? = [] from rfl,
        List.append_nil]
      exact h.videoPipe
    · rw [List.filterMap_append]
      exact h.audioPipe.write hwrite

/-- A display thread that has left the branch of NULL has set the flag. -/
theorem video_acknowledged (h : Inv cfg file delivered videoTaken audioTaken s)
    (hdisplay : s.videoDisplay ≠ .ending) (hnone : none ∈ videoTaken) : s.videoEof = true :=
  (h.videoEnds hnone).resolve_left hdisplay

/-- A call of the clocks for the frame in hand. -/
theorem shows (h : Inv cfg file delivered videoTaken audioTaken s)
    (hdisplay : s.videoDisplay ≠ .ending) {sync : ClockSync} {display : VideoDisplay}
    (henabled : sync.video.isDisabled = s.sync.video.isDisabled)
    (haudio : sync.audio = s.sync.audio) (htype : sync.type = s.sync.type)
    (habsolute : s.sync.absolute.startPts ≠ none → sync.absolute.startPts ≠ none)
    (hstart : s.sync.video.startPts ≠ none → sync.video.startPts ≠ none)
    (hvideo : VideoInv cfg videoTaken.reduceOption display sync.video.startPts) :
    Inv cfg file delivered videoTaken audioTaken
      { s with sync := sync, videoDisplay := display } :=
  { h with
    videoEnabled := henabled.trans h.videoEnabled
    audioEnabled := (congrArg Clock.isDisabled haudio).trans h.audioEnabled
    video := hvideo
    audio := h.audio_of_same rfl rfl rfl rfl haudio htype hstart
    videoEnds := fun hnone => .inr (h.video_acknowledged hdisplay hnone)
    audioEnds := fun hnone =>
      (h.audioEnds hnone).imp_right fun hend => ⟨hend.1, htype.trans hend.2⟩
    sounded := fun hnone hne => haudio.symm ▸ h.sounded hnone hne
    absolute := fun hne => habsolute (h.absolute (haudio ▸ hne)) }

theorem videoDisplayStep (h : Inv cfg file delivered videoTaken audioTaken s)
    (hs : s.videoDisplayStep cfg now = some t) :
    ∃ videoTaken, Inv cfg file delivered videoTaken audioTaken t := by
  have hvideo := h.video
  unfold Playback.videoDisplayStep at hs
  split at hs
  · next hdisplay =>
    obtain rfl := Option.some.inj hs
    rw [hdisplay] at hvideo
    exact ⟨videoTaken, { h with
      video := hvideo.move (fun f hf => by cases hf) (fun f hf => by cases hf)
      audio := h.audio_of_same rfl rfl rfl rfl rfl rfl id
      videoEnds := fun hnone => .inr (h.video_acknowledged (by simp [hdisplay]) hnone) }⟩
  · next hdisplay =>
    rw [hdisplay] at hvideo
    split at hs
    · cases hs
    · next video htake =>
      obtain rfl := Option.some.inj hs
      refine ⟨videoTaken ++ [none], { h with
        videoPipe := h.videoPipe.takeFrame htake, videoFits := h.videoFits.takeFrame htake
        video := ?_, audio := h.audio_of_same rfl rfl rfl rfl rfl rfl id
        videoEnds := fun _ => .inl rfl }⟩
      rw [reduceOption_concat_none]
      exact hvideo.move (fun f hf => by cases hf) (fun f hf => by cases hf)
    · next f video htake =>
      obtain rfl := Option.some.inj hs
      refine ⟨videoTaken ++ [some f], { h with
        videoPipe := h.videoPipe.takeFrame htake, videoFits := h.videoFits.takeFrame htake
        video := ?_, audio := h.audio_of_same rfl rfl rfl rfl rfl rfl id
        videoEnds := fun hnone =>
          .inr (h.video_acknowledged (by simp [hdisplay]) (by simpa using hnone)) }⟩
      rw [reduceOption_concat_some]
      exact hvideo.take
  · next hdisplay =>
    obtain rfl := Option.some.inj hs
    rw [hdisplay] at hvideo
    exact ⟨videoTaken, { h with
      video := hvideo.move (fun f hf => by cases hf) (fun f hf => by cases hf)
      audio := h.audio_of_same rfl rfl rfl rfl rfl rfl id, videoEnds := fun _ => .inr rfl }⟩
  · next f hdisplay =>
    generalize hcall : s.sync.delayOf cfg.timeBase now f = r at hs
    obtain ⟨sync, delay⟩ := r
    obtain rfl := Option.some.inj hs
    obtain rfl : (s.sync.delayOf cfg.timeBase now f).1 = sync := by rw [hcall]
    rw [hdisplay] at hvideo
    have hstart := ClockSync.delayOf_startPts cfg.timeBase s.sync now f
    refine ⟨videoTaken, h.shows (by simp [hdisplay]) (ClockSync.delayOf_isDisabled ..)
      (ClockSync.delayOf_audio ..) (ClockSync.delayOf_type ..) (fun _ => ?_) (fun hne => ?_) ?_⟩
    · rw [ClockSync.delayOf_absolute]
      cases s.sync.absolute.startPts <;> simp
    · obtain ⟨v, hv⟩ := Option.ne_none_iff_exists'.mp hne
      rw [hstart, hv]
      simp
    · rw [hstart]
      exact hvideo.call delay
  · next f delay hdisplay =>
    obtain rfl := Option.some.inj hs
    rw [hdisplay] at hvideo
    refine ⟨videoTaken, { h with
      video := ⟨fun g hg => ?_, .inr (hvideo.start_of_held rfl (by simp))⟩
      audio := h.audio_of_same rfl rfl rfl rfl rfl rfl id
      videoEnds := fun hnone => .inr (h.video_acknowledged (by simp [hdisplay]) hnone) }⟩
    refine hvideo.held g ?_
    dsimp only at hg
    split at hg <;> exact hg
  · next f delay hdisplay =>
    obtain rfl := Option.some.inj hs
    rw [hdisplay] at hvideo
    obtain ⟨first, -, hstart⟩ := hvideo.start_of_held rfl (by simp)
    have hsame := ClockSync.leave_startPts cfg.timeBase s.sync now f delay hstart
    refine ⟨videoTaken, h.shows (by simp [hdisplay]) (ClockSync.leave_isDisabled ..)
      (ClockSync.leave_audio ..) (ClockSync.leave_type ..) (ClockSync.leave_absolute _ _ _ _ _)
      (fun _ => ?_) ?_⟩
    · rw [hsame]
      simp
    · rw [hsame, ← hstart]
      exact hvideo.move (fun f hf => by cases hf) (fun f hf => by cases hf)
  · cases hs

/-- With a frame to be cut, audio has not ended. -/
theorem audio_of_left (h : Inv cfg file delivered videoTaken audioTaken s) {r : Int × Nat}
    (hleft : s.audioDisplay.left? = some r) :
    none ∉ audioTaken ∧ s.sync.type = .audio ∧
      ∃ n played, AudioInv cfg audioTaken.reduceOption n played s := by
  rcases h.audio with ⟨-, hnone⟩ | ⟨hnone, -, htype, hinv⟩
  · rw [hnone] at hleft
    cases hleft
  · exact ⟨hnone, htype, hinv⟩

/-- A step within a frame that calls no clock. -/
theorem cuts (h : Inv cfg file delivered videoTaken audioTaken s) (hnone : none ∉ audioTaken)
    (htype : s.sync.type = .audio) {display : AudioDisplay} {written n played : Nat} {header : ℚ}
    {blocks : List ℚ} (hopen : display ≠ .ending)
    (hinv : AudioInv cfg audioTaken.reduceOption n played { s with
      audioDisplay := display, writtenSamples := written, header := header, blocks := blocks }) :
    Inv cfg file delivered videoTaken audioTaken { s with
      audioDisplay := display, writtenSamples := written, header := header, blocks := blocks } :=
  { h with
    audio := .inr ⟨hnone, hopen, htype, n, played, hinv⟩
    audioEnds := fun hended => absurd hended hnone
    sounded := fun hended => absurd hended hnone }

theorem audioDisplayStep (h : Inv cfg file delivered videoTaken audioTaken s)
    (hs : s.audioDisplayStep cfg now = some t) :
    ∃ audioTaken, Inv cfg file delivered videoTaken audioTaken t := by
  have haudio := h.audio
  unfold Playback.audioDisplayStep at hs
  split at hs
  · next hdisplay =>
    split at hs
    · cases hs
    · next audio htake =>
      -- behind NULL only `left?` and the pipe are kept
      refine ⟨audioTaken ++ [none], ?_⟩
      have hsounded : sampleTimes cfg.freq (audioTaken ++ [none]).reduceOption ≠ [] →
          s.sync.audio.startPts ≠ none := by
        rw [reduceOption_concat_none]
        rcases haudio with ⟨hended, -⟩ | ⟨-, -, -, n, played, hinv⟩
        · exact h.sounded hended
        · exact hinv.sounded hdisplay
      split at hs <;> obtain rfl := Option.some.inj hs <;>
        exact { h with
          audioPipe := h.audioPipe.takeFrame htake, audioFits := h.audioFits.takeFrame htake
          audio := .inl ⟨by simp, rfl⟩, audioEnds := fun _ => .inl rfl
          sounded := fun _ => hsounded }
    · next f audio htake =>
      obtain rfl := Option.some.inj hs
      have hopen : none ∉ audioTaken ++ [some f] := by
        intro hended
        rw [Pipe.takeFrame, (h.audio_ended (by simpa using hended)).2] at htake
        cases htake
      refine ⟨audioTaken ++ [some f], { h with
        audioPipe := h.audioPipe.takeFrame htake, audioFits := h.audioFits.takeFrame htake
        audio := ?_, audioEnds := fun hended => absurd hended hopen
        sounded := fun hended => absurd hended hopen }⟩
      rcases haudio with ⟨hended, -⟩ | ⟨hnone, -, htype, n, played, hinv⟩
      · exact absurd (List.mem_append_left _ hended) hopen
      · refine .inr ⟨by simpa using hnone, by simp, htype, n, played, ?_⟩
        rw [reduceOption_concat_some]
        exact (hinv.take hdisplay f).congr rfl rfl rfl rfl rfl id
  · next pts avail hdisplay =>
    obtain ⟨hnone, htype, n, played, hinv⟩ := h.audio_of_left (by rw [hdisplay]; rfl)
    split at hs
    · next hzero =>
      obtain rfl := Option.some.inj hs
      rw [hzero] at hdisplay
      exact ⟨audioTaken, h.cuts hnone htype (by simp) (hinv.done hdisplay)⟩
    · next havail =>
      split at hs
      · next hwritten =>
        split at hs
        · obtain rfl := Option.some.inj hs
          exact ⟨audioTaken, h.cuts hnone htype (by simp) (hinv.begin hdisplay havail hwritten)⟩
        · cases hs
      · next hwritten =>
        obtain rfl := Option.some.inj hs
        exact ⟨audioTaken, h.cuts hnone htype (by simp) (hinv.fillOn hdisplay havail hwritten)⟩
  · next pts avail hdisplay =>
    have hsame := ClockSync.calAudioDelay_video s.sync now (some s.header) (some 0)
    have henabled := ClockSync.calAudioDelay_isDisabled s.sync now (some s.header) (some 0)
    have hkind := ClockSync.calAudioDelay_type s.sync now (some s.header) (some 0)
    have habsolute := ClockSync.calAudioDelay_absolute s.sync now (some s.header) (some 0)
    obtain ⟨hnone, htype, n, played, hinv⟩ := h.audio_of_left (by rw [hdisplay]; rfl)
    have hcalled := hinv.call now hdisplay h.videoEnabled
    generalize s.sync.calAudioDelay now (some s.header) (some 0) = r
      at hs hsame henabled hkind habsolute hcalled
    obtain ⟨sync, delay⟩ := r
    obtain rfl := Option.some.inj hs
    dsimp only at hsame henabled hkind habsolute
    refine ⟨audioTaken, { h with
      videoEnabled := ?_, audioEnabled := henabled.trans h.audioEnabled, video := ?_, audio := ?_
      audioEnds := fun hended => absurd hended hnone
      sounded := fun hended => absurd hended hnone, absolute := fun _ => ?_ }⟩
    · exact (congrArg Clock.isDisabled hsame).trans h.videoEnabled
    · exact (congrArg Clock.startPts hsame).symm ▸ h.video
    · refine .inr ⟨hnone, ?_, hkind.trans htype, n, played, hcalled⟩
      dsimp only
      split <;> simp
    · dsimp only
      rw [habsolute]
      cases s.sync.absolute.startPts <;> simp
  · next pts avail hdisplay =>
    obtain ⟨hnone, htype, n, played, hinv⟩ := h.audio_of_left (by rw [hdisplay]; rfl)
    have hwritten := hinv.written
    have hmod := Nat.mod_lt n cfg.samples_pos
    dsimp only at hs
    split at hs
    · next hfull =>
      obtain rfl := Option.some.inj hs
      exact ⟨audioTaken, h.cuts hnone htype (by simp)
        (hinv.fill hdisplay (Nat.min_le_right _ _) (.inr ⟨by omega, rfl, rfl⟩))⟩
    · next hpart =>
      obtain rfl := Option.some.inj hs
      exact ⟨audioTaken, h.cuts hnone htype (by simp)
        (hinv.fill hdisplay (Nat.min_le_right _ _) (.inl ⟨by omega, by omega, rfl⟩))⟩
  · next hdisplay =>
    split at hs
    · obtain rfl := Option.some.inj hs
      refine ⟨audioTaken, { h with audio := .inl ?_, audioEnds := fun _ => .inr ⟨rfl, rfl⟩ }⟩
      rcases haudio with ⟨hended, -⟩ | ⟨-, hopen, -⟩
      · exact ⟨hended, rfl⟩
      · exact absurd hdisplay hopen
    · cases hs

theorem callbackStep (h : Inv cfg file delivered videoTaken audioTaken s)
    (hs : s.callbackStep now = some t) : Inv cfg file delivered videoTaken audioTaken t := by
  unfold Playback.callbackStep at hs
  split at hs
  · cases hs
  · next b blocks hblocks =>
    obtain rfl := Option.some.inj hs
    refine { h with audio := ?_, sounded := fun hnone hne => ?_, absolute := fun _ => ?_ }
    · rcases h.audio with hended | ⟨hnone, hopen, htype, n, played, hinv⟩
      · exact .inl hended
      · exact .inr ⟨hnone, hopen, htype, n, played + 1, hinv.play hblocks⟩
    · obtain ⟨a, ha⟩ := Option.ne_none_iff_exists'.mp (h.sounded hnone hne)
      simp [ha]
    · cases hstart : s.sync.absolute.startPts <;>
        simp [ClockSync.updateAudioPts, ClockSync.tick, hstart]

/-- The decoder of a stream moves its own pipe only. -/
theorem step (h : Inv cfg file delivered videoTaken audioTaken s) {a : PlaybackAct}
    (hs : s.step cfg a = some t) :
    ∃ delivered videoTaken audioTaken, Inv cfg file delivered videoTaken audioTaken t := by
  cases a with
  | reader =>
    obtain ⟨delivered, hinv⟩ := h.readerStep hs
    exact ⟨delivered, videoTaken, audioTaken, hinv⟩
  | videoDecoder =>
    obtain ⟨video, hvideo, rfl⟩ := Option.map_eq_some_iff.mp hs
    exact ⟨delivered, videoTaken, audioTaken, { h with
      videoPipe := h.videoPipe.decoderStep hvideo, videoFits := h.videoFits.decoderStep hvideo
      audio := h.audio_of_same rfl rfl rfl rfl rfl rfl id }⟩
  | videoDisplay now =>
    obtain ⟨videoTaken, hinv⟩ := h.videoDisplayStep hs
    exact ⟨delivered, videoTaken, audioTaken, hinv⟩
  | audioDecoder =>
    obtain ⟨audio, haudio, rfl⟩ := Option.map_eq_some_iff.mp hs
    exact ⟨delivered, videoTaken, audioTaken, { h with
      audioPipe := h.audioPipe.decoderStep haudio, audioFits := h.audioFits.decoderStep haudio
      audio := h.audio_of_same rfl rfl rfl rfl rfl rfl id }⟩
  | audioDisplay now =>
    obtain ⟨audioTaken, hinv⟩ := h.audioDisplayStep hs
    exact ⟨delivered, videoTaken, audioTaken, hinv⟩
  | callback now => exact ⟨delivered, videoTaken, audioTaken, h.callbackStep hs⟩

end Inv

theorem inv_start (cfg : PlaybackConfig) (file : MediaFile) :
    Inv cfg file [] [] [] (start file) where
  items := rfl
  videoPipe := Pipe.carries_start
  audioPipe := Pipe.carries_start
  videoFits := ⟨Nat.zero_le _, Nat.zero_le _, Nat.zero_le _, by simp [start]⟩
  audioFits := ⟨Nat.zero_le _, Nat.zero_le _, Nat.zero_le _, by simp [start]⟩
  videoEnabled := rfl
  audioEnabled := rfl
  video := ⟨fun f hf => (by cases hf), .inl ⟨rfl, .inl rfl⟩⟩
  audio := by
    refine .inr ⟨by simp, by simp [start], rfl, 0, 0, ?_⟩
    refine ⟨Nat.zero_le _, rfl, fun r hr => (by cases hr), fun hb => absurd hb Bool.false_ne_true,
      (Nat.zero_mod _).symm, fun hb => absurd hb Bool.false_ne_true, fun hw => ?_,
      (Nat.zero_div _).symm, fun i b hb => (by cases hb), .inl ⟨rfl, rfl, rfl⟩, fun hn => ?_⟩
    · exact hw.elim (fun hw => absurd rfl hw) fun hb => absurd hb Bool.false_ne_true
    · exact hn.elim (fun hn => absurd rfl hn) fun hb => absurd hb Bool.false_ne_true
  videoEnds hnone := by cases hnone
  audioEnds hnone := by cases hnone
  sounded hnone := by cases hnone
  absolute hne := absurd rfl hne

theorem inv_of_reach (h : Reach (step cfg) (start file) s) :
    ∃ delivered videoTaken audioTaken, Inv cfg file delivered videoTaken audioTaken s := by
  refine Reach.invariant (I := fun s => ∃ delivered videoTaken audioTaken,
    Inv cfg file delivered videoTaken audioTaken s) h ⟨[], [], [], inv_start cfg file⟩ ?_
  intro t a u hinv hs
  obtain ⟨delivered, videoTaken, audioTaken, hinv⟩ := hinv
  exact hinv.step hs

end Playback

end VideoPlayerCore
