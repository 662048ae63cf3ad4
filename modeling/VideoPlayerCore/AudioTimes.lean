import Mathlib.Tactic.FieldSimp
import Mathlib.Tactic.Linarith
import Mathlib.Tactic.Positivity
import Mathlib.Tactic.Ring
import VideoPlayerCore.AudioConvert

/-!
# The headers of the blocks

The header of a block is the time of its first sample, counted from the `pts` of the frame
that the sample is of.  The conversion path brings this `pts` from the stream's time base to
samples of the device; the direct path takes it as it is.

    a block that begins in sample k of a frame has the header pts' / freq + k / freq, where
    pts' = av_rescale_q(pts, time_base, 1 / freq) on the conversion path
    pts' = pts                            on the direct path             (HeaderInv.headers)

Up to 1 / freq the header is pts * time_base + k / freq, except for the blocks that begin in a
direct frame with |pts * (1 - time_base * freq)| > 1.  A frame that is converted behind a direct
one makes the behaviour undefined.                                       (block_times)
-/

namespace VideoPlayerCore

open Histories Machine

variable {W : Nat} {A : AudioSetup W}

/-- `out->pts` of the frame that is cut. -/
def AudioSetup.basePts (A : AudioSetup W) (f : AVFrame) : Int :=
  if A.isDirect f then f.pts else A.rescalePts f.pts

/-- The time of sample `index` of a frame. -/
def AudioSetup.timeOf (A : AudioSetup W) (f : AVFrame) (index : Nat) : ℚ :=
  f.pts * A.timeBase + index / A.freq

/-- The header is right, up to one sample. -/
def BlockHeader.OnTime (A : AudioSetup W) (b : BlockHeader) : Prop :=
  |b.value - A.timeOf b.frame b.index| ≤ 1 / A.freq

/-- `av_rescale_q` rounds to the nearest. -/
def AudioSetup.RescalesNearest (A : AudioSetup W) : Prop :=
  ∀ a b c, 0 < c → |(A.rescale a b c : ℚ) - a * b / c| ≤ 1 / 2

/-! ## What `pts` is -/

namespace Resampler

variable {r r' : Resampler} {f : AVFrame} {id : Nat} {e : SwrAnswers} {o : OutFrame}

theorem prepare_pts (hs : r.prepare A f id e = (r', some o)) : o.pts = A.basePts f := by
  unfold AudioSetup.basePts
  cases hf : A.isDirect f with
  | true =>
    rw [prepare_direct hf] at hs
    cases hs
    rfl
  | false =>
    rw [prepare_converted hf] at hs
    rw [if_neg Bool.false_ne_true]
    exact (resample_some hs).2

end Resampler

namespace AudioThread

variable {s t : AudioThread W}

/-- The frame is one that the thread has taken. -/
def Taken (s : AudioThread W) (f : AVFrame) : Prop := ∃ e, (f, e) ∈ s.inputs

/-- The `pts` that is counted along the frame, and the headers made from it. -/
structure HeaderInv (A : AudioSetup W) (s : AudioThread W) : Prop where
  pts : ∀ d rest, s.pc.job = some (d, rest) →
    rest.pts = A.basePts d.frame + rest.done ∧ s.Taken d.frame
  headers : ∀ b ∈ s.headers,
    b.value = (A.basePts b.frame + b.index : ℚ) / A.freq ∧ s.Taken b.frame

theorem HeaderInv.step (h : HeaderInv A s) (hs : s.Moves A t) : HeaderInv A t := by
  obtain ⟨hpts, hheaders⟩ := id h
  have hinputs : ∀ f, s.Taken f → t.Taken f := by
    rintro f ⟨e, hin⟩
    exact ⟨e, hs.inputs_grow.subset hin⟩
  have hkeep : ∀ b ∈ s.headers,
      b.value = (A.basePts b.frame + b.index : ℚ) / A.freq ∧ t.Taken b.frame :=
    fun b hb => ⟨(hheaders b hb).1, hinputs _ (hheaders b hb).2⟩
  cases hs with
  | aside | consume | drain | poll | sleep => exact ⟨hpts, hkeep⟩
  | begin | leave | idle | marker | take | flush | drained | resetWrite | resetRead | clear
  | skip | done | endLoop | exit =>
    -- there is no job behind these steps
    exact ⟨fun _ _ hjob => absurd hjob.symm (Option.some_ne_none _), hkeep⟩
  | prepare d e r o hpc hprepare =>
    refine ⟨?_, hkeep⟩
    rintro d' rest ⟨⟩
    refine ⟨?_, e, List.mem_append_right _ (List.mem_singleton.mpr rfl)⟩
    show o.pts = A.basePts d.frame + (0 : Nat)
    rw [Resampler.prepare_pts hprepare]
    simp
  | resume d rest hpc | wait d rest _ hpc | play d rest _ hpc =>
    rw [hpc] at hpts
    exact ⟨hpts, hkeep⟩
  | beginWrite d rest b hpc =>
    rw [hpc] at hpts
    obtain ⟨hnow, htaken⟩ := hpts d rest rfl
    refine ⟨hpts, fun b' hb => ?_⟩
    rcases List.mem_append.mp hb with hb | hb
    · exact hkeep b' hb
    · obtain rfl := List.mem_singleton.mp hb
      refine ⟨?_, htaken⟩
      dsimp only
      rw [hnow]
      push_cast
      rfl
  | fill d rest hpc =>
    rw [hpc] at hpts
    obtain ⟨hnow, htaken⟩ := hpts d rest rfl
    refine ⟨?_, hkeep⟩
    rintro d' rest' ⟨⟩
    refine ⟨?_, htaken⟩
    show rest.pts + _ = _ + ((rest.done + _ : Nat) : Int)
    rw [hnow]
    push_cast
    ring

end AudioThread

/-! ## How far the header is off -/

section Header

variable {b : BlockHeader}

/-- What the header is off by, in samples. -/
theorem onTime_iff (hvalue : b.value = (A.basePts b.frame + b.index : ℚ) / A.freq) :
    b.OnTime A ↔ |(A.basePts b.frame : ℚ) - b.frame.pts * A.timeBase * A.freq| ≤ 1 := by
  have hfreq : (0 : ℚ) < A.freq := Nat.cast_pos.mpr A.freq_pos
  have hoff : b.value - A.timeOf b.frame b.index =
      (A.basePts b.frame - b.frame.pts * A.timeBase * A.freq) / A.freq := by
    rw [hvalue, AudioSetup.timeOf]
    field_simp
    ring
  unfold BlockHeader.OnTime
  rw [hoff, abs_div, abs_of_pos hfreq, div_le_div_iff_of_pos_right hfreq]

theorem onTime_direct (hf : A.isDirect b.frame = true)
    (hvalue : b.value = (A.basePts b.frame + b.index : ℚ) / A.freq) :
    b.OnTime A ↔ |b.frame.pts * (1 - A.timeBase * A.freq)| ≤ 1 := by
  have hbase : (A.basePts b.frame : ℚ) - b.frame.pts * A.timeBase * A.freq =
      b.frame.pts * (1 - A.timeBase * A.freq) := by
    rw [AudioSetup.basePts, if_pos hf]
    ring
  rw [onTime_iff hvalue, hbase]

theorem onTime_converted (hnear : A.RescalesNearest) (hf : A.isDirect b.frame = false)
    (hpts : b.frame.pts ≠ noPts)
    (hvalue : b.value = (A.basePts b.frame + b.index : ℚ) / A.freq) : b.OnTime A := by
  have hfreq : (0 : ℚ) < A.freq := Nat.cast_pos.mpr A.freq_pos
  have hbase : A.basePts b.frame = A.rescale b.frame.pts A.timeBase (1 / A.freq) := by
    rw [AudioSetup.basePts, if_neg (by simp [hf]), AudioSetup.rescalePts, if_neg hpts]
  have hround := hnear b.frame.pts A.timeBase (1 / A.freq) (by positivity)
  have hsame : (b.frame.pts * A.timeBase / (1 / A.freq) : ℚ) =
      b.frame.pts * A.timeBase * A.freq := by
    rw [one_div, div_inv_eq_mul]
  rw [onTime_iff hvalue, hbase]
  rw [hsame] at hround
  linarith

end Header

/-! ## Runs -/

namespace AudioThread

variable {s t : AudioThread W}

/-- The header that the step stores: `begin_write` succeeds for the first sample of a block. -/
def nextHeader (A : AudioSetup W) (s : AudioThread W) : AudioThreadAct → Option BlockHeader
  | .display _ _ =>
    match s.pc with
    | .cutting d rest =>
      let header : ℚ := rest.pts / A.freq
      if rest.avail ≠ 0 ∧ s.blocks.writtenSamples = 0 ∧
          (s.blocks.beginWrite A header).isSome = true then
        some { frame := d.frame, index := rest.done, value := header }
      else none
    | _ => none
  | _ => none

theorem cut_headers (d : Dequeued) (rest : Rest) (now : ℚ) (e : SwrAnswers)
    (hpc : s.pc = .cutting d rest) :
    (s.cut A d rest).headers = s.headers ++ (s.nextHeader A (.display now e)).toList := by
  unfold cut nextHeader
  simp only [hpc]
  by_cases havail : rest.avail = 0
  · simp [havail]
  · by_cases hwritten : s.blocks.writtenSamples = 0
    · simp only [havail, hwritten, if_true, if_false]
      split
      · next hnone => simp [hnone]
      · next b hsome => simp [hsome, havail]
    · simp [havail, hwritten]

theorem nextHeader_eq_none (now : ℚ) (e : SwrAnswers) (h : ∀ d rest, s.pc ≠ .cutting d rest) :
    s.nextHeader A (.display now e) = none := by
  unfold nextHeader
  dsimp only
  split
  · next d rest hpc => exact absurd hpc (h d rest)
  · rfl

theorem takeFrame_headers : s.takeFrame.headers = s.headers := by
  unfold takeFrame
  split
  · rfl
  · rfl
  · rfl

theorem prepare_headers (d : Dequeued) (e : SwrAnswers) :
    (s.prepare A d e).headers = s.headers := by
  unfold AudioThread.prepare
  dsimp only
  split
  · rfl
  · rfl

theorem display_headers {now : ℚ} {e : SwrAnswers} (h : s.display A now e = some t) :
    t.headers = s.headers ++ (s.nextHeader A (.display now e)).toList := by
  by_cases hcut : ∃ d rest, s.pc = .cutting d rest
  · obtain ⟨d, rest, hpc⟩ := hcut
    simp only [display, hpc] at h
    obtain rfl := Option.some.inj h
    exact cut_headers d rest now e hpc
  · have hno : ∀ d rest, s.pc ≠ .cutting d rest := fun d rest hpc => hcut ⟨d, rest, hpc⟩
    rw [nextHeader_eq_none now e hno, Option.toList_none, List.append_nil]
    unfold display at h
    split at h
    case h_2 =>
      obtain rfl := Option.some.inj h
      exact takeFrame_headers
    case h_8 d _ =>
      obtain rfl := Option.some.inj h
      exact prepare_headers d e
    case h_9 d rest hpc => exact absurd hpc (hno d rest)
    case h_14 => cases h
    all_goals
      obtain rfl := Option.some.inj h
      rfl

/-- A step stores the header that it is said to, and no other one. -/
theorem step_headers {a : AudioThreadAct} (h : s.step A a = some t) :
    t.headers = s.headers ++ (s.nextHeader A a).toList := by
  cases a with
  | display now e => exact display_headers h
  | callback | close | decoder | setVolume | clock | restart =>
    have hheaders := (step_beside h fun _ _ ha => by cases ha).2.1
    exact hheaders.trans (List.append_nil _).symm

/-- If the step begins a block in a direct frame, then the `pts` of that frame is the same in
the stream's time base and in samples of the device, up to one sample. -/
def BeginsOnTime (A : AudioSetup W) (s : AudioThread W) (a : AudioThreadAct) : Prop :=
  ∀ b ∈ s.nextHeader A a, A.isDirect b.frame = true →
    |b.frame.pts * (1 - A.timeBase * A.freq)| ≤ 1

instance (s : AudioThread W) (a : AudioThreadAct) : Decidable (BeginsOnTime A s a) :=
  inferInstanceAs (Decidable (∀ b ∈ s.nextHeader A a, _ → _))

/-- Every frame taken has a valid `pts`. -/
def ValidPts (s : AudioThread W) : Prop := ∀ x ∈ s.inputs, x.1.pts ≠ noPts

/-- A step from a state whose headers are right keeps them right if and only if it meets the
condition. -/
theorem HeaderInv.onTime_step {a : AudioThreadAct} (hinv : HeaderInv A s)
    (hnear : A.RescalesNearest) (hs : s.step A a = some t) (hvalid : t.ValidPts)
    (hheaders : ∀ b ∈ s.headers, b.OnTime A) :
    (∀ b ∈ t.headers, b.OnTime A) ↔ BeginsOnTime A s a := by
  have hnext := (hinv.step (step_moves hs)).headers
  rw [step_headers hs] at hnext ⊢
  have hiff : ∀ b ∈ s.nextHeader A a, b.OnTime A ↔
      (A.isDirect b.frame = true → |b.frame.pts * (1 - A.timeBase * A.freq)| ≤ 1) := by
    intro b hb
    obtain ⟨hvalue, e, hin⟩ := hnext b
      (List.mem_append_right _ (Option.mem_toList.mpr hb))
    cases hf : A.isDirect b.frame with
    | true =>
      rw [onTime_direct hf hvalue]
      exact ⟨fun htimes _ => htimes, fun htimes => htimes rfl⟩
    | false => simp [onTime_converted hnear hf (hvalid _ hin) hvalue]
  constructor
  · intro hall b hb
    exact (hiff b hb).mp (hall b (List.mem_append_right _ (Option.mem_toList.mpr hb)))
  · intro hbegin b hb
    rcases List.mem_append.mp hb with hb | hb
    · exact hheaders b hb
    · have hmem := Option.mem_toList.mp hb
      exact (hiff b hmem).mpr (hbegin b hmem)

end AudioThread

open AudioThread

/-- In a run that converts no frame behind a direct one, and in which no block begins in a direct
frame whose `pts` differs by more than one sample between the time bases, no freed frame is used
and every header is right up to one sample; and a step from such a run keeps this if and only if
it meets the condition. -/
theorem block_times (A : AudioSetup W) (hnear : A.RescalesNearest) (memory : Nat → UInt8)
    (sync : ClockSync) (volume channelVolume : Int) (s : AudioThread W)
    (h : ReachIf (step A) (fun s a => ConvertsAlive A s a ∧ BeginsOnTime A s a)
      (start A memory sync volume channelVolume) s)
    (hvalid : ∀ x ∈ s.inputs, x.1.pts ≠ noPts) :
    (s.resampler.usedFreed = false ∧
      ∀ b ∈ s.headers, |b.value - (b.frame.pts * A.timeBase + b.index / A.freq)| ≤ 1 / A.freq) ∧
      ∀ a t, s.step A a = some t → (∀ x ∈ t.inputs, x.1.pts ≠ noPts) →
        ((t.resampler.usedFreed = false ∧ ∀ b ∈ t.headers,
            |b.value - (b.frame.pts * A.timeBase + b.index / A.freq)| ≤ 1 / A.freq) ↔
          ConvertsAlive A s a ∧ BeginsOnTime A s a) := by
  have hinv : HeaderInv A s ∧ OutAlive A s.inputs ∧
      (s.ValidPts → ∀ b ∈ s.headers, b.OnTime A) := by
    refine ReachIf.invariant (I := fun s => HeaderInv A s ∧ OutAlive A s.inputs ∧
      (s.ValidPts → ∀ b ∈ s.headers, b.OnTime A)) h
      ⟨⟨nofun, nofun⟩, atEach_nil, fun _ => nofun⟩ ?_
    rintro t a u ⟨hinv, halive, htimes⟩ ⟨hconvert, hok⟩ hs
    refine ⟨hinv.step (step_moves hs), (outAlive_step hs).mpr ⟨halive, hconvert⟩, fun hvalid => ?_⟩
    have hbefore : t.ValidPts := fun x hx => hvalid x ((step_moves hs).inputs_grow.subset hx)
    exact (hinv.onTime_step hnear hs hvalid (htimes hbefore)).mpr hok
  obtain ⟨hheaders, halive, htimes⟩ := hinv
  have hconv := converting_of_reach (h.mono fun _ _ _ => trivial)
  refine ⟨⟨hconv.used.mpr halive, htimes hvalid⟩, fun a t hs hvalid' => ?_⟩
  rw [(hconv.step (step_moves hs)).used, outAlive_step hs, and_iff_right halive]
  exact and_congr_right fun _ => hheaders.onTime_step hnear hs hvalid' (htimes hvalid)

theorem libavRescale_near (a : Int) (b c : ℚ) :
    |(libavRescale a b c : ℚ) - a * b / c| ≤ 1 / 2 := by
  unfold libavRescale
  generalize (a * b / c : ℚ) = x
  split
  · have hle := Int.floor_le (x + 1 / 2)
    have hlt := Int.lt_floor_add_one (x + 1 / 2)
    rw [abs_le]
    constructor <;> linarith
  · have hle := Int.le_ceil (x - 1 / 2)
    have hlt := Int.ceil_lt_add_one (x - 1 / 2)
    rw [abs_le]
    constructor <;> linarith

theorem smallDevice_rescalesNearest (timeBase : ℚ) : (smallDevice timeBase).RescalesNearest :=
  fun a b c _ => libavRescale_near a b c

/-- One frame is cut. -/
def cutOne (f : AVFrame) : List AudioThreadAct :=
  [.decoder (some f)] ++ displaySteps 6 (goodAnswers 1 fun _ => 1)

theorem block_times_same_base :
    ∃ s : AudioThread 64, s.headers.length = 1 ∧
      ∀ b ∈ s.headers, |b.value - (b.frame.pts * (1 / 8000) + b.index / 8000)| ≤ 1 / 8000 := by
  obtain ⟨s, hs, hp⟩ := reach_of_any
    (guarded (step (smallDevice (1 / 8000))) fun s a =>
      ConvertsAlive (smallDevice (1 / 8000)) s a ∧ BeginsOnTime (smallDevice (1 / 8000)) s a)
    (start (smallDevice (1 / 8000)) (fun _ => 0) audioOnly 128 128)
    (cutOne (stereoFrame .s16 8000 1 8))
    (fun s => s.headers.length = 1 ∧ s.inputs.all fun x => x.1.pts ≠ noPts) (by decide +kernel)
  simp only [Bool.decide_and, Bool.and_eq_true, decide_eq_true_eq, List.all_eq_true] at hp
  have htimes := (block_times _ (smallDevice_rescalesNearest _) _ _ _ _ s
    (reachIf_of_guarded hs) hp.2).1.2
  exact ⟨s, hp.1, htimes⟩

/-- In a stream with a time base of a millisecond the frame at 8 ms gets a header of 1 ms. -/
theorem direct_header_off :
    ∃ s : AudioThread 64,
      Reach (step (smallDevice (1 / 1000)))
        (start (smallDevice (1 / 1000)) (fun _ => 0) audioOnly 128 128) s ∧
      (∀ x ∈ s.inputs, x.1.pts ≠ noPts) ∧
      ∃ b ∈ s.headers, ¬ |b.value - (b.frame.pts * (1 / 1000) + b.index / 8000)| ≤ 1 / 8000 := by
  obtain ⟨s, hs, hp⟩ := reach_of_any (step (smallDevice (1 / 1000)))
    (start (smallDevice (1 / 1000)) (fun _ => 0) audioOnly 128 128)
    (cutOne (stereoFrame .s16 8000 1 8))
    (fun s => (s.inputs.all fun x => x.1.pts ≠ noPts) ∧ s.headers.any fun b =>
      !(|b.value - (b.frame.pts * (1 / 1000) + b.index / 8000)| ≤ 1 / 8000)) (by decide +kernel)
  simp only [Bool.decide_and, Bool.and_eq_true, decide_eq_true_eq, List.all_eq_true,
    List.any_eq_true, Bool.not_eq_true', decide_eq_false_iff_not] at hp
  exact ⟨s, hs, hp⟩

end VideoPlayerCore
