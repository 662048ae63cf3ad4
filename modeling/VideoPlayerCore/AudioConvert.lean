import VideoPlayerCore.AudioOut
import VideoPlayerCore.Histories

/-!
# The calls of `swr_convert`

The context is made for the first frame to be converted, and the buffer of `out` for the first
one that gets past it.  Neither is made again for a later frame.

    every output count fits the buffer  ↔  no converted frame needs more samples than the
                                           frame that `out` was made for      (output_fits)
    every call has the right context    ↔  the device has two channels, and every converted
                                           frame is like the one that the context was made
                                           for, initialised                   (context_fits)

A direct frame is freed at the end of its pass, but `out` points to it until the next direct
one.  A frame that is converted in between makes the behaviour undefined:

    no freed frame is used as `out`     ↔  no frame gets past the context behind a direct one
                                                                      (Converting.used)
-/

namespace VideoPlayerCore

open Histories Machine

variable {W : Nat} (A : AudioSetup W)

/-- A frame that the thread has taken, with the answers of the library for it. -/
abbrev Input := AVFrame × SwrAnswers

/-! ## What is made for which frame -/

/-- The frame that the context is made for. -/
def contextFrame (inputs : List Input) : Option Input :=
  first (fun _ x => !A.isDirect x.1 && x.2.alloc) inputs

/-- The frame is to be converted and gets past the context. -/
def getsContext (before : List Input) (x : Input) : Bool :=
  !A.isDirect x.1 && ((contextFrame A before).isSome || x.2.alloc && x.2.init)

/-- The frame that `out` is set for first. -/
def outFrame (inputs : List Input) : Option Input :=
  first (fun before x => A.isDirect x.1 || getsContext A before x && x.2.frame) inputs

/-- The frame gets as far as `swr_convert`. -/
def isConverted (before : List Input) (x : Input) : Bool :=
  getsContext A before x && ((outFrame A before).isSome || x.2.frame && x.2.buffer)

/-- No frame is converted into `out` when that points to a frame that went the direct path, and
was freed. -/
def OutAlive (inputs : List Input) : Prop :=
  AtEach (fun before x => getsContext A before x = true → Converted A before) inputs

/-- The samples that the buffer of `out` is allocated for, made for this frame. -/
def bufferSamples (x : Input) : Nat := if x.2.buffer then (A.outSamples x.1).toNat else 0

theorem contextFrame_concat (inputs : List Input) (x : Input) :
    contextFrame A (inputs ++ [x]) =
      (contextFrame A inputs).or (if (!A.isDirect x.1 && x.2.alloc) = true then some x else none) :=
  first_concat

theorem outFrame_concat (inputs : List Input) (x : Input) :
    outFrame A (inputs ++ [x]) =
      (outFrame A inputs).or
        (if (A.isDirect x.1 || getsContext A inputs x && x.2.frame) = true then some x
        else none) :=
  first_concat

/-! ## What the code has by then -/

/-- `out` behind `inputs`. -/
structure OutFits (inputs : List Input) (out : Option OutFrame) : Prop where
  made : out.isSome = (outFrame A inputs).isSome
  device : OutAlive A inputs → ∀ o ∈ out,
    o.format = A.forceFormat.av ∧ o.channels = A.channels
  capacity : Converted A inputs → ∀ o ∈ out, ∀ g ∈ outFrame A inputs,
    o.capacity = bufferSamples A g

/-- `_swrContext` and `out` behind `inputs`. -/
structure Follows (inputs : List Input) (r : Resampler) : Prop where
  context : r.swrContext = (contextFrame A inputs).map fun x => A.contextFor x.1 x.2.init
  out : OutFits A inputs r.out

/-- The call of `swr_convert` for the frame `x` behind `inputs`. -/
structure CallFor (inputs : List Input) (x : Input) (call : SwrCall) : Prop where
  frame : call.frame = x.1
  context : ∃ c ∈ contextFrame A (inputs ++ [x]), call.context = A.contextFor c.1 c.2.init
  count : call.out.nbSamples = A.outSamples x.1
  device : OutAlive A (inputs ++ [x]) →
    call.out.format = A.forceFormat.av ∧ call.out.channels = A.channels
  capacity : Converted A (inputs ++ [x]) → ∃ g ∈ outFrame A (inputs ++ [x]),
    call.out.capacity = bufferSamples A g

variable {A} {inputs : List Input} {f : AVFrame} {e : SwrAnswers} {id : Nat} {r r' : Resampler}

theorem outAlive_concat {x : Input} :
    OutAlive A (inputs ++ [x]) ↔
      OutAlive A inputs ∧ (getsContext A inputs x = true → Converted A inputs) := atEach_concat

theorem OutAlive.of_prefix {later : List Input} (h : OutAlive A later) (hle : inputs <+: later) :
    OutAlive A inputs := by
  obtain ⟨more, rfl⟩ := hle
  rintro before x after rfl
  exact h before x (after ++ more) (by rw [List.append_assoc, List.cons_append])

theorem outAlive_direct {x : Input} (hx : A.isDirect x.1 = true) :
    OutAlive A (inputs ++ [x]) ↔ OutAlive A inputs := by
  rw [outAlive_concat, and_iff_left]
  intro hgets
  simp [getsContext, hx] at hgets

/-- Where all frames are direct ones, none is converted. -/
theorem OutAlive.of_direct (h : ∀ x ∈ inputs, A.isDirect x.1 = true) : OutAlive A inputs := by
  intro before x after heq hgets
  have hx := h x (heq ▸ List.mem_append_right _ List.mem_cons_self)
  simp [getsContext, hx] at hgets

theorem follows_start : Follows A [] {} := ⟨rfl, rfl, nofun, nofun⟩

/-- The context behind `if (!_swrContext) { .. }`. -/
theorem Follows.openContext {c : Option SwrContext} (h : Follows A inputs r)
    (hf : A.isDirect f = false) (hs : r.openContext A f e = (r', c)) :
    r'.swrContext =
        (contextFrame A (inputs ++ [(f, e)])).map (fun x => A.contextFor x.1 x.2.init) ∧
      (if getsContext A inputs (f, e) then c.isSome = true ∧ c = r'.swrContext else c = none) := by
  have hcontext := h.context
  rw [contextFrame_concat]
  unfold Resampler.openContext at hs
  unfold getsContext
  cases hframe : contextFrame A inputs with
  | some g =>
    rw [hframe] at hcontext
    rw [hcontext] at hs
    cases hs
    simp [hf, hcontext]
  | none =>
    rw [hframe] at hcontext
    rw [hcontext] at hs
    dsimp only [Option.map_none] at hs
    cases halloc : e.alloc with
    | false =>
      simp only [halloc, Bool.false_eq_true, if_false] at hs
      cases hs
      simp [hf, hcontext]
    | true =>
      simp only [halloc, if_true] at hs
      cases hs
      cases hinit : e.init with
      | false => simp [hf, hinit]
      | true => simp [hf, hinit]

/-- A frame that changes nothing about `out`. -/
theorem OutFits.skip {out : Option OutFrame} (h : OutFits A inputs out)
    (hf : A.isDirect f = false) (hgets : (getsContext A inputs (f, e) && e.frame) = false) :
    OutFits A (inputs ++ [(f, e)]) out := by
  have hsame : outFrame A (inputs ++ [(f, e)]) = outFrame A inputs := by
    rw [outFrame_concat, hf, Bool.false_or, hgets]
    exact Option.or_none
  obtain ⟨hmade, hdevice, hcapacity⟩ := h
  rw [← hsame] at hmade hcapacity
  exact ⟨hmade, fun hall => hdevice (outAlive_concat.mp hall).1,
    fun hall => hcapacity (converted_concat.mp hall).1⟩

/-- Only format, channels and buffer of `out` matter. -/
theorem OutFits.change {o o' : OutFrame} (h : OutFits A inputs (some o))
    (hformat : o'.format = o.format) (hchannels : o'.channels = o.channels)
    (hcapacity : o'.capacity = o.capacity) : OutFits A inputs (some o') := by
  refine ⟨h.made, ?_, ?_⟩
  · rintro hall o'' ⟨⟩
    rw [hformat, hchannels]
    exact h.device hall o rfl
  · rintro hall o'' ⟨⟩ g hg
    rw [hcapacity]
    exact h.capacity hall o rfl g hg

theorem OutFits.resize {o : OutFrame} (h : OutFits A inputs (some o)) (n : Int) :
    OutFits A inputs (some (o.resize n)) := h.change rfl rfl rfl

theorem OutFits.receive {o : OutFrame} (h : OutFits A inputs (some o)) (pts : Int)
    (e : SwrAnswers) : OutFits A inputs (some (o.receive pts e)) := h.change rfl rfl rfl

theorem OutFits.release {out : Option OutFrame} (h : OutFits A inputs out) (id : Nat) :
    OutFits A inputs (out.map fun o => o.release id) := by
  cases out with
  | none => exact h
  | some o => exact h.change rfl rfl rfl

/-- A frame for which `out` is there already. -/
theorem OutFits.again {o : OutFrame} (h : OutFits A inputs (some o)) :
    OutFits A (inputs ++ [(f, e)]) (some o) := by
  obtain ⟨g, hg⟩ := Option.isSome_iff_exists.mp h.made.symm
  have hsame : outFrame A (inputs ++ [(f, e)]) = outFrame A inputs := by
    rw [outFrame_concat, hg]
    rfl
  obtain ⟨hmade, hdevice, hcapacity⟩ := h
  rw [← hsame] at hmade hcapacity
  exact ⟨hmade, fun hall => hdevice (outAlive_concat.mp hall).1,
    fun hall => hcapacity (converted_concat.mp hall).1⟩

/-- A conversion into `out` finds the frame, unless that was freed. -/
theorem OutFits.find {o : OutFrame} (h : OutFits A inputs (some o))
    (hgets : getsContext A inputs (f, e) = true)
    (hfreed : o.freed = true ↔ ¬ Converted A inputs) :
    OutFits A (inputs ++ [(f, e)]) (some (o.find e.stale)) := by
  cases hdead : o.freed with
  | false =>
    rw [OutFrame.find_of_alive hdead]
    exact h.again
  | true =>
    have hnot := hfreed.mp hdead
    exact ⟨h.again.made, fun hall => absurd ((outAlive_concat.mp hall).2 hgets) hnot,
      fun hall => absurd (converted_concat.mp hall).1 hnot⟩

/-- The frame that `out` is made for. -/
theorem OutFits.make (h : OutFits A inputs none)
    (hgets : getsContext A inputs (f, e) = true) (hframe : e.frame = true) :
    OutFits A (inputs ++ [(f, e)]) (some (r.newOut A f e)) := by
  have hnone : outFrame A inputs = none := Option.isNone_iff_eq_none.mp (by simpa using h.made.symm)
  have hnew : outFrame A (inputs ++ [(f, e)]) = some (f, e) := by
    rw [outFrame_concat, hnone]
    simp [hgets, hframe]
  refine ⟨by rw [hnew]; rfl, ?_, ?_⟩
  · rintro - o ⟨⟩
    exact ⟨rfl, rfl⟩
  · rintro - o ⟨⟩ g hg
    rw [hnew] at hg
    cases hg
    rfl

/-- `out` behind `if (!out) { .. } else { .. }`. -/
theorem OutFits.openOut {o : Option OutFrame} (h : OutFits A inputs r.out)
    (hf : A.isDirect f = false) (hgets : getsContext A inputs (f, e) = true)
    (hfreed : ∀ o ∈ r.out, o.freed = true ↔ ¬ Converted A inputs)
    (hs : r.openOut A f e = (r', o)) :
    r'.swrContext = r.swrContext ∧ r'.calls = r.calls ∧
      r'.usedFreed = (r.usedFreed || r.out.any OutFrame.freed) ∧
      OutFits A (inputs ++ [(f, e)]) r'.out ∧
      (if isConverted A inputs (f, e) then
        ∃ o', o = some o' ∧ r'.out = some o' ∧ o'.nbSamples = A.outSamples f
      else o = none) := by
  have hmade := h.made
  unfold Resampler.openOut at hs
  unfold isConverted
  cases hout : r.out with
  | some o₁ =>
    rw [hout] at hs h hmade
    cases hs
    have hsome : (outFrame A inputs).isSome = true := hmade.symm
    refine ⟨rfl, rfl, rfl, (h.find hgets (hfreed o₁ hout)).resize _, ?_⟩
    rw [hgets, hsome]
    exact ⟨(o₁.find e.stale).resize (A.outSamples f), rfl, rfl, OutFrame.resize_nbSamples _ _⟩
  | none =>
    rw [hout] at hs h hmade
    have hnone : (outFrame A inputs).isSome = false := hmade.symm
    rw [hgets, hnone]
    cases hframe : e.frame with
    | false =>
      simp only [hframe, Bool.false_eq_true, if_false] at hs
      cases hs
      refine ⟨rfl, rfl, (Bool.or_false _).symm, ?_, rfl⟩
      rw [hout]
      exact h.skip hf (by rw [hframe, Bool.and_false])
    | true =>
      simp only [hframe, if_true] at hs
      cases hs
      refine ⟨rfl, rfl, (Bool.or_false _).symm, h.make hgets hframe, ?_⟩
      cases hbuffer : e.buffer with
      | false => rfl
      | true => exact ⟨_, rfl, rfl, rfl⟩

/-- What a frame adds to the calls. -/
def Outcome (A : AudioSetup W) (inputs : List Input) (x : Input) (calls calls' : List SwrCall) :
    Prop :=
  if isConverted A inputs x then ∃ call, calls' = calls ++ [call] ∧ CallFor A inputs x call
  else calls' = calls

theorem Follows.direct (h : Follows A inputs r) (hf : A.isDirect f = true) :
    Follows A (inputs ++ [(f, e)]) { r.log [.use id] with out := some (f.asOut id) } := by
  have hcontext : contextFrame A (inputs ++ [(f, e)]) = contextFrame A inputs := by
    rw [contextFrame_concat, hf]
    exact Option.or_none
  have hmade : (outFrame A (inputs ++ [(f, e)])).isSome = true := by
    rw [outFrame_concat, hf]
    cases outFrame A inputs with
    | none => rfl
    | some g => rfl
  obtain ⟨hformat, -, hchannels⟩ := A.isDirect_iff.mp hf
  refine ⟨?_, hmade.symm, ?_, ?_⟩
  · rw [hcontext]
    exact h.context
  · rintro - o ⟨⟩
    exact ⟨hformat, hchannels⟩
  · intro hall
    have hnot := (converted_concat.mp hall).2
    rw [hf] at hnot
    cases hnot

theorem callFor {c : SwrContext} {o : OutFrame}
    (hcontext : some c =
      (contextFrame A (inputs ++ [(f, e)])).map fun x => A.contextFor x.1 x.2.init)
    (hout : OutFits A (inputs ++ [(f, e)]) (some o)) (hcount : o.nbSamples = A.outSamples f) :
    CallFor A inputs (f, e) { context := c, out := o, frame := f } := by
  refine ⟨rfl, ?_, hcount, fun hall => hout.device hall o rfl, fun hall => ?_⟩
  · obtain ⟨g, hg, hgc⟩ := Option.map_eq_some_iff.mp hcontext.symm
    exact ⟨g, hg, hgc.symm⟩
  · obtain ⟨g, hg⟩ := Option.isSome_iff_exists.mp hout.made.symm
    exact ⟨g, hg, hout.capacity hall o rfl g hg⟩

theorem Follows.resample {out : Option OutFrame} (h : Follows A inputs r)
    (hf : A.isDirect f = false) (hfreed : ∀ o ∈ r.out, o.freed = true ↔ ¬ Converted A inputs)
    (hs : r.resample A f id e = (r', out)) :
    Follows A (inputs ++ [(f, e)]) r' ∧ Outcome A inputs (f, e) r.calls r'.calls ∧
      r'.usedFreed =
        (r.usedFreed || (getsContext A inputs (f, e) && r.out.any OutFrame.freed)) := by
  unfold Resampler.resample at hs
  unfold Outcome
  cases hctx : r.openContext A f e with
  | mk r₁ c =>
    obtain ⟨hcontext, hc⟩ := h.openContext hf hctx
    obtain ⟨hout₁, -, -, hcalls₁, hused₁⟩ := Resampler.openContext_keeps hctx
    have hfits := h.out
    rw [← hout₁] at hfits hfreed ⊢
    rw [hctx] at hs
    cases hgets : getsContext A inputs (f, e) with
    | false =>
      simp only [hgets, Bool.false_eq_true, if_false] at hc
      subst hc
      cases hs
      have hnot : isConverted A inputs (f, e) = false := by
        unfold isConverted
        rw [hgets, Bool.false_and]
      rw [hnot]
      refine ⟨⟨hcontext, hfits.skip hf (by rw [hgets, Bool.false_and])⟩, hcalls₁, ?_⟩
      rw [Bool.false_and, Bool.or_false]
      exact hused₁
    | true =>
      simp only [hgets, if_true] at hc
      obtain ⟨hsome, rfl⟩ := hc
      obtain ⟨c, hc⟩ := Option.isSome_iff_exists.mp hsome
      rw [hc] at hs
      cases hopen : r₁.openOut A f e with
      | mk r₂ o =>
        obtain ⟨hcontext₂, hcalls₂, hused₂, hfits₂, ho⟩ := hfits.openOut hf hgets hfreed hopen
        rw [hused₁] at hused₂
        rw [Bool.true_and]
        dsimp only at hs
        rw [hopen] at hs
        cases hconv : isConverted A inputs (f, e) with
        | false =>
          simp only [hconv, Bool.false_eq_true, if_false] at ho
          subst ho
          cases hs
          exact ⟨⟨hcontext₂.trans hcontext, hfits₂⟩, hcalls₂.trans hcalls₁, hused₂⟩
        | true =>
          simp only [hconv, if_true] at ho
          obtain ⟨o, rfl, hout₂, hcount⟩ := ho
          rw [hout₂] at hfits₂
          cases hs
          refine ⟨⟨hcontext₂.trans hcontext, hfits₂.receive _ _⟩,
            ⟨{ context := c, out := o, frame := f }, ?_,
              callFor (hc.symm.trans hcontext) hfits₂ hcount⟩, hused₂⟩
          show r₂.calls ++ _ = _
          rw [hcalls₂, hcalls₁]

theorem Follows.prepare {out : Option OutFrame} (h : Follows A inputs r)
    (hfreed : ∀ o ∈ r.out, o.freed = true ↔ ¬ Converted A inputs)
    (hs : r.prepare A f id e = (r', out)) :
    Follows A (inputs ++ [(f, e)]) r' ∧ Outcome A inputs (f, e) r.calls r'.calls ∧
      r'.usedFreed =
        (r.usedFreed || (getsContext A inputs (f, e) && r.out.any OutFrame.freed)) := by
  cases hf : A.isDirect f with
  | true =>
    have hgets : getsContext A inputs (f, e) = false := by
      unfold getsContext
      rw [hf]
      rfl
    rw [Resampler.prepare_direct hf] at hs
    cases hs
    refine ⟨h.direct hf, ?_, ?_⟩
    · unfold Outcome isConverted
      rw [hgets]
      rfl
    · rw [hgets, Bool.false_and, Bool.or_false]
      rfl
  | false =>
    rw [Resampler.prepare_converted hf] at hs
    have hlogged : Follows A inputs (r.log [.use id]) := ⟨h.context, h.out⟩
    exact hlogged.resample hf hfreed hs

/-! ## All calls of a run -/

/-- `calls` are those for `inputs`, in order. -/
inductive Listed (A : AudioSetup W) : List Input → List SwrCall → Prop
  | nil : Listed A [] []
  | concat {inputs : List Input} {calls calls' : List SwrCall} {x : Input} :
      Listed A inputs calls → Outcome A inputs x calls calls' → Listed A (inputs ++ [x]) calls'

/-- What holds of a call by its frame and those before it. -/
theorem Listed.forall_iff {P : SwrCall → Prop} {Q : List Input → Input → Prop}
    {R : List Input → Prop} {calls : List SwrCall} (h : Listed A inputs calls) (hr : R inputs)
    (hback : ∀ inputs x, R (inputs ++ [x]) → R inputs)
    (hcall : ∀ inputs x call, R (inputs ++ [x]) → CallFor A inputs x call →
      (P call ↔ Q inputs x)) :
    (∀ call ∈ calls, P call) ↔
      AtEach (fun before x => isConverted A before x = true → Q before x) inputs := by
  induction h with
  | nil => exact ⟨fun _ => atEach_nil, fun _ _ hin => absurd hin List.not_mem_nil⟩
  | @concat inputs calls calls' x _ hout ih =>
    rw [atEach_concat, ← ih (hback _ _ hr)]
    unfold Outcome at hout
    cases hconv : isConverted A inputs x with
    | false =>
      simp only [hconv, Bool.false_eq_true, if_false] at hout
      rw [hout]
      refine ⟨fun hall => ⟨hall, fun hc => ?_⟩, fun hall => hall.1⟩
      cases hc
    | true =>
      simp only [hconv, if_true] at hout
      obtain ⟨call, rfl, hfor⟩ := hout
      rw [List.forall_mem_append, List.forall_mem_singleton, hcall _ _ _ hr hfor]
      exact and_congr_right fun _ => ⟨fun hq _ => hq, fun hq => hq rfl⟩

namespace AudioThread

variable {s t : AudioThread W}

/-- The thread has the context and `out` of its inputs, and made their calls. -/
structure Converting (A : AudioSetup W) (s : AudioThread W) : Prop where
  follows : s.pc ≠ .exited → Follows A s.inputs s.resampler
  listed : Listed A s.inputs s.resampler.calls
  lives : OutLives A s.pc s.inputs s.resampler
  used : s.resampler.usedFreed = false ↔ OutAlive A s.inputs

theorem converting_start (A : AudioSetup W) (memory : Nat → UInt8) (sync : ClockSync)
    (volume channelVolume : Int) : Converting A (start A memory sync volume channelVolume) :=
  ⟨fun _ => follows_start, .nil, .start, fun _ => atEach_nil, fun _ => rfl⟩

theorem Converting.input {d : Dequeued} {e : SwrAnswers} {r : Resampler} {out : Option OutFrame}
    (h : Converting A s) (hpc : s.pc = .converting d)
    (hs : s.resampler.prepare A d.frame d.id e = (r, out)) :
    Follows A (s.inputs ++ [(d.frame, e)]) r ∧ Listed A (s.inputs ++ [(d.frame, e)]) r.calls ∧
      (r.usedFreed = false ↔ OutAlive A (s.inputs ++ [(d.frame, e)])) := by
  have hfollows := h.follows (by rw [hpc]; nofun)
  have hlives := h.lives
  rw [hpc] at hlives
  obtain ⟨hnext, hout, hused⟩ := hfollows.prepare hlives.freed_iff hs
  refine ⟨hnext, h.listed.concat hout, ?_⟩
  have hany : s.resampler.out.any OutFrame.freed = false ↔ Converted A s.inputs := by
    rw [← Bool.not_eq_true, hlives.any_freed, not_not]
  rw [hused, Bool.or_eq_false_iff, Bool.and_eq_false_imp, h.used, hany, outAlive_concat]

theorem Converting.step (h : Converting A s) (hs : s.Moves A t) : Converting A t := by
  have hlives := outLives_step h.lives hs
  obtain ⟨hfollows, hlisted, -, hused⟩ := id h
  cases hs with
  | aside | consume | poll | sleep => exact ⟨hfollows, hlisted, hlives, hused⟩
  | drain =>
    exact ⟨fun hpc => ⟨(hfollows hpc).context, (hfollows hpc).out⟩, hlisted, hlives, hused⟩
  | skip d e r hpc hprepare =>
    obtain ⟨hnext, hcalls, hused'⟩ := h.input hpc hprepare
    exact ⟨fun _ => hnext, hcalls, hlives, hused'⟩
  | prepare d e r o hpc hprepare =>
    obtain ⟨hnext, hcalls, hused'⟩ := h.input hpc hprepare
    exact ⟨fun _ => ⟨hnext.context, hnext.out⟩, hcalls, hlives, hused'⟩
  | exit => exact ⟨fun hpc => absurd rfl hpc, hlisted, hlives, hused⟩
  | endLoop d hpc =>
    have hnow := hfollows (by rw [hpc]; nofun)
    exact ⟨fun _ => ⟨hnow.context, hnow.out.release d.id⟩, hlisted, hlives, hused⟩
  | begin hpc | leave hpc | idle hpc | marker _ hpc | flush hpc | drained hpc | resetWrite hpc
  | resetRead hpc | clear _ hpc | done _ _ hpc | beginWrite _ _ _ hpc | resume _ _ hpc
  | wait _ _ _ hpc | play _ _ _ hpc | take _ _ hpc | fill _ _ hpc =>
    have hnow := hfollows (by rw [hpc]; nofun)
    exact ⟨fun _ => ⟨hnow.context, hnow.out⟩, hlisted, hlives, hused⟩

/-! ## The next frame -/

/-- The frame that the step takes to be cut or converted. -/
def nextInput (s : AudioThread W) : AudioThreadAct → Option Input
  | .display _ e =>
    match s.pc with
    | .converting d => some (d.frame, e)
    | _ => none
  | _ => none

theorem step_inputs {a : AudioThreadAct} (h : s.step A a = some t) :
    t.inputs = s.inputs ++ (s.nextInput a).toList := by
  cases a with
  | callback | close | decoder | setVolume | clock | restart =>
    have hinputs := (step_beside h fun _ _ ha => by cases ha).2.2
    exact hinputs.trans (List.append_nil _).symm
  | display now e =>
    unfold nextInput
    cases hpc : s.pc <;> simp only [step, display, hpc] at h
    case exited => cases h
    all_goals obtain rfl := Option.some.inj h
    case reading =>
      unfold takeFrame
      split <;> exact (List.append_nil _).symm
    case converting d =>
      unfold AudioThread.prepare
      dsimp only
      split <;> rfl
    case cutting d rest =>
      unfold cut
      dsimp only
      repeat' split
      all_goals exact (List.append_nil _).symm
    all_goals exact (List.append_nil _).symm

/-- The step converts no frame behind a direct one. -/
def ConvertsAlive (A : AudioSetup W) (s : AudioThread W) (a : AudioThreadAct) : Prop :=
  ∀ x ∈ s.nextInput a, getsContext A s.inputs x = true → Converted A s.inputs

instance (s : AudioThread W) (a : AudioThreadAct) : Decidable (ConvertsAlive A s a) :=
  inferInstanceAs (Decidable (∀ x ∈ s.nextInput a, _ → _))

theorem outAlive_step {a : AudioThreadAct} (h : s.step A a = some t) :
    OutAlive A t.inputs ↔ OutAlive A s.inputs ∧ ConvertsAlive A s a := by
  rw [step_inputs h]
  unfold ConvertsAlive
  cases s.nextInput a with
  | none =>
    rw [Option.toList_none, List.append_nil]
    exact (and_iff_left fun x hx => absurd hx (Option.not_mem_none x)).symm
  | some x =>
    rw [Option.toList_some, outAlive_concat]
    exact and_congr_right fun _ => ⟨fun hx y hy => Option.mem_some.mp hy ▸ hx, fun hx => hx x rfl⟩

end AudioThread

open AudioThread

section Runs

variable {memory : Nat → UInt8} {sync : ClockSync} {volume channelVolume : Int}
  {s : AudioThread W}

theorem converting_of_reach (h : Reach (step A) (start A memory sync volume channelVolume) s) :
    Converting A s :=
  Reach.invariant (I := Converting A) h (converting_start A memory sync volume channelVolume)
    fun _ _ _ hI hs => hI.step (step_moves hs)

end Runs

/-- A run whose frames are all converted writes into no buffer more than it was allocated
for, if and only if no frame that reaches `swr_convert` needs more than the one that `out` was
made for. -/
theorem output_fits (A : AudioSetup W) (memory : Nat → UInt8) (sync : ClockSync)
    (volume channelVolume : Int) (s : AudioThread W)
    (h : Reach (step A) (start A memory sync volume channelVolume) s)
    (hall : ∀ x ∈ s.inputs, A.isDirect x.1 = false) :
    (∀ call ∈ s.resampler.calls, call.out.nbSamples ≤ call.out.capacity) ↔
      ∀ before x after, s.inputs = before ++ x :: after → isConverted A before x = true →
        ∀ g ∈ outFrame A (before ++ [x]), A.outSamples x.1 ≤ bufferSamples A g := by
  refine (converting_of_reach h).listed.forall_iff (R := Converted A) hall
    (fun _ _ hr => (converted_concat.mp hr).1) fun inputs x call hr hcall => ?_
  obtain ⟨g, hg, hcapacity⟩ := hcall.capacity hr
  rw [hcall.count, hcapacity]
  constructor
  · rintro hle g' hg'
    obtain rfl := Option.mem_unique hg hg'
    exact hle
  · exact fun hle => hle g hg

/-- Two frames are converted into no samples. -/
def convertTwo (f g : AVFrame) : List AudioThreadAct :=
  [.decoder (some f), .decoder (some g)] ++ displaySteps 8 (goodAnswers 0 fun _ => 1)

theorem output_fits_two_frames :
    ∃ s : AudioThread 64, s.resampler.calls.length = 2 ∧
      ∀ before x after, s.inputs = before ++ x :: after →
        isConverted (smallDevice (1 / 8000)) before x = true →
        ∀ g ∈ outFrame (smallDevice (1 / 8000)) (before ++ [x]),
          (smallDevice (1 / 8000)).outSamples x.1 ≤ bufferSamples (smallDevice (1 / 8000)) g := by
  obtain ⟨s, hs, hp⟩ := reach_of_any (step (smallDevice (1 / 8000)))
    (start (smallDevice (1 / 8000)) (fun _ => 0) audioOnly 128 128)
    (convertTwo (stereoFrame .flt 8000 2 0) (stereoFrame .flt 8000 1 2))
    (fun s => s.resampler.calls.length = 2 ∧
      (s.inputs.all fun x => !(smallDevice (1 / 8000)).isDirect x.1) ∧
      s.resampler.calls.all fun call => call.out.nbSamples ≤ call.out.capacity) (by decide +kernel)
  simp only [Bool.decide_and, Bool.and_eq_true, decide_eq_true_eq, List.all_eq_true,
    Bool.not_eq_true'] at hp
  obtain ⟨htwo, hall, hfit⟩ := hp
  exact ⟨s, htwo, (output_fits _ _ _ _ _ s hs hall).mp hfit⟩

/-- The second frame is a thousand times longer than the first one. -/
theorem longer_frame_overruns :
    ∃ s : AudioThread 64,
      Reach (step (smallDevice (1 / 8000)))
        (start (smallDevice (1 / 8000)) (fun _ => 0) audioOnly 128 128) s ∧
      (∀ x ∈ s.inputs, (smallDevice (1 / 8000)).isDirect x.1 = false) ∧
      ∃ call ∈ s.resampler.calls, ¬ call.out.nbSamples ≤ call.out.capacity := by
  obtain ⟨s, hs, hp⟩ := reach_of_any (step (smallDevice (1 / 8000)))
    (start (smallDevice (1 / 8000)) (fun _ => 0) audioOnly 128 128)
    (convertTwo (stereoFrame .flt 8000 1 0) (stereoFrame .flt 8000 1000 1))
    (fun s => (s.inputs.all fun x => !(smallDevice (1 / 8000)).isDirect x.1) ∧
      s.resampler.calls.any fun call => !(call.out.nbSamples ≤ call.out.capacity))
    (by decide +kernel)
  simp only [Bool.decide_and, Bool.and_eq_true, decide_eq_true_eq, List.all_eq_true,
    List.any_eq_true, Bool.not_eq_true', decide_eq_false_iff_not] at hp
  exact ⟨s, hs, hp⟩

/-- No freed frame is used as `out` and every call has an initialised context for its frame and
for the device, if and only if no frame is converted behind a direct one, and none reaches
`swr_convert` but on a device with two channels, and with the format, rate and channel count of
the frame whose context was made and initialised. -/
theorem context_fits (A : AudioSetup W) (memory : Nat → UInt8) (sync : ClockSync)
    (volume channelVolume : Int) (s : AudioThread W)
    (h : Reach (step A) (start A memory sync volume channelVolume) s) :
    (s.resampler.usedFreed = false ∧ ∀ call ∈ s.resampler.calls,
      call.context.initialised = true ∧ call.context.inFormat = call.frame.format ∧
      call.context.inRate = call.frame.sampleRate ∧
      call.context.inChannels = call.frame.channels ∧
      call.context.outFormat = call.out.format ∧ call.context.outRate = A.freq ∧
      call.context.outChannels = call.out.channels) ↔
      OutAlive A s.inputs ∧
      ∀ before x after, s.inputs = before ++ x :: after → isConverted A before x = true →
        A.channels = 2 ∧ ∀ c ∈ contextFrame A (before ++ [x]), c.2.init = true ∧
          c.1.format = x.1.format ∧ c.1.sampleRate = x.1.sampleRate ∧
          c.1.channels = x.1.channels := by
  have hconv := converting_of_reach h
  rw [hconv.used]
  refine and_congr_right fun hall => hconv.listed.forall_iff (R := OutAlive A) hall
    (fun _ _ hr => (outAlive_concat.mp hr).1) fun inputs x call hr hcall => ?_
  obtain ⟨c, hc, hcontext⟩ := hcall.context
  obtain ⟨hformat, hchannels⟩ := hcall.device hr
  rw [hcontext, hcall.frame, hformat, hchannels]
  constructor
  · rintro ⟨hinit, hin, hrate, hch, -, -, htwo⟩
    refine ⟨htwo.symm, fun c' hc' => ?_⟩
    obtain rfl := Option.mem_unique hc hc'
    exact ⟨hinit, hin, hrate, hch⟩
  · rintro ⟨htwo, hlike⟩
    obtain ⟨hinit, hin, hrate, hch⟩ := hlike c hc
    exact ⟨hinit, hin, hrate, hch, rfl, rfl, htwo.symm⟩

theorem context_fits_two_frames :
    ∃ s : AudioThread 64, s.resampler.calls.length = 2 ∧
      OutAlive (smallDevice (1 / 8000)) s.inputs ∧
      ∀ before x after, s.inputs = before ++ x :: after →
        isConverted (smallDevice (1 / 8000)) before x = true →
        (smallDevice (1 / 8000)).channels = 2 ∧
        ∀ c ∈ contextFrame (smallDevice (1 / 8000)) (before ++ [x]), c.2.init = true ∧
          c.1.format = x.1.format ∧ c.1.sampleRate = x.1.sampleRate ∧
          c.1.channels = x.1.channels := by
  obtain ⟨s, hs, hp⟩ := reach_of_any (step (smallDevice (1 / 8000)))
    (start (smallDevice (1 / 8000)) (fun _ => 0) audioOnly 128 128)
    (convertTwo (stereoFrame .flt 8000 2 0) (stereoFrame .flt 8000 1 2))
    (fun s => s.resampler.calls.length = 2 ∧ s.resampler.usedFreed = false ∧
      s.resampler.calls.all fun call => call.context.initialised = true ∧
      call.context.inFormat = call.frame.format ∧ call.context.inRate = call.frame.sampleRate ∧
      call.context.inChannels = call.frame.channels ∧
      call.context.outFormat = call.out.format ∧
      call.context.outRate = (smallDevice (1 / 8000)).freq ∧
      call.context.outChannels = call.out.channels) (by decide +kernel)
  obtain ⟨htwo, hused, hfits⟩ := of_decide_eq_true hp
  refine ⟨s, htwo, (context_fits _ _ _ _ _ s hs).mp ⟨hused, fun call hcall => ?_⟩⟩
  exact of_decide_eq_true (List.all_eq_true.mp hfits call hcall)

/-- The second frame has another rate than the one that the context was made for. -/
theorem other_rate_keeps_context :
    ∃ s : AudioThread 64,
      Reach (step (smallDevice (1 / 8000)))
        (start (smallDevice (1 / 8000)) (fun _ => 0) audioOnly 128 128) s ∧
      ∃ call ∈ s.resampler.calls, call.context.inRate ≠ call.frame.sampleRate := by
  obtain ⟨s, hs, hp⟩ := reach_of_any (step (smallDevice (1 / 8000)))
    (start (smallDevice (1 / 8000)) (fun _ => 0) audioOnly 128 128)
    (convertTwo (stereoFrame .flt 8000 1 0) (stereoFrame .flt 4000 1 1))
    (fun s => s.resampler.calls.any fun call => call.context.inRate ≠ call.frame.sampleRate)
    (by decide +kernel)
  refine ⟨s, hs, ?_⟩
  simpa using hp

end VideoPlayerCore
