import VideoPlayerCore.AudioThread

/-!
# The frame that `out` points to

`out` is the thread's own frame until a frame goes the direct path.  From then on it points to
the last frame that did, and that one is freed at the end of its pass.

    what `out` points to is freed, or will be at the end of the pass
      ↔ a frame went the direct path                                     (OutLives.freed)
-/

namespace VideoPlayerCore

open Machine

variable {W : Nat} {A : AudioSetup W}

namespace Resampler

variable {r r' : Resampler} {f : AVFrame} {id : Nat} {e : SwrAnswers}

/-- `out` behind a conversion: there is none, it is new, or it points to the frame that it did. -/
inductive Converts (r r' : Resampler) : Prop
  | none (h : r.out = none) (h' : r'.out = none) (hnext : r'.nextId = r.nextId)
  | new (o : OutFrame) (h : r.out = none) (h' : r'.out = some o) (hid : o.id = r.nextId)
      (hfreed : o.freed = false) (hnext : r'.nextId = r.nextId + 1)
  | keep (o o' : OutFrame) (h : r.out = some o) (h' : r'.out = some o') (hid : o'.id = o.id)
      (hfreed : o'.freed = o.freed) (hnext : r'.nextId = r.nextId)

theorem Converts.refl (r : Resampler) : Converts r r := by
  cases hout : r.out with
  | none => exact .none hout hout rfl
  | some o => exact .keep o o hout hout rfl rfl rfl

theorem converts_openOut {out : Option OutFrame} (hs : r.openOut A f e = (r', out)) :
    Converts r r' ∧ ∀ o, out = some o → r'.out = some o := by
  unfold openOut at hs
  split at hs
  · next o hout =>
    cases hs
    refine ⟨.keep o _ hout rfl ?_ ?_ rfl, fun _ ho => ho⟩
    · rw [OutFrame.resize_id, OutFrame.find_id]
    · rw [OutFrame.resize_freed, OutFrame.find_freed]
  · next hout =>
    split at hs
    · cases hs
      refine ⟨.new _ hout rfl rfl rfl rfl, fun o ho => ?_⟩
      split at ho
      · exact ho
      · cases ho
    · cases hs
      exact ⟨.none hout hout rfl, nofun⟩

theorem converts_resample {out : Option OutFrame} (hs : r.resample A f id e = (r', out)) :
    Converts r r' := by
  have hcontext {c : Option SwrContext} {r₁ r₂ : Resampler}
      (h : r.openContext A f e = (r₁, c)) (h' : Converts r₁ r₂) : Converts r r₂ := by
    obtain ⟨hout, hid, -⟩ := openContext_keeps h
    cases h' with
    | none h h' hnext => exact .none (hout ▸ h) h' (hnext.trans hid)
    | new o h h' hi hfreed hnext =>
      exact .new o (hout ▸ h) h' (hi.trans hid) hfreed (by rw [hnext, hid])
    | keep o o' h h' hi hfreed hnext => exact .keep o o' (hout ▸ h) h' hi hfreed (hnext.trans hid)
  obtain ⟨hctx, -⟩ | ⟨r₁, c, hctx, hopen, -⟩ | ⟨r₁, c, r₂, o, hctx, hopen, hconvert⟩ :=
    resample_cases hs
  · exact hcontext hctx (.refl _)
  · exact hcontext hctx (converts_openOut hopen).1
  · refine hcontext hctx ?_
    obtain ⟨hopened, hout⟩ := converts_openOut hopen
    have ho := hout o rfl
    cases hconvert
    -- `swr_convert` changes what is in the frame
    cases hopened with
    | none h h' hnext =>
      rw [ho] at h'
      cases h'
    | new o₁ h h' hid hfreed hnext =>
      obtain rfl := Option.some.inj (ho.symm.trans h')
      exact .new _ h rfl hid hfreed hnext
    | keep o₁ o₂ h h' hid hfreed hnext =>
      obtain rfl := Option.some.inj (ho.symm.trans h')
      exact .keep o₁ _ h rfl hid hfreed hnext

end Resampler

/-- The frame that `out` points to, at a place of the thread behind `inputs`. -/
structure OutLives (A : AudioSetup W) (pc : DisplayPc) (inputs : List (AVFrame × SwrAnswers))
    (r : Resampler) : Prop where
  lt : ∀ o ∈ r.out, o.id < r.nextId
  held : ∀ i ∈ pc.held, i < r.nextId
  apart : ∀ d, pc = .converting d → ∀ o ∈ r.out, o.id ≠ d.id
  freed : ∀ o ∈ r.out, (o.freed = true ∨ o.id ∈ pc.held) ↔ ¬ Converted A inputs
  made : pc ≠ .exited → r.out = none → Converted A inputs

namespace OutLives

variable {pc pc' : DisplayPc} {inputs : List (AVFrame × SwrAnswers)} {r r' : Resampler}
  {d : Dequeued} {e : SwrAnswers}

theorem start : OutLives A .top [] {} :=
  ⟨nofun, nofun, nofun, nofun, fun _ _ _ hx => absurd hx List.not_mem_nil⟩

/-- Before a conversion, `out` is freed if a frame went the direct path. -/
theorem freed_iff (h : OutLives A (.converting d) inputs r) :
    ∀ o ∈ r.out, o.freed = true ↔ ¬ Converted A inputs := by
  intro o ho
  rw [← h.freed o ho]
  refine ⟨.inl, fun hor => hor.resolve_right fun hmem => ?_⟩
  exact h.apart d rfl o ho (List.mem_singleton.mp hmem)

theorem any_freed (h : OutLives A (.converting d) inputs r) :
    r.out.any OutFrame.freed = true ↔ ¬ Converted A inputs := by
  cases hout : r.out with
  | none =>
    refine ⟨fun hany => ?_, fun hnot => absurd (h.made nofun hout) hnot⟩
    cases hany
  | some o => exact h.freed_iff o hout

/-- Elsewhere the thread has the same frame. -/
theorem move (h : OutLives A pc inputs r) (hheld : pc'.held = pc.held)
    (hpc : ∀ d, pc' ≠ .converting d) (hexit : pc ≠ .exited) : OutLives A pc' inputs r where
  lt := h.lt
  held := by
    rw [hheld]
    exact h.held
  apart d hd := absurd hd (hpc d)
  freed := by
    rw [hheld]
    exact h.freed
  made _ := h.made hexit

theorem log (h : OutLives A pc inputs r) (entries : List (Ledgers.Entry Nat)) :
    OutLives A pc inputs (r.log entries) := ⟨h.lt, h.held, h.apart, h.freed, h.made⟩

theorem obtain (h : OutLives A pc inputs r) : OutLives A pc inputs r.obtain :=
  ⟨fun o ho => Nat.lt_succ_of_lt (h.lt o ho), fun i hi => Nat.lt_succ_of_lt (h.held i hi),
    h.apart, h.freed, h.made⟩

theorem take (h : OutLives A .reading inputs r) (f : AVFrame) :
    OutLives A (.converting { id := r.nextId, frame := f }) inputs r.obtain where
  lt o ho := Nat.lt_succ_of_lt (h.lt o ho)
  held i hi := by
    rw [List.mem_singleton.mp hi]
    exact Nat.lt_succ_self _
  apart d hd o ho := by
    cases hd
    exact Nat.ne_of_lt (h.lt o ho)
  freed o ho := by
    rw [← h.freed o ho]
    refine ⟨fun hor => .inl (hor.resolve_right fun hmem => ?_), fun hor =>
      .inl (hor.resolve_right List.not_mem_nil)⟩
    exact Nat.ne_of_lt (h.lt o ho) (List.mem_singleton.mp hmem)
  made _ := h.made nofun

/-- Behind the conversion path, `out` is as it was, or new. -/
theorem converts (h : OutLives A (.converting d) inputs r) (hs : r.Converts r')
    (hf : A.isDirect d.frame = false) (hheld : pc.held = [d.id]) (hpc : ∀ d, pc ≠ .converting d) :
    OutLives A pc (inputs ++ [(d.frame, e)]) r' := by
  have hid : d.id < r.nextId := h.held d.id (List.mem_singleton.mpr rfl)
  have hall : Converted A (inputs ++ [(d.frame, e)]) ↔ Converted A inputs := by
    rw [converted_concat]
    exact and_iff_left hf
  cases hs with
  | none hout hout' hnext =>
    refine ⟨?_, ?_, fun d hd => absurd hd (hpc d), ?_, fun _ _ => hall.mpr (h.made nofun hout)⟩
    · rw [hout']
      exact nofun
    · rw [hheld, hnext]
      exact h.held
    · rw [hout']
      exact nofun
  | new o hout hout' hnew hfreed hnext =>
    refine ⟨?_, ?_, fun d hd => absurd hd (hpc d), ?_, fun _ _ => hall.mpr (h.made nofun hout)⟩
    · rw [hout', hnext]
      rintro o' ⟨⟩
      rw [hnew]
      exact Nat.lt_succ_self _
    · rw [hheld, hnext]
      exact fun i hi => Nat.lt_succ_of_lt (h.held i hi)
    · rw [hout', hheld]
      rintro o' ⟨⟩
      refine iff_of_false ?_ fun hnot => hnot (hall.mpr (h.made nofun hout))
      rintro (hdead | hmem)
      · rw [hfreed] at hdead
        cases hdead
      · rw [List.mem_singleton.mp hmem] at hnew
        omega
  | keep o o' hout hout' hsame hfreed hnext =>
    refine ⟨?_, ?_, fun d hd => absurd hd (hpc d), ?_, fun _ hnone => ?_⟩
    · rw [hout', hnext]
      rintro o' ⟨⟩
      rw [hsame]
      exact h.lt o hout
    · rw [hheld, hnext]
      exact h.held
    · rw [hout', hheld]
      rintro o' ⟨⟩
      rw [hfreed, hsame, hall]
      exact h.freed o hout
    · rw [hout'] at hnone
      cases hnone

theorem prepare {out : Option OutFrame} (h : OutLives A (.converting d) inputs r)
    (hs : r.prepare A d.frame d.id e = (r', out)) (hheld : pc.held = [d.id])
    (hpc : ∀ d, pc ≠ .converting d) : OutLives A pc (inputs ++ [(d.frame, e)]) r' := by
  cases hf : A.isDirect d.frame with
  | true =>
    rw [Resampler.prepare_direct hf] at hs
    cases hs
    have hid : d.id < r.nextId := h.held d.id (List.mem_singleton.mpr rfl)
    refine ⟨?_, ?_, fun d hd => absurd hd (hpc d), ?_, nofun⟩
    · rintro o ⟨⟩
      exact hid
    · rw [hheld]
      exact h.held
    · rintro o ⟨⟩
      rw [hheld, converted_concat]
      refine iff_of_true (.inr (List.mem_singleton.mpr rfl)) fun hall => ?_
      rw [hf] at hall
      cases hall.2
  | false =>
    rw [Resampler.prepare_converted hf] at hs
    exact (h.log [.use d.id]).converts (Resampler.converts_resample hs) hf hheld hpc

/-- The end of the pass frees the frame of a direct pass. -/
theorem endLoop (h : OutLives A (.endLoop d) inputs r) :
    OutLives A .top inputs (r.release d.id) := by
  have hout : (r.release d.id).out = r.out.map fun o => o.release d.id := rfl
  refine ⟨?_, nofun, nofun, ?_, fun _ hnone => h.made nofun (Option.map_eq_none_iff.mp hnone)⟩
  · intro o' ho'
    obtain ⟨o, ho, rfl⟩ := Option.map_eq_some_iff.mp (hout.symm.trans ho')
    exact h.lt o ho
  · intro o' ho'
    obtain ⟨o, ho, rfl⟩ := Option.map_eq_some_iff.mp (hout.symm.trans ho')
    rw [← h.freed o ho]
    show ((o.freed || o.id == d.id) = true ∨ o.id ∈ []) ↔ (o.freed = true ∨ o.id ∈ [d.id])
    simp

end OutLives

namespace AudioThread

variable {s t : AudioThread W}

theorem outLives_step (h : OutLives A s.pc s.inputs s.resampler) (hs : s.Moves A t) :
    OutLives A t.pc t.inputs t.resampler := by
  cases hs with
  | aside | consume | poll | sleep => exact h
  | drain => exact h.obtain.log _
  | begin hpc | leave hpc | idle hpc | marker _ hpc | flush hpc | drained hpc | resetWrite hpc
  | resetRead hpc | clear _ hpc | done _ _ hpc | beginWrite _ _ _ hpc | resume _ _ hpc
  | wait _ _ _ hpc | play _ _ _ hpc =>
    rw [hpc] at h
    exact h.move rfl nofun nofun
  | take f queue hpc =>
    rw [hpc] at h
    exact h.take f
  | skip d e r hpc hprepare =>
    rw [hpc] at h
    exact h.prepare hprepare rfl nofun
  | prepare d e r o hpc hprepare =>
    rw [hpc] at h
    have hcut : OutLives A (.cutting d (restOf A o)) (s.inputs ++ [(d.frame, e)]) r :=
      h.prepare hprepare rfl nofun
    exact hcut.log _
  | fill d rest hpc =>
    rw [hpc] at h
    have hcut : OutLives A (.cutting d (rest.advance (s.blocks.fillOf A rest))) s.inputs
        s.resampler := h.move rfl nofun nofun
    exact hcut.log _
  | endLoop d hpc =>
    rw [hpc] at h
    exact h.endLoop
  | exit hpc => exact ⟨nofun, nofun, nofun, nofun, fun hexit => absurd rfl hexit⟩

end AudioThread

end VideoPlayerCore
