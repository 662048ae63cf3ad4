import VideoPlayerCore.AudioThread

/-!
# The frames of one run of `Audio::_displayThread`

The thread frees a frame at the end of the pass that took it, and `out` behind its loop.
`out` is its own frame if it was made for a conversion, but the frame just taken if that one
needs no conversion; then it is freed twice.

    no frame goes the direct path → used only until it is freed, and freed in the end
    when `close` is through: this is so ↔ no frame went the direct path
                                                            (audio_frames_freed_once)
-/

namespace VideoPlayerCore

open Ledgers Machine

variable {W : Nat} {A : AudioSetup W}

/-- Every frame obtained was freed. -/
def AllFreed (ledger : List (Entry Nat)) : Prop := ∀ i, .alloc i ∈ ledger → .free i ∈ ledger

namespace Resampler

variable {r r' : Resampler} {f : AVFrame} {id : Nat} {e : SwrAnswers} {out : Option OutFrame}

/-- The thread's own frame. -/
def own (r : Resampler) : List Nat := (r.out.map OutFrame.id).toList

theorem own_of_some {o : OutFrame} (h : r.out = some o) : r.own = [o.id] := by
  unfold own
  rw [h]
  rfl

theorem own_of_none (h : r.out = none) : r.own = [] := by
  unfold own
  rw [h]
  rfl

/-- The thread owns the frames `held` and its own one, and ids are given once. -/
structure Owns (held : List Nat) (r : Resampler) : Prop where
  accounts : Accounts r.ledger (held ++ r.own)
  fresh : ∀ i, .alloc i ∈ r.ledger → i < r.nextId

variable {held : List Nat}

theorem Owns.new (h : Owns held r) : .alloc r.nextId ∉ r.ledger := by
  intro hin
  exact Nat.lt_irrefl _ (h.fresh _ hin)

theorem Owns.use (h : Owns held r) {i : Nat} (hi : i ∈ held ++ r.own) :
    Owns held (r.log [.use i]) := by
  refine ⟨.use i h.accounts hi, fun j hj => ?_⟩
  rcases List.mem_append.mp hj with hj | hj
  · exact h.fresh j hj
  · cases List.mem_singleton.mp hj

theorem Owns.obtain (h : Owns held r) : Owns (r.nextId :: held) r.obtain := by
  refine ⟨.alloc r.nextId h.accounts h.new, fun j hj => ?_⟩
  rcases List.mem_append.mp hj with hj | hj
  · exact Nat.lt_succ_of_lt (h.fresh j hj)
  · obtain ⟨rfl⟩ := List.mem_singleton.mp hj
    exact Nat.lt_succ_self _

theorem Owns.free {i : Nat} (h : Owns (i :: held) r) : Owns held (r.log [.free i]) := by
  refine ⟨.free i h.accounts, fun j hj => ?_⟩
  rcases List.mem_append.mp hj with hj | hj
  · exact h.fresh j hj
  · cases List.mem_singleton.mp hj

theorem own_release (i : Nat) : (r.release i).own = r.own := by
  unfold own Resampler.release log
  cases r.out <;> rfl

/-- The end of a pass. -/
theorem Owns.release {i : Nat} (h : Owns (i :: held) r) : Owns held (r.release i) := by
  obtain ⟨haccounts, hfresh⟩ := h.free
  refine ⟨?_, hfresh⟩
  rw [own_release]
  exact haccounts

/-! ## The conversion path -/

theorem Owns.openContext {c : Option SwrContext} (h : Owns held r)
    (hs : r.openContext A f e = (r', c)) : Owns held r' := by
  obtain ⟨hout, hid, hledger, -⟩ := openContext_keeps hs
  refine ⟨?_, ?_⟩
  · unfold own
    rw [hledger, hout]
    exact h.accounts
  · rw [hledger, hid]
    exact h.fresh

theorem Owns.openOut (h : Owns held r) (hs : r.openOut A f e = (r', out)) :
    Owns held r' ∧ ∀ o, out = some o → r'.out = some o := by
  unfold Resampler.openOut at hs
  split at hs
  · next o hout =>
    cases hs
    have hmem : o.id ∈ held ++ r.own := by
      rw [own_of_some hout]
      exact List.mem_append_right _ (List.mem_singleton.mpr rfl)
    have huse := h.use hmem
    have haccounts := huse.accounts
    rw [own_of_some (r := r.log [.use o.id]) hout] at haccounts
    refine ⟨⟨?_, ?_⟩, fun o' ho => ho⟩
    · rw [own_of_some rfl, OutFrame.resize_id, OutFrame.find_id]
      exact haccounts
    · exact huse.fresh
  · next hout =>
    split at hs
    · cases hs
      have hobtain := h.obtain
      refine ⟨⟨?_, ?_⟩, fun o ho => ?_⟩
      · have haccounts := hobtain.accounts
        rw [own_of_none (r := r.obtain) hout, List.append_nil] at haccounts
        have hmoved := haccounts.move (List.perm_append_singleton r.nextId held).symm
        exact hmoved
      · exact hobtain.fresh
      · split at ho
        · cases ho
          rfl
        · cases ho
    · cases hs
      exact ⟨h, nofun⟩

theorem Owns.convert {c : SwrContext} {o : OutFrame} (h : Owns held r) (ho : r.out = some o)
    (hid : id ∈ held) (hs : r.convert A f id e c o = (r', out)) :
    Owns held r' ∧ ∀ o', out = some o' → r'.out = some o' := by
  unfold Resampler.convert at hs
  cases hs
  have hown : r.own = [o.id] := own_of_some ho
  have huse := (h.use (i := o.id) (by simp [hown])).use (i := id) (List.mem_append_left _ hid)
  refine ⟨⟨?_, ?_⟩, fun o' ho' => ?_⟩
  · have haccounts := huse.accounts
    rw [show ((r.log [.use o.id]).log [.use id]).own = [o.id] from hown] at haccounts
    rw [own_of_some rfl, OutFrame.receive_id]
    simpa [log] using haccounts
  · intro j hj
    exact huse.fresh j (by simpa [log] using hj)
  · split at ho'
    · cases ho'
    · exact ho'

theorem Owns.resample (h : Owns held r) (hid : id ∈ held)
    (hs : r.resample A f id e = (r', out)) :
    Owns held r' ∧ ∀ o, out = some o → r'.out = some o := by
  obtain ⟨hctx, rfl⟩ | ⟨r₁, c, hctx, hopen, rfl⟩ | ⟨r₁, c, r₂, o, hctx, hopen, hconvert⟩ :=
    resample_cases hs
  · exact ⟨h.openContext hctx, nofun⟩
  · exact ⟨((h.openContext hctx).openOut hopen).1, nofun⟩
  · obtain ⟨h₂, ho⟩ := (h.openContext hctx).openOut hopen
    exact h₂.convert (ho o rfl) hid hconvert

theorem Owns.prepare (h : Owns held r) (hid : id ∈ held) (hf : A.isDirect f = false)
    (hs : r.prepare A f id e = (r', out)) :
    Owns held r' ∧ ∀ o, out = some o → r'.out = some o := by
  rw [prepare_converted hf] at hs
  exact (h.use (List.mem_append_left _ hid)).resample hid hs

theorem Owns.exit (h : Owns [] r) : Owns [] r.free := by
  cases hout : r.out with
  | none =>
    have hledger : r.free.ledger = r.ledger := by
      unfold Resampler.free
      simp [hout]
    refine ⟨?_, ?_⟩
    · rw [hledger]
      have haccounts := h.accounts
      rw [own_of_none hout] at haccounts
      exact haccounts
    · rw [hledger]
      exact h.fresh
  | some o =>
    have hledger : r.free.ledger = r.ledger ++ [.free o.id] := by
      unfold Resampler.free
      simp [hout]
    have haccounts := h.accounts
    rw [own_of_some hout] at haccounts
    refine ⟨?_, ?_⟩
    · rw [hledger]
      exact .free o.id haccounts
    · intro i hi
      rw [hledger] at hi
      rcases List.mem_append.mp hi with hi | hi
      · exact h.fresh i hi
      · cases List.mem_singleton.mp hi

end Resampler

namespace AudioThread

variable {s t : AudioThread W}

/-! ## Runs without a direct frame -/

/-- The thread owns the frame of its pass and its own one, into which `data` points. -/
structure Tidy (pc : DisplayPc) (r : Resampler) : Prop where
  owns : r.Owns pc.held
  owner : ∀ d rest, pc.job = some (d, rest) → r.own = [rest.owner]
  gone : pc = .exited → r.out = none

theorem Tidy.idle {pc : DisplayPc} {r : Resampler} (h : r.Owns []) (hheld : pc.held = [])
    (hjob : pc.job = none) (hpc : pc ≠ .exited) : Tidy pc r := by
  refine ⟨?_, fun d rest hj => ?_, fun he => absurd he hpc⟩
  · rw [hheld]
    exact h
  · rw [hjob] at hj
    cases hj

theorem Tidy.busy {d : Dequeued} {rest : Rest} {pc : DisplayPc} {r : Resampler}
    (h : r.Owns [d.id]) (hown : r.own = [rest.owner]) (hheld : pc.held = [d.id])
    (hjob : pc.job = some (d, rest)) : Tidy pc r := by
  refine ⟨?_, fun d' rest' hj => ?_, fun he => ?_⟩
  · rw [hheld]
    exact h
  · rw [hjob] at hj
    cases hj
    exact hown
  · rw [he] at hjob
    cases hjob

theorem Tidy.step (h : Tidy s.pc s.resampler) (hall : Converted A t.inputs)
    (hs : s.Moves A t) : Tidy t.pc t.resampler := by
  obtain ⟨howns, howner, hgone⟩ := h
  cases hs with
  | aside | consume | poll | sleep => exact ⟨howns, howner, hgone⟩
  | drain => exact ⟨howns.obtain.free, howner, hgone⟩
  | begin hpc | leave hpc | idle hpc | marker _ hpc | flush hpc | drained hpc | resetWrite hpc
  | resetRead hpc | clear _ hpc =>
    rw [hpc] at howns
    exact .idle howns rfl rfl nofun
  | take f queue hpc =>
    rw [hpc] at howns
    exact ⟨howns.obtain, nofun, nofun⟩
  | skip d e r hpc hprepare =>
    rw [hpc] at howns
    have hd := (converted_concat.mp hall).2
    exact ⟨(howns.prepare (List.mem_singleton.mpr rfl) hd hprepare).1, nofun, nofun⟩
  | prepare d e r o hpc hprepare =>
    rw [hpc] at howns
    have hd := (converted_concat.mp hall).2
    obtain ⟨hr, ho⟩ := howns.prepare (List.mem_singleton.mpr rfl) hd hprepare
    have hown : r.own = [o.id] := Resampler.own_of_some (ho o rfl)
    have huse : (r.log [.use o.id]).Owns [d.id] := by
      apply hr.use
      rw [hown]
      exact List.mem_append_right _ (List.mem_singleton.mpr rfl)
    exact .busy huse (show r.own = [(restOf A o).owner] from hown) rfl rfl
  | done d rest hpc =>
    rw [hpc] at howns
    exact ⟨howns, nofun, nofun⟩
  | beginWrite d rest b hpc | resume d rest hpc | wait d rest _ hpc | play d rest _ hpc =>
    rw [hpc] at howns howner
    exact .busy howns (howner d rest rfl) rfl rfl
  | fill d rest hpc =>
    rw [hpc] at howns howner
    have hown := howner d rest rfl
    have huse : (s.resampler.log [.use rest.owner]).Owns [d.id] := by
      apply howns.use
      rw [hown]
      exact List.mem_append_right _ (List.mem_singleton.mpr rfl)
    have hown' : s.resampler.own = [(rest.advance (s.blocks.fillOf A rest)).owner] := hown
    exact .busy huse hown' rfl rfl
  | endLoop d hpc =>
    rw [hpc] at howns
    exact .idle howns.release rfl rfl nofun
  | exit hpc =>
    rw [hpc] at howns
    exact ⟨howns.exit, nofun, fun _ => rfl⟩

/-- `close` gets behind its wait when the thread is gone. -/
theorem waited_step (h : s.closing.waited = true → s.pc = .exited) (hs : s.Moves A t) :
    t.closing.waited = true → t.pc = .exited := by
  intro hwaited
  cases hs with
  | aside _ _ _ _ _ _ hclosing _ =>
    rcases hclosing hwaited with hbefore | hexited
    · exact h hbefore
    · exact hexited
  | consume | drain | poll | sleep => exact h hwaited
  | begin hpc | leave hpc | idle hpc | marker _ hpc | take _ _ hpc | flush hpc | drained hpc
  | resetWrite hpc | resetRead hpc | clear _ hpc | skip _ _ _ hpc | prepare _ _ _ _ hpc
  | done _ _ hpc | beginWrite _ _ _ hpc | resume _ _ hpc | wait _ _ _ hpc | play _ _ _ hpc
  | fill _ _ hpc | endLoop _ hpc =>
    have hexited := h hwaited
    rw [hpc] at hexited
    cases hexited
  | exit => rfl

/-! ## Runs with a direct frame -/

end AudioThread

namespace Resampler

variable {r r' : Resampler} {f : AVFrame} {id : Nat} {e : SwrAnswers} {out : Option OutFrame}
  {o : OutFrame}

theorem log_grows (entries : List (Entry Nat)) : r.ledger <+: (r.log entries).ledger :=
  List.prefix_append _ _

theorem openOut_grows (hs : r.openOut A f e = (r', out)) : r.ledger <+: r'.ledger := by
  unfold Resampler.openOut at hs
  split at hs
  · cases hs
    exact List.prefix_append _ _
  · split at hs
    · cases hs
      exact List.prefix_append _ _
    · cases hs
      exact List.prefix_rfl

theorem openContext_grows {c : Option SwrContext} (hs : r.openContext A f e = (r', c)) :
    r.ledger <+: r'.ledger := by
  obtain ⟨-, -, hledger, -⟩ := openContext_keeps hs
  exact hledger ▸ List.prefix_rfl

theorem resample_grows (hs : r.resample A f id e = (r', out)) : r.ledger <+: r'.ledger := by
  obtain ⟨hctx, -⟩ | ⟨r₁, c, hctx, hopen, -⟩ | ⟨r₁, c, r₂, o, hctx, hopen, hconvert⟩ :=
    resample_cases hs
  · exact openContext_grows hctx
  · exact (openContext_grows hctx).trans (openOut_grows hopen)
  · cases hconvert
    exact ((openContext_grows hctx).trans (openOut_grows hopen)).trans (log_grows _)

theorem prepare_grows (hs : r.prepare A f id e = (r', out)) : r.ledger <+: r'.ledger := by
  cases hf : A.isDirect f with
  | true =>
    rw [prepare_direct hf] at hs
    cases hs
    exact log_grows _
  | false =>
    rw [prepare_converted hf] at hs
    exact (log_grows _).trans (resample_grows hs)

/-- A conversion keeps the frame that `out` points to. -/
theorem openOut_out {o' : Option OutFrame} (hout : r.out = some o)
    (hs : r.openOut A f e = (r', o')) :
    o' = some ((o.find e.stale).resize (A.outSamples f)) ∧ r'.out = o' := by
  unfold Resampler.openOut at hs
  rw [hout] at hs
  cases hs
  exact ⟨rfl, rfl⟩

theorem resample_out (hout : r.out = some o) (hs : r.resample A f id e = (r', out)) :
    ∃ o', r'.out = some o' ∧ o'.id = o.id := by
  obtain ⟨hctx, -⟩ | ⟨r₁, c, hctx, hopen, -⟩ | ⟨r₁, c, r₂, o₂, hctx, hopen, hconvert⟩ :=
    resample_cases hs
  · exact ⟨o, (openContext_keeps hctx).1.trans hout, rfl⟩
  · cases (openOut_out ((openContext_keeps hctx).1.trans hout) hopen).1
  · obtain rfl := Option.some.inj (openOut_out ((openContext_keeps hctx).1.trans hout) hopen).1
    cases hconvert
    exact ⟨_, rfl, by rw [OutFrame.receive_id, OutFrame.resize_id, OutFrame.find_id]⟩

theorem prepare_out (hf : A.isDirect f = false) (hout : r.out = some o)
    (hs : r.prepare A f id e = (r', out)) : ∃ o', r'.out = some o' ∧ o'.id = o.id := by
  rw [prepare_converted hf] at hs
  exact resample_out (r := r.log [.use id]) hout hs

end Resampler

namespace AudioThread

variable {s t : AudioThread W}

/-- `out` points to a frame that is freed, or will be at the end of the pass. -/
structure Dangling (pc : DisplayPc) (r : Resampler) (o : OutFrame) : Prop where
  running : pc ≠ .exited
  out : r.out = some o
  freed : .free o.id ∈ r.ledger ∨ o.id ∈ pc.held

/-- The ledger is broken, or it will be when `out` is freed. -/
def Doomed (pc : DisplayPc) (r : Resampler) : Prop :=
  ¬ UsedAlive r.ledger ∨ ∃ o, Dangling pc r o

theorem not_usedAlive_grows {r r' : Resampler} (h : ¬ UsedAlive r.ledger)
    (hgrows : r.ledger <+: r'.ledger) : ¬ UsedAlive r'.ledger := by
  obtain ⟨entries, heq⟩ := hgrows
  intro halive
  rw [← heq] at halive
  exact h halive.of_append

theorem Doomed.grow {pc pc' : DisplayPc} {r r' : Resampler} (h : Doomed pc r)
    (hgrows : r.ledger <+: r'.ledger) (hout : r'.out = r.out) (hheld : pc.held ⊆ pc'.held)
    (hpc : pc' = .exited → pc = .exited) : Doomed pc' r' := by
  rcases h with hbroken | ⟨o, hrunning, ho, hfreed⟩
  · exact .inl (not_usedAlive_grows hbroken hgrows)
  · refine .inr ⟨o, fun he => hrunning (hpc he), hout.trans ho, ?_⟩
    exact hfreed.imp (fun hin => hgrows.subset hin) fun hin => hheld hin

/-- A direct frame is what `out` points to, until it is freed and behind that. -/
theorem doomed_of_direct {d : Dequeued} {e : SwrAnswers} {r r' : Resampler}
    {out : Option OutFrame} {pc : DisplayPc} (hf : A.isDirect d.frame = true)
    (hs : r.prepare A d.frame d.id e = (r', out)) (hheld : pc.held = [d.id])
    (hpc : pc ≠ .exited) : Doomed pc r' := by
  rw [Resampler.prepare_direct hf] at hs
  cases hs
  refine .inr ⟨_, hpc, rfl, .inr ?_⟩
  rw [hheld]
  exact List.mem_singleton.mpr rfl

theorem Doomed.prepare {d : Dequeued} {e : SwrAnswers} {r r' : Resampler} {out : Option OutFrame}
    {pc : DisplayPc} (h : Doomed (.converting d) r) (hf : A.isDirect d.frame = false)
    (hs : r.prepare A d.frame d.id e = (r', out)) (hheld : pc.held = [d.id])
    (hpc : pc ≠ .exited) : Doomed pc r' := by
  rcases h with hbroken | ⟨o, -, ho, hfreed⟩
  · exact .inl (not_usedAlive_grows hbroken (Resampler.prepare_grows hs))
  · obtain ⟨o', ho', hid⟩ := Resampler.prepare_out hf ho hs
    refine .inr ⟨o', hpc, ho', ?_⟩
    rw [hid, hheld]
    exact hfreed.imp_left fun hin => (Resampler.prepare_grows hs).subset hin

/-- Either all frames so far were converted, or the ledger will not come out right. -/
theorem prepare_doomed {d : Dequeued} {e : SwrAnswers} {r r' : Resampler} {out : Option OutFrame}
    {pc : DisplayPc} {inputs : List (AVFrame × SwrAnswers)}
    (h : Converted A inputs ∨ Doomed (.converting d) r)
    (hs : r.prepare A d.frame d.id e = (r', out)) (hheld : pc.held = [d.id])
    (hpc : pc ≠ .exited) : Converted A (inputs ++ [(d.frame, e)]) ∨ Doomed pc r' := by
  cases hf : A.isDirect d.frame with
  | true => exact .inr (doomed_of_direct hf hs hheld hpc)
  | false =>
    rcases h with hall | hdoomed
    · refine .inl fun x hx => ?_
      rcases List.mem_append.mp hx with hx | hx
      · exact hall x hx
      · rw [List.mem_singleton.mp hx]
        exact hf
    · exact .inr (hdoomed.prepare hf hs hheld hpc)

/-- The end of the pass frees the frame that `out` may point to. -/
theorem Doomed.endLoop {d : Dequeued} {r : Resampler} (h : Doomed (.endLoop d) r) :
    Doomed .top (r.release d.id) := by
  rcases h with hbroken | ⟨o, -, ho, hfreed⟩
  · exact .inl (not_usedAlive_grows hbroken (List.prefix_append _ _))
  · have hout : (r.release d.id).out = some (o.release d.id) := by
      show r.out.map _ = _
      rw [ho, Option.map_some]
    refine .inr ⟨o.release d.id, nofun, hout, .inl ?_⟩
    rw [OutFrame.release_id]
    rcases hfreed with hin | hin
    · exact List.mem_append_left _ hin
    · rw [List.mem_singleton.mp hin]
      exact List.mem_append_right _ (List.mem_singleton.mpr rfl)

/-- Behind the loop `out` is freed, once more. -/
theorem Doomed.exit {r : Resampler} (h : Doomed .leaving r) : ¬ UsedAlive r.free.ledger := by
  rcases h with hbroken | ⟨o, -, ho, hfreed⟩
  · exact not_usedAlive_grows hbroken (List.prefix_append _ _)
  · have hin := hfreed.resolve_right List.not_mem_nil
    have hledger : r.free.ledger = r.ledger ++ [.free o.id] := by
      unfold Resampler.free
      simp [ho]
    rw [hledger]
    exact not_usedAlive_of_free hin

theorem doomed_step (h : Converted A s.inputs ∨ Doomed s.pc s.resampler) (hs : s.Moves A t) :
    Converted A t.inputs ∨ Doomed t.pc t.resampler := by
  cases hs with
  | aside | consume | poll | sleep => exact h
  | drain =>
    have hgrows := (List.prefix_append s.resampler.ledger [.alloc s.resampler.nextId]).trans
      (List.prefix_append _ [.free s.resampler.nextId])
    exact h.imp_right fun hd => hd.grow hgrows rfl (List.Subset.refl _) id
  | begin hpc | leave hpc | idle hpc | marker _ hpc | flush hpc | drained hpc | resetWrite hpc
  | resetRead hpc | clear _ hpc =>
    rw [hpc] at h
    exact h.imp_right fun hd => hd.grow List.prefix_rfl rfl (List.nil_subset _) nofun
  | take f queue hpc =>
    rw [hpc] at h
    exact h.imp_right fun hd => hd.grow (List.prefix_append _ _) rfl (List.nil_subset _) nofun
  | done d rest hpc | beginWrite d rest b hpc | resume d rest hpc | wait d rest _ hpc
  | play d rest _ hpc =>
    rw [hpc] at h
    exact h.imp_right fun hd => hd.grow List.prefix_rfl rfl (List.Subset.refl _) nofun
  | fill d rest hpc =>
    rw [hpc] at h
    exact h.imp_right fun hd => hd.grow (Resampler.log_grows _) rfl (List.Subset.refl _) nofun
  | skip d e r hpc hprepare =>
    rw [hpc] at h
    exact prepare_doomed h hprepare rfl nofun
  | prepare d e r o hpc hprepare =>
    rw [hpc] at h
    have hcut : Converted A (s.inputs ++ [(d.frame, e)]) ∨ Doomed (.cutting d (restOf A o)) r :=
      prepare_doomed h hprepare rfl nofun
    exact hcut.imp_right fun hd =>
      hd.grow (Resampler.log_grows _) rfl (List.Subset.refl _) nofun
  | endLoop d hpc =>
    rw [hpc] at h
    exact h.imp_right Doomed.endLoop
  | exit hpc =>
    rw [hpc] at h
    exact h.imp_right fun hd => .inl hd.exit

/-- Once the thread is gone, `out` is nowhere. -/
theorem Doomed.exited {r : Resampler} (h : Doomed .exited r) : ¬ UsedAlive r.ledger := by
  rcases h with hbroken | ⟨o, hrunning, -, -⟩
  · exact hbroken
  · exact absurd rfl hrunning

end AudioThread

open AudioThread

section Runs

variable {memory : Nat → UInt8} {sync : ClockSync} {volume channelVolume : Int}
  {s : AudioThread W}

theorem tidy_of_reach (h : Reach (step A) (start A memory sync volume channelVolume) s)
    (hall : Converted A s.inputs) : Tidy s.pc s.resampler := by
  have hinv : Converted A s.inputs → Tidy s.pc s.resampler := by
    refine Reach.invariant (I := fun s => Converted A s.inputs → Tidy s.pc s.resampler) h
      (fun _ => .idle ⟨.nil, nofun⟩ rfl rfl nofun) fun t a u hI hs hall => ?_
    have hmoves := step_moves hs
    have hbefore : Converted A t.inputs := fun x hx => hall x (hmoves.inputs_grow.subset hx)
    exact (hI hbefore).step hall hmoves
  exact hinv hall

theorem exited_of_waited (h : Reach (step A) (start A memory sync volume channelVolume) s)
    (hwaited : s.closing.waited = true) : s.pc = .exited := by
  have hinv : s.closing.waited = true → s.pc = .exited :=
    Reach.invariant (I := fun s => s.closing.waited = true → s.pc = .exited) h nofun
      fun _ _ _ hI hs => waited_step hI (step_moves hs)
  exact hinv hwaited

theorem doomed_of_reach (h : Reach (step A) (start A memory sync volume channelVolume) s) :
    Converted A s.inputs ∨ Doomed s.pc s.resampler :=
  Reach.invariant (I := fun s => Converted A s.inputs ∨ Doomed s.pc s.resampler) h
    (.inl fun _ hx => absurd hx List.not_mem_nil) fun _ _ _ hI hs => doomed_step hI (step_moves hs)

theorem all_freed_of_closed (h : Reach (step A) (start A memory sync volume channelVolume) s)
    (hall : Converted A s.inputs) (hclosed : s.closing = .closed) :
    AllFreed s.resampler.ledger := by
  have htidy := tidy_of_reach h hall
  have hexited := exited_of_waited h (by rw [hclosed]; rfl)
  have haccounts := htidy.owns.accounts
  rw [Resampler.own_of_none (htidy.gone hexited), hexited] at haccounts
  exact fun i hi => haccounts.all_freed hi

end Runs

/-- Without a direct frame every frame is used only until it is freed, and all are freed when
`close` is through; and when it is through, this is so only without a direct frame. -/
theorem audio_frames_freed_once (A : AudioSetup W) (memory : Nat → UInt8) (sync : ClockSync)
    (volume channelVolume : Int) (s : AudioThread W)
    (h : Reach (step A) (start A memory sync volume channelVolume) s) :
    ((∀ x ∈ s.inputs, A.isDirect x.1 = false) →
      UsedAlive s.resampler.ledger ∧ (s.closing = .closed → AllFreed s.resampler.ledger)) ∧
    (s.closing = .closed →
      (UsedAlive s.resampler.ledger ∧ AllFreed s.resampler.ledger ↔
        ∀ x ∈ s.inputs, A.isDirect x.1 = false)) := by
  have henough : (∀ x ∈ s.inputs, A.isDirect x.1 = false) →
      UsedAlive s.resampler.ledger ∧ (s.closing = .closed → AllFreed s.resampler.ledger) :=
    fun hall => ⟨(tidy_of_reach h hall).owns.accounts.usedAlive, all_freed_of_closed h hall⟩
  refine ⟨henough, fun hclosed => ⟨fun hlaw => ?_, fun hall => ?_⟩⟩
  · rcases doomed_of_reach h with hall | hdoomed
    · exact hall
    · rw [exited_of_waited h (by rw [hclosed]; rfl)] at hdoomed
      exact absurd hlaw.1 hdoomed.exited
  · exact ⟨(henough hall).1, (henough hall).2 hclosed⟩

/-- One frame is played, then `close` is called. -/
def playOne (format : AVSampleFormat) : List AudioThreadAct :=
  [.decoder (some (stereoFrame format 8000 1 0))] ++ displaySteps 8 (goodAnswers 1 fun _ => 1) ++
    [.close, .close] ++ displaySteps 2 (goodAnswers 1 fun _ => 1) ++ [.close, .close]

theorem audio_frames_freed_once_converted :
    ∃ s : AudioThread 64, s.closing = .closed ∧ s.inputs ≠ [] ∧ UsedAlive s.resampler.ledger ∧
      AllFreed s.resampler.ledger := by
  obtain ⟨s, hs, hp⟩ := reach_of_any (step (smallDevice (1 / 8000)))
    (start (smallDevice (1 / 8000)) (fun _ => 0) audioOnly 128 128) (playOne .flt)
    (fun s => s.closing = .closed ∧ s.inputs.length = 1 ∧
      s.inputs.all fun x => !(smallDevice (1 / 8000)).isDirect x.1) (by decide +kernel)
  simp only [Bool.decide_and, Bool.and_eq_true, decide_eq_true_eq, List.all_eq_true,
    Bool.not_eq_true'] at hp
  obtain ⟨hclosed, hone, hall⟩ := hp
  obtain ⟨halive, hfreed⟩ := (audio_frames_freed_once _ _ _ _ _ s hs).1 hall
  refine ⟨s, hclosed, ?_, halive, hfreed hclosed⟩
  rintro hnil
  simp [hnil] at hone

/-- A frame of the device's format is freed at the end of its pass and again behind the
loop. -/
theorem direct_frame_freed_twice :
    ∃ s : AudioThread 64,
      Reach (step (smallDevice (1 / 8000)))
        (start (smallDevice (1 / 8000)) (fun _ => 0) audioOnly 128 128) s ∧
      s.closing = .closed ∧ ¬ UsedAlive s.resampler.ledger := by
  obtain ⟨s, hs, hp⟩ := reach_of_any (step (smallDevice (1 / 8000)))
    (start (smallDevice (1 / 8000)) (fun _ => 0) audioOnly 128 128) (playOne .s16)
    (fun s => s.closing = .closed ∧ s.resampler.ledger =
      [.alloc 0, .use 0, .use 0, .use 0, .free 0] ++ [.free 0]) (by decide +kernel)
  obtain ⟨hclosed, hledger⟩ := of_decide_eq_true hp
  refine ⟨s, hs, hclosed, ?_⟩
  rw [hledger]
  exact not_usedAlive_of_free (by decide)

end VideoPlayerCore
