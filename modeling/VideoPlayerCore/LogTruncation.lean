import VideoPlayerCore.LogFolder

/-!
# Long messages

`_log` lets `vsnprintf` write the message into 512 bytes, of which one is for the terminator:
511 bytes of the message fit.  A message of 512 loses its last byte.  Of a longer one the rest
is to come from a second call, but that one gets the `va_list` which the first call has gone
through, and starts from the beginning of the format.

    arrives text tail = text                              for every tail  ↔ Whole text
    what is pending grows by c.record, whatever the second call makes     ↔ Whole c.text
                                                                        (record_whole_iff)
-/

namespace VideoPlayerCore

open Machine LogState

/-- The message fits, or its last byte is the terminator's. -/
def Whole (text : Bytes) : Prop :=
  text.length < 512 ∨ text.length = 512 ∧ text[511]? = some 0

/-- Every state of the log is sound. -/
theorem fits_of_reach {s0 s : LogRun} (h0 : Fits s0.log) (h : Reach LogRun.step s0 s) :
    Fits s.log := by
  refine Reach.invariant h (I := fun s => Fits s.log) h0 fun s a t hfits hs => ?_
  obtain ⟨_, _, hmoves, -⟩ := LogRun.step_moves hfits hs
  exact hmoves.fits

theorem arrives_of_whole {text again tail : Bytes} (h : Whole text)
    (htail : IsTail text again tail) : arrives text tail = text := by
  unfold arrives
  rcases h with hshort | ⟨hlen, hlast⟩
  · rw [if_pos hshort]
  · have hnone : tail = [] := List.length_eq_zero_iff.mp (by rw [htail.length, hlen])
    have hsplit : text = text.take 511 ++ ([text[511]] ++ text.drop 512) := by
      rw [List.singleton_append, List.getElem_cons_drop, List.take_append_drop]
    rw [List.getElem?_eq_getElem (by omega), Option.some_inj] at hlast
    rw [List.drop_of_length_le (by omega), hlast, List.append_nil] at hsplit
    rw [if_neg (by omega), hnone, List.append_nil]
    exact hsplit.symm

/-- A message that arrives without fitting ends its first 512 bytes as the terminator does, and
goes on as the second pass does. -/
theorem cut_of_arrives {text tail : Bytes} (hlong : 511 < text.length)
    (h : arrives text tail = text) : text[511]? = some 0 ∧ tail = text.drop 512 := by
  have hsplit : text = text.take 511 ++ ([text[511]] ++ text.drop 512) := by
    rw [List.singleton_append, List.getElem_cons_drop, List.take_append_drop]
  unfold arrives at h
  rw [if_neg (by omega), List.append_assoc] at h
  conv at h => rhs; rw [hsplit]
  rw [List.append_cancel_left_eq, List.singleton_append, List.singleton_append,
    List.cons_eq_cons] at h
  exact ⟨by rw [List.getElem?_eq_getElem hlong, ← h.1], h.2⟩

/-- A second pass that makes something else of each byte of the rest. -/
def spoiled (text : Bytes) : Bytes := (text.drop 512).map (· + 1)

theorem whole_of_arrives {text tail : Bytes} (htail : IsTail text (spoiled text) tail)
    (h : arrives text tail = text) : Whole text := by
  by_cases hshort : text.length < 512
  · exact .inl hshort
  · obtain ⟨hlast, hrest⟩ := cut_of_arrives (by omega) h
    refine .inr ⟨Nat.le_antisymm (Nat.le_of_not_lt fun hlong => ?_) (by omega), hlast⟩
    -- the first byte of the rest is not what the second pass makes of it
    have hspoiled : (spoiled text).length = text.length - 512 := by
      rw [spoiled, List.length_map, List.length_drop]
    have hfilled := htail.filled (Nat.le_of_eq hspoiled.symm)
    rw [← hspoiled, List.take_length, hrest, spoiled] at hfilled
    have hfirst := congrArg (fun l => l[0]?) hfilled
    simp only [List.getElem?_map, List.getElem?_drop, Nat.add_zero,
      List.getElem?_eq_getElem hlong, Option.map_some, Option.some_inj] at hfirst
    have hone : (1 : UInt8) = 0 := by
      rw [← UInt8.add_right_inj text[512], UInt8.add_zero]
      exact hfirst.symm
    exact absurd hone (by decide)

/-- The record is as it should be if its message is. -/
theorem append_eq_iff {pending : Bytes} {c : LogCall} {tail : Bytes} :
    pending ++ written c tail = pending ++ c.record ↔ arrives c.text tail = c.text := by
  rw [List.append_cancel_left_eq]
  unfold written LogCall.record
  simp only [List.append_cancel_right_eq, List.append_cancel_left_eq, List.append_assoc]

theorem append_whole_iff {s : LogState} (h : Fits s) (c : LogCall) :
    (∀ again, (s.append { c with again := again }).1.pending = s.pending ++ c.record) ↔
      Whole c.text := by
  have hwrites (again : Bytes) : ∃ tail, IsTail c.text again tail ∧
      ((s.append { c with again := again }).1.pending = s.pending ++ c.record ↔
        arrives c.text tail = c.text) := by
    obtain ⟨tail, htail, hlogs⟩ := append_writes h { c with again := again }
    refine ⟨tail, htail, ?_⟩
    rw [hlogs.pending trivial]
    exact append_eq_iff
  constructor
  · intro hall
    obtain ⟨tail, htail, hiff⟩ := hwrites (spoiled c.text)
    exact whole_of_arrives htail (hiff.mp (hall _))
  · intro hwhole again
    obtain ⟨tail, htail, hiff⟩ := hwrites again
    exact hiff.mpr (arrives_of_whole hwhole htail)

/-- In every state of the log, a call appends its record, whatever a second pass may make of its
arguments, if and only if its message has less than 512 bytes, or 512 of which the last one
is 0. -/
theorem record_whole_iff (d0 : Bytes) {s : LogRun}
    (h : Reach LogRun.step { log := { disk := d0 } } s) (c : LogCall) :
    (∀ again, (s.log.append { c with again := again }).1.pending = s.log.pending ++ c.record ∧
        (s.log.append { c with again := again }).1.bufferSize =
          s.log.bufferSize + c.record.length) ↔
      Whole c.text := by
  have hfits := fits_of_reach ⟨Nat.le_refl 0, .inr ⟨rfl, rfl⟩⟩ h
  have hsize (again : Bytes) := (append_appends hfits { c with again := again }).size
  rw [← append_whole_iff hfits c]
  exact ⟨fun hall again => (hall again).1, fun hall again => ⟨hall again, hsize again⟩⟩

/-- The longest message that always arrives. -/
theorem record_whole_511 :
    (({} : LogState).append (sampleCall (List.replicate 511 97) 4)).1.pending =
      (sampleCall (List.replicate 511 97) 4).record := by
  have hwhole : Whole (sampleCall (List.replicate 511 97) 4).text :=
    .inl (by rw [sampleCall, List.length_replicate]; decide)
  exact ((record_whole_iff [] .refl (sampleCall (List.replicate 511 97) 4)).mpr hwhole _).1

/-- The last byte of a message of 512 is lost. -/
theorem record_512_cut :
    ¬ (({} : LogState).append (sampleCall (List.replicate 512 97) 4)).1.pending =
      (sampleCall (List.replicate 512 97) 4).record := by
  have hfits : Fits {} := ⟨Nat.le_refl 0, .inr ⟨rfl, rfl⟩⟩
  obtain ⟨tail, -, hlogs⟩ := append_writes hfits (sampleCall (List.replicate 512 97) 4)
  rw [hlogs.pending trivial]
  intro h
  -- nothing was pending before
  have hrecord : ({} : LogState).pending ++ written (sampleCall (List.replicate 512 97) 4) tail =
      ({} : LogState).pending ++ (sampleCall (List.replicate 512 97) 4).record := h
  obtain ⟨hlast, -⟩ := cut_of_arrives (by rw [sampleCall, List.length_replicate]; decide)
    (append_eq_iff.mp hrecord)
  rw [sampleCall, List.getElem?_replicate_of_lt (by decide)] at hlast
  exact absurd hlast (by decide)

end VideoPlayerCore
