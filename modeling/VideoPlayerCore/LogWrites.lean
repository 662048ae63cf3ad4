import VideoPlayerCore.LogRecords

/-!
# Flushes that fail half way

A failing `fwrite` ends the loop of `flushBuffer`: `_bufferSize` is by then the size of what
was not written, but `_buffer` still begins with what was.

    every flush keeps the tail → reached ++ pending = d0 ++ logged.flatten
                                                                 (flush_keeps_logged, first part)

The law breaks with the first flush that does not keep it, and nothing else breaks it.
-/

namespace VideoPlayerCore

open Machine LogState

/-- Over a run, what reached log.txt and what is pending are the bytes logged as long as
every flush keeps the tail; the first one that does not ends that. -/
theorem flush_keeps_logged (d0 : Bytes) :
    (∀ s, ReachIf LogRun.step (fun s a => a.Short ∧ s.log.TailKept a)
        { log := { disk := d0 } } s →
      s.log.reached ++ s.log.pending = d0 ++ s.logged.flatten) ∧
      ∀ s a t, ReachIf LogRun.step (fun s a => a.Short ∧ s.log.TailKept a)
          { log := { disk := d0 } } s → a.Short → LogRun.step s a = some t →
        (t.log.reached ++ t.log.pending = d0 ++ t.logged.flatten ↔ s.log.TailKept a) := by
  refine ⟨fun s h => (law_of_kept h).2, fun s a t h hshort hs => ?_⟩
  obtain ⟨hfits, hlaw⟩ := law_of_kept h
  exact (LogRun.step_law hfits hlaw hshort hs).2

/-- A flush that cannot write anything, and later one that can. -/
theorem flush_keeps_logged_retried :
    ∃ s : LogRun, s.log.disk = ascii "abc" ∧
      s.log.reached ++ s.log.pending = ascii "" ++ s.logged.flatten := by
  obtain ⟨s, hreach, hend⟩ := reach_of_any
    (guarded LogRun.step fun s a => a.Short ∧ s.log.TailKept a) { log := { disk := ascii "" } }
    [.push (ascii "ab"), .flush { accepts := fun _ => 0 }, .push (ascii "c"),
      .flush { accepts := fun _ => 2 }]
    (fun s => s.log.disk = ascii "abc") (by decide +kernel)
  have hkept := reachIf_of_guarded hreach
  exact ⟨s, of_decide_eq_true hend, (flush_keeps_logged (ascii "")).1 s hkept⟩

/-- `fwrite` takes one byte of two and then fails: the next flush writes that byte again,
and the other one is lost. -/
theorem partial_write_loses_tail :
    ∃ s : LogRun, Reach LogRun.step {} s ∧ s.logged = [ascii "ab"] ∧ s.log.disk = ascii "aa" ∧
      s.log.pending = [] ∧ ¬ s.log.reached ++ s.log.pending = [] ++ s.logged.flatten := by
  obtain ⟨s, hreach, hend⟩ := reach_of_any LogRun.step {}
    [.push (ascii "ab"), .flush { accepts := fun k => if k = 0 then 1 else 0 },
      .flush { accepts := fun _ => 2 }]
    (fun s => s.logged = [ascii "ab"] ∧ s.log.disk = ascii "aa" ∧ s.log.pending = [] ∧
      ¬ s.log.reached ++ s.log.pending = [] ++ s.logged.flatten) (by decide +kernel)
  exact ⟨s, hreach, of_decide_eq_true hend⟩

end VideoPlayerCore
