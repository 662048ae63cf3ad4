import VideoPlayerCore.LogOrder

/-!
# From a call of the log to its files by name

The clock stands in the records and in the names of the files: the files read by name, log.txt
as the last one, give the records in the order of their times.

    g.flushed = f.flushed ++ w, g.run.log.reached = f.run.log.reached ++ w      (step_flushed)
    the trail is a run of the folder and one of the stamped records     (LogTrail.step_stamped)
-/

namespace VideoPlayerCore

open Machine LogState

/-! ## What is flushed is what reached the files -/

theorem LogState.Moves.reached {s t : LogState} {rotated : Option Bool} {written : Bytes}
    (h : Moves s t rotated written) : t.reached = s.reached ++ written := by
  unfold LogState.reached
  rw [h.rotations, h.disk]
  cases rotated with
  | none => simp
  | some renamed => cases renamed <;> simp

namespace LogFolder

variable {zone : Zone} {f g : LogFolder} {a : FolderAct}

theorem after_run (zone : Zone) (f : LogFolder) (run : LogRun) (time : Int)
    (listing : List FileName) : (f.after zone run time listing).run = run := by
  unfold after
  split
  · rfl
  · next renamed file rest hrot =>
    have hrun := (clean_rest zone (f.grown run (file.drop f.run.log.disk.length) time) listing).1
    dsimp only
    split
    · exact hrun
    · exact hrun

theorem step_flushed (hfits : Fits f.run.log) (hs : step zone f a = some g) :
    Fits g.run.log ∧ ∃ written, g.flushed = f.flushed ++ written ∧
      g.run.log.reached = f.run.log.reached ++ written := by
  unfold step at hs
  split at hs
  · obtain ⟨run, hrun, rfl⟩ := Option.map_eq_some_iff.mp hs
    obtain ⟨written, rotated, hmoves, -, -⟩ := LogRun.step_moves hfits hrun
    have hdrop : (f.run.log.disk ++ written).drop f.run.log.disk.length = written :=
      List.drop_left
    rw [after_run]
    refine ⟨hmoves.fits, written, ?_, hmoves.reached⟩
    have hdisk := hmoves.disk
    unfold after
    rw [hmoves.rotations, List.drop_left]
    cases rotated with
    | none =>
      dsimp only [Option.map_none, Option.toList_none]
      rw [if_neg (by simp)] at hdisk
      rw [hdisk, hdrop]
      rfl
    | some renamed =>
      dsimp only [Option.map_some, Option.toList_some]
      rw [hdrop]
      have hflushed := (clean_rest zone (f.grown run written a.time) a.listing).2.2
      split
      · exact hflushed
      · exact hflushed
  · cases hs

end LogFolder

open LogFolder

/-! ## The trail -/

structure LogTrail where
  folder : LogFolder
  /-- the last stamp -/
  clock : Int := 0
  /-- when the records that are kept were made -/
  times : List Int := []

structure TrailAct where
  act : StampAct
  /-- what `getSystemTimeMs` answers to a rotation -/
  time : Int
  /-- what `readdir` would list -/
  listing : List FileName

namespace LogTrail

variable {zone : Zone} {offset : Int} {s t : LogTrail} {a : TrailAct}

/-- What the directory sees of it. -/
def toFolder (zone : Zone) (a : TrailAct) : FolderAct :=
  { act := a.act.act zone, time := a.time, listing := a.listing }

def step (zone : Zone) (s : LogTrail) (a : TrailAct) : Option LogTrail :=
  (LogFolder.step zone s.folder (toFolder zone a)).map fun folder =>
    match a.act with
    | .log c _ time =>
      { folder := folder, clock := time
        times := if c.level ≤ s.folder.run.log.logLevel then s.times ++ [time] else s.times }
    | _ => { s with folder := folder }

/-- The records without the files. -/
def stamped (s : LogTrail) : StampedRun :=
  { run := s.folder.run, clock := s.clock, times := s.times }

/-- A step of the directory and one of the records. -/
theorem step_stamped (hs : step zone s a = some t) :
    LogFolder.step zone s.folder (toFolder zone a) = some t.folder ∧
      StampedRun.step zone s.stamped a.act = some t.stamped := by
  unfold step at hs
  obtain ⟨folder, hfolder, rfl⟩ := Option.map_eq_some_iff.mp hs
  have hrun : s.folder.run.step (a.act.act zone) = some folder.run := by
    unfold LogFolder.step at hfolder
    split at hfolder
    · obtain ⟨run, hrun, rfl⟩ := Option.map_eq_some_iff.mp hfolder
      rw [after_run]
      exact hrun
    · cases hfolder
  unfold StampedRun.step stamped
  dsimp only
  rw [hrun]
  cases hact : a.act with
  | log c e time => exact ⟨hfolder, rfl⟩
  | config logLevel maxSize => exact ⟨hfolder, rfl⟩
  | flush e => exact ⟨hfolder, rfl⟩

/-- The clock does not go back, the messages are short, writes write something and a rotation is
later than the backups. -/
structure Orderly (zone : Zone) (s : LogTrail) (a : TrailAct) : Prop where
  clock : a.act.ClockOn zone s.stamped
  short : (a.act.act zone).Short
  writes : (a.act.act zone).Writes
  later : Later zone s.folder (toFolder zone a)

theorem reach_stamped {s0 : LogTrail} (h : ReachIf (step zone) (Orderly zone) s0 s) :
    ReachIf (StampedRun.step zone) (fun s a => a.ClockOn zone s ∧ (a.act zone).Short ∧
      (a.act zone).Writes) s0.stamped s.stamped := by
  induction h with
  | refl => exact .refl
  | tail _ hok hs ih =>
    exact ih.tail ⟨hok.clock, hok.short, hok.writes⟩ (step_stamped hs).2

/-- The log starts in an empty directory. -/
def start (maxSize maxBackups : Int) : LogTrail :=
  { folder := LogFolder.start maxSize maxBackups [] ∅ [] }

theorem reach_sorted {maxSize maxBackups : Int}
    (h : ReachIf (step (Zone.ahead offset)) (Orderly (Zone.ahead offset))
      (start maxSize maxBackups) s) :
    s.folder.Sorted (Zone.ahead offset) ∧ s.folder.flushed = s.folder.run.log.reached := by
  have hstart : (start maxSize maxBackups).folder.Sorted (Zone.ahead offset) :=
    ⟨⟨Nat.le_refl 0, .inr ⟨rfl, rfl⟩⟩, rfl,
      fun name hname => absurd hname (AList.notMem_empty name), [], .nil, .nil, rfl⟩
  refine h.invariant (I := fun s => s.folder.Sorted (Zone.ahead offset) ∧
    s.folder.flushed = s.folder.run.log.reached) ⟨hstart, rfl⟩
    fun s a t ⟨hsorted, hflushed⟩ hok hs => ?_
  obtain ⟨hfolder, -⟩ := step_stamped hs
  obtain ⟨-, written, hflushed', hreached⟩ := step_flushed hsorted.fits hfolder
  refine ⟨hsorted.step hok.later hfolder, ?_⟩
  rw [hflushed', hreached, hflushed]

end LogTrail

/-- With a clock that does not go back, and rotations that are later than the backups, what was
deleted, the backups by name, log.txt and the buffer are together the records that were to be
kept, one after the other, in the order of the stamps they begin with. -/
theorem log_read_by_name {offset maxSize maxBackups : Int} {s : LogTrail}
    (h : ReachIf (LogTrail.step (Zone.ahead offset)) (LogTrail.Orderly (Zone.ahead offset))
      (LogTrail.start maxSize maxBackups) s) :
    (∃ files : List (Sigma fun _ : FileName => Numbered), files.Perm s.folder.backups.entries ∧
      files.Pairwise (fun a b => a.1 < b.1) ∧
        (s.folder.inDeleted ++ files.flatMap (·.2)).map Prod.fst ++ s.folder.run.log.disk ++
          s.folder.run.log.pending = s.folder.run.logged.flatten) ∧
      List.Forall₂ (Begins (Zone.ahead offset)) s.folder.run.logged s.times ∧
        s.times.Pairwise (· ≤ ·) ∧
          s.folder.run.logged.Pairwise fun a b => ¬ b.take 28 < a.take 28 := by
  obtain ⟨hsorted, hflushed⟩ := LogTrail.reach_sorted h
  obtain ⟨hlaw, hbegins, htimes, hstamps⟩ := 
    records_in_order offset maxSize [] (LogTrail.reach_stamped h)
  obtain ⟨files, hperm, hnames, hall⟩ := hsorted.order
  refine ⟨⟨files, hperm, hnames, ?_⟩, hbegins, htimes, hstamps⟩
  have hbytes := congrArg (List.map Prod.fst) hall
  rw [List.zipIdx_map_fst, hflushed, List.map_append, hsorted.disk] at hbytes
  rw [← hbytes]
  exact hlaw

/-- Two rotations with no backup to be kept, a record in log.txt and one in the buffer. -/
theorem log_read_by_name_four : ∃ s : LogTrail, s.times = [5, 6, 7, 8] ∧
    s.folder.deleted.map Prod.fst = ["1970-01-01T08_00_00.005.txt".toList] ∧
    s.folder.backups.keys = ["1970-01-01T08_00_00.006.txt".toList] ∧
    s.folder.run.log.disk.take 28 = ascii "1970-01-01T08:00:00.007+0800" ∧
    s.folder.run.log.pending.take 28 = ascii "1970-01-01T08:00:00.008+0800" ∧
    ∃ files : List (Sigma fun _ : FileName => Numbered),
      files.Perm s.folder.backups.entries ∧ files.Pairwise (fun a b => a.1 < b.1) ∧
        (s.folder.inDeleted ++ files.flatMap (·.2)).map Prod.fst ++ s.folder.run.log.disk ++
          s.folder.run.log.pending = s.folder.run.logged.flatten := by
  let e : FlushEnv := { accepts := fun _ => 512 }
  let start' := ["..".toList, ".".toList, "log.txt".toList]
  let later := start' ++ ["1970-01-01T08_00_00.005.txt".toList]
  let last := start' ++ ["1970-01-01T08_00_00.006.txt".toList]
  obtain ⟨s, hreach, hend⟩ := reachIf_of_any
    (guarded (LogTrail.step (Zone.ahead 28800)) fun s a =>
      (a.act.ClockOn (Zone.ahead 28800) s.stamped ∧ (a.act.act (Zone.ahead 28800)).Short) ∧
        ((a.act.act (Zone.ahead 28800)).renames = true → (Zone.ahead 28800).Names a.time ∧
          ∀ name ∈ s.folder.backups.keys,
            timeFileFormatToTimestampMs (Zone.ahead 28800) name < a.time))
    (fun _ a => (a.act.act (Zone.ahead 28800)).Writes) (LogTrail.start 1 0)
    [{ act := .log (sampleCall (ascii "a") 3) e 5, time := 5, listing := start' },
      { act := .log (sampleCall (ascii "b") 3) e 6, time := 6, listing := later },
      { act := .config 4 512, time := 6, listing := last },
      { act := .log (sampleCall (ascii "c") 3) e 7, time := 7, listing := last },
      { act := .log (sampleCall (ascii "d") 4) e 8, time := 8, listing := last }]
    (fun s => s.times = [5, 6, 7, 8] ∧
      s.folder.deleted.map Prod.fst = ["1970-01-01T08_00_00.005.txt".toList] ∧
      s.folder.backups.keys = ["1970-01-01T08_00_00.006.txt".toList] ∧
      s.folder.run.log.disk.take 28 = ascii "1970-01-01T08:00:00.007+0800" ∧
      s.folder.run.log.pending.take 28 = ascii "1970-01-01T08:00:00.008+0800")
    (by
      have hwrites : ∀ k, 0 < e.accepts k := fun _ => Nat.succ_pos 511
      intro a ha _
      simp only [List.mem_cons, List.not_mem_nil, or_false] at ha
      rcases ha with rfl | rfl | rfl | rfl | rfl
      · exact hwrites
      · exact hwrites
      · exact trivial
      · exact hwrites
      · exact hwrites)
    (by decide +kernel)
  obtain ⟨htimes, hdeleted, hkeys, hdisk, hpending⟩ := of_decide_eq_true hend
  have horderly : ReachIf (LogTrail.step (Zone.ahead 28800))
      (LogTrail.Orderly (Zone.ahead 28800)) (LogTrail.start 1 0) s :=
    hreach.of_guarded.mono fun s a ⟨⟨⟨hclock, hshort⟩, hnames⟩, hwrites⟩ =>
      ⟨hclock, hshort, hwrites, fun _ hren => hnames hren⟩
  exact ⟨s, htimes, hdeleted, hkeys, hdisk, hpending, (log_read_by_name horderly).1⟩

end VideoPlayerCore
