import Mathlib.Data.List.AList
import VideoPlayerCore.LogClean
import VideoPlayerCore.LogRecords

/-!
# The log directory

log.txt and what the rotations made of it.  A rotation lets `cleanDirectory` delete a backup
first and renames log.txt then; a backup that has the new name already is replaced.  The
bytes of every file are kept with their places among all bytes ever flushed, so that one can
tell whether a byte is still there.

    LogRun.step s a = some t → t is s with log.txt longer, and rotated if s.log.Rotates a
                                                                        (LogRun.step_moves)
-/

namespace VideoPlayerCore

open Machine LogState

/-! ## When a flush rotates -/

namespace LogState

/-- The file can be written and, with what `fwrite` accepts, has grown to `_maxSize`. -/
def Fills (s : LogState) (e : FlushEnv) : Prop :=
  (s.isOpen = true ∨ ¬ s.named = true ∧ e.opens = true) ∧ 0 < s.bufferSize ∧
    s.maxSize ≤ (s.disk.length + e.taken s.bufferSize : Nat)

/-- The action flushes the buffer and fills the file. -/
def Rotates (s : LogState) : LogAct → Prop
  | .log c e => c.level ≤ s.logLevel ∧ c.level ≤ 3 ∧ (s.append c).1.Fills e
  | .flush e => s.Fills e
  | _ => False

/-- log.txt grew by `written`; with `rotated` it was then closed and, if that worked, renamed. -/
structure Moves (s t : LogState) (rotated : Option Bool) (written : Bytes) : Prop where
  fits : Fits t
  rotations : t.rotations = s.rotations ++ (rotated.map (·, s.disk ++ written)).toList
  disk : t.disk = if rotated = some true then [] else s.disk ++ written

variable {s t : LogState} {e : FlushEnv} {rotated : Option Bool} {written : Bytes}

theorem Moves.stays (h : OnlyBuffer s t) (hfits : Fits t) : Moves s t none [] := by
  unfold OnlyBuffer at h
  refine ⟨hfits, ?_, ?_⟩
  · rw [h]
    exact (List.append_nil _).symm
  · rw [h, if_neg nofun]
    exact (List.append_nil _).symm

/-- What happened to `t` is seen from any state with the same file. -/
theorem Moves.of_only {u : LogState} (h : OnlyBuffer s t) (hmoves : Moves t u rotated written) :
    Moves s u rotated written := by
  unfold OnlyBuffer at h
  have hdisk : t.disk = s.disk := by rw [h]
  have hrotations : t.rotations = s.rotations := by rw [h]
  exact ⟨hmoves.fits, by rw [hmoves.rotations, hdisk, hrotations],
    by rw [hmoves.disk, hdisk]⟩

/-- With the file open. -/
theorem flushBuffer_opened_moves (h : Fits s) (hnamed : s.named = true) (hopen : s.isOpen = true) :
    ∃ written rotated, Moves s (s.flushBuffer e).1 rotated written ∧
      (s.Fills e → rotated = some e.renames) ∧ (¬ s.Fills e → rotated = none) := by
  rcases Nat.eq_zero_or_pos s.bufferSize with hzero | hpos
  · rw [flushBuffer_empty hnamed hzero]
    refine ⟨[], none, Moves.stays rfl h, fun hfills => ?_, fun _ => rfl⟩
    exact absurd hfills.2.1 (by omega)
  · obtain ⟨t, hflush, hdisk, hrotations, heq⟩ := flushBuffer_eq (e := e) h hnamed hopen hpos
    have hlen : t.disk.length = s.disk.length + e.taken s.bufferSize := by
      have hle := e.taken_le s.bufferSize
      rw [hdisk, List.length_append, List.length_take, h.length_pending, Nat.min_eq_left hle]
    refine ⟨s.pending.take (e.taken s.bufferSize), ?_⟩
    rw [heq, hlen]
    by_cases hfull : s.maxSize ≤ (s.disk.length + e.taken s.bufferSize : Nat)
    · rw [if_pos hfull]
      refine ⟨some e.renames, ⟨hflush.fits, ?_, ?_⟩, fun _ => rfl, fun hnot => ?_⟩
      · unfold rotate
        dsimp only
        rw [hrotations, hdisk]
        rfl
      · unfold rotate
        dsimp only
        rw [hdisk]
        cases e.renames <;> rfl
      · exact absurd ⟨.inl hopen, hpos, hfull⟩ hnot
    · rw [if_neg hfull]
      refine ⟨none, ⟨hflush.fits, ?_, ?_⟩, fun hfills => absurd hfills.2.2 hfull, fun _ => rfl⟩
      · rw [hrotations]
        exact (List.append_nil _).symm
      · rw [hdisk, if_neg nofun]

theorem opened_files (s : LogState) (e : FlushEnv) :
    (s.opened e).disk = s.disk ∧ (s.opened e).rotations = s.rotations := by
  unfold opened
  split <;> exact ⟨rfl, rfl⟩

theorem flushBuffer_moves (h : Fits s) (e : FlushEnv) :
    ∃ written rotated, Moves s (s.flushBuffer e).1 rotated written ∧
      (s.Fills e → rotated = some e.renames) ∧ (¬ s.Fills e → rotated = none) := by
  obtain ⟨heq, hnamed⟩ := flushBuffer_opened s e
  have hfits : Fits (s.opened e) := by
    unfold opened
    split <;> exact h
  obtain ⟨hdisk, hrotations⟩ := opened_files s e
  have hfills : (s.opened e).Fills e ↔ s.Fills e := by
    unfold Fills opened
    split
    · rfl
    · next hn => simp [hn]
  rw [heq]
  cases hopen : (s.opened e).isOpen with
  | true =>
    obtain ⟨written, rotated, hmoves, hyes, hno⟩ :=
      flushBuffer_opened_moves (e := e) hfits hnamed hopen
    refine ⟨written, rotated, ⟨hmoves.fits, ?_, ?_⟩, fun hf => hyes (hfills.mpr hf),
      fun hf => hno (mt hfills.mp hf)⟩
    · rw [hmoves.rotations, hdisk, hrotations]
    · rw [hmoves.disk, hdisk]
  | false =>
    have hsame : ((s.opened e).flushBuffer e).1 = s.opened e := by
      unfold flushBuffer
      rw [if_pos hnamed]
      dsimp only
      rw [hopen, if_neg Bool.false_ne_true]
      split <;> rfl
    have hnot : ¬ s.Fills e := by
      intro hf
      have hcan := (hfills.mpr hf).1
      rw [hopen, hnamed] at hcan
      simp at hcan
    rw [hsame]
    refine ⟨[], none, ⟨hfits, ?_, ?_⟩, fun hf => absurd hf hnot, fun _ => rfl⟩
    · rw [hrotations]
      exact (List.append_nil _).symm
    · rw [if_neg nofun, hdisk, List.append_nil]

end LogState

/-- What `rename` answers, should the action rotate. -/
def LogAct.renames : LogAct → Bool
  | .log _ e | .flush e => e.renames
  | _ => false

/-- One step: log.txt grows, and is rotated when it is full. -/
theorem LogRun.step_moves {s t : LogRun} {a : LogAct} (hfits : Fits s.log)
    (hs : LogRun.step s a = some t) :
    ∃ written rotated, Moves s.log t.log rotated written ∧
      (s.log.Rotates a → rotated = some a.renames) ∧ (¬ s.log.Rotates a → rotated = none) := by
  unfold LogRun.step at hs
  split at hs
  · cases hs
  cases a with
  | push bytes =>
    cases hs
    have hadd : s.log.Appends (s.log.pushToBuffer bytes bytes.length) bytes :=
      pushToBuffer_appends hfits rfl
    exact ⟨[], none, .stays hadd.only hadd.fits, fun h => h.elim, fun _ => rfl⟩
  | config logLevel maxSize =>
    cases hs
    exact ⟨[], none, ⟨hfits, (List.append_nil _).symm, (List.append_nil _).symm⟩,
      fun h => h.elim, fun _ => rfl⟩
  | flush e =>
    cases hs
    exact flushBuffer_moves hfits e
  | log c e =>
    cases hs
    have happ := append_appends hfits c
    unfold Rotates
    dsimp only
    by_cases hkeep : c.level ≤ s.log.logLevel
    · by_cases hhigh : c.level ≤ 3
      · obtain ⟨written, rotated, hmoves, hyes, hno⟩ := flushBuffer_moves happ.fits e
        have hfrom := Moves.of_only happ.only hmoves
        rw [log_now hfits hkeep hhigh]
        exact ⟨written, rotated, ⟨hfrom.fits, hfrom.rotations, hfrom.disk⟩,
          fun h => hyes h.2.2, fun h => hno fun hf => h ⟨hkeep, hhigh, hf⟩⟩
      · rw [log_later hfits hkeep (Int.not_le.mp hhigh)]
        have hstay := Moves.stays happ.only happ.fits
        exact ⟨[], none, ⟨hstay.fits, hstay.rotations, hstay.disk⟩,
          fun h => absurd h.2.1 hhigh, fun _ => rfl⟩
    · obtain ⟨hfits', -, honly, -⟩ := happ.takeBack_spec hfits (record_pos c)
      rw [log_dropped hfits (Int.not_le.mp hkeep)]
      unfold OnlyBuffer at honly
      refine ⟨[], none, ⟨hfits', ?_, ?_⟩, fun h => absurd h.1 hkeep, fun _ => rfl⟩
      · rw [honly]
        exact (List.append_nil _).symm
      · rw [honly]
        exact (List.append_nil _).symm

/-! ## The directory -/

/-- Bytes, each with its place among all bytes flushed. -/
abbrev Numbered := List (UInt8 × Nat)

structure LogFolder where
  run : LogRun := {}
  /-- what is in log.txt -/
  current : Numbered := []
  /-- what is in the other files -/
  backups : AList (fun _ : FileName => Numbered) := ∅
  maxBackups : Int := 10
  /-- all that `fwrite` took, in order -/
  flushed : Bytes := []
  /-- the files that `cleanDirectory` deleted -/
  deleted : List (FileName × Numbered) := []
  /-- the last reading of the clock -/
  clock : Int := 0

structure FolderAct where
  act : LogAct
  /-- what `getSystemTimeMs` answers -/
  time : Int
  /-- what `readdir` would list -/
  listing : List FileName

namespace LogFolder

variable {zone : Zone} {f g : LogFolder} {a : FolderAct}

def names (f : LogFolder) : List FileName :=
  "..".toList :: ".".toList :: "log.txt".toList :: f.backups.keys

/-- `written` is appended to log.txt. -/
def grown (f : LogFolder) (run : LogRun) (written : Bytes) (time : Int) : LogFolder :=
  { f with
    run := run, clock := time
    current := f.current ++ written.zipIdx f.flushed.length, flushed := f.flushed ++ written }

def clean (zone : Zone) (f : LogFolder) (listing : List FileName) : LogFolder :=
  match cleanDirectory zone f.maxBackups listing with
  | none => f
  | some name =>
    match f.backups.lookup name with
    | none => f
    | some file =>
      { f with backups := f.backups.erase name, deleted := f.deleted ++ [(name, file)] }

/-- `rename`: a file that has the name already is replaced. -/
def rename (zone : Zone) (f : LogFolder) (time : Int) : LogFolder :=
  { f with backups := f.backups.insert (backupName zone time) f.current, current := [] }

/-- What the step of the log to `run` does to the directory. -/
def after (zone : Zone) (f : LogFolder) (run : LogRun) (time : Int) (listing : List FileName) :
    LogFolder :=
  let written (file : Bytes) := file.drop f.run.log.disk.length
  match run.log.rotations.drop f.run.log.rotations.length with
  | [] => f.grown run (written run.log.disk) time
  | (renamed, file) :: _ =>
    let f := (f.grown run (written file) time).clean zone listing
    if renamed then f.rename zone time else f

def step (zone : Zone) (f : LogFolder) (a : FolderAct) : Option LogFolder :=
  if a.listing.Perm f.names then
    (LogRun.step f.run a.act).map fun run => f.after zone run a.time a.listing
  else none

/-- All that a step can do. -/
theorem step_cases (hfits : Fits f.run.log) (hs : step zone f a = some g) :
    ∃ run written, a.listing.Perm f.names ∧ Fits run.log ∧
      ((¬ f.run.log.Rotates a.act ∧ run.log.disk = f.run.log.disk ++ written ∧
          g = f.grown run written a.time) ∨
        (f.run.log.Rotates a.act ∧ a.act.renames = false ∧
          run.log.disk = f.run.log.disk ++ written ∧
          g = (f.grown run written a.time).clean zone a.listing) ∨
        (f.run.log.Rotates a.act ∧ a.act.renames = true ∧ run.log.disk = [] ∧
          g = ((f.grown run written a.time).clean zone a.listing).rename zone a.time)) := by
  unfold step at hs
  split at hs
  · next hperm =>
    obtain ⟨run, hrun, rfl⟩ := Option.map_eq_some_iff.mp hs
    obtain ⟨written, rotated, hmoves, hyes, hno⟩ := LogRun.step_moves hfits hrun
    have hdrop : (f.run.log.disk ++ written).drop f.run.log.disk.length = written :=
      List.drop_left
    refine ⟨run, written, hperm, hmoves.fits, ?_⟩
    have hdisk := hmoves.disk
    unfold after
    rw [hmoves.rotations, List.drop_left]
    by_cases hrot : f.run.log.Rotates a.act
    · obtain rfl := hyes hrot
      refine .inr ?_
      dsimp only [Option.map_some, Option.toList_some] at hdisk ⊢
      rw [hdrop]
      cases hren : a.act.renames with
      | true =>
        rw [hren, if_pos rfl] at hdisk
        exact .inr ⟨hrot, rfl, hdisk, if_pos rfl⟩
      | false =>
        rw [hren, if_neg (by simp)] at hdisk
        exact .inl ⟨hrot, rfl, hdisk, if_neg Bool.false_ne_true⟩
    · obtain rfl := hno hrot
      rw [if_neg nofun] at hdisk
      dsimp only [Option.map_none, Option.toList_none]
      rw [hdisk, hdrop]
      exact .inl ⟨hrot, rfl, rfl⟩
  · cases hs

end LogFolder

end VideoPlayerCore
