import VideoPlayerCore.LogRotation
import VideoPlayerCore.LogStamps

/-!
# The files of the log, by name

`cleanDirectory` deletes the oldest backup and `rename` adds the latest one, and the names of
the backups come in the order of their times.  So whoever reads the files by name, log.txt as
the last one, reads the end of the log in order: it begins where the last deleted file ended.

    f.Sorted zone → Later zone f a → step zone f a = some g → g.Sorted zone      (Sorted.step)
-/

namespace VideoPlayerCore

open Machine

/-- A time that names a backup, up to the year 9999. -/
def Zone.Names (zone : Zone) (t : Int) : Prop := zone.Tells t ∧ zone.FourDigits t

instance (zone : Zone) (t : Int) : Decidable (zone.Names t) :=
  inferInstanceAs (Decidable (_ ∧ _))

namespace LogFolder

variable {zone : Zone} {offset : Int} {f g : LogFolder} {a : FolderAct}

/-- The files that were deleted, one after the other, the backups by name and log.txt are all
that was flushed. -/
def InOrder (f : LogFolder) : Prop :=
  ∃ files : List (Sigma fun _ : FileName => Numbered), files.Perm f.backups.entries ∧
    files.Pairwise (fun a b => a.1 < b.1) ∧
      f.flushed.zipIdx = f.inDeleted ++ files.flatMap (·.2) ++ f.current

/-- A rotation is later than every backup there is. -/
def Later (zone : Zone) (f : LogFolder) (a : FolderAct) : Prop :=
  f.run.log.Rotates a.act → a.act.renames = true → zone.Names a.time ∧
    ∀ name ∈ f.backups, timeFileFormatToTimestampMs zone name < a.time

/-- What holds as long as every rotation is later than the backups. -/
structure Sorted (zone : Zone) (f : LogFolder) : Prop where
  fits : f.run.log.Fits
  disk : f.current.map Prod.fst = f.run.log.disk
  named : ∀ name ∈ f.backups, ∃ t, zone.Names t ∧ name = backupName zone t
  order : f.InOrder

theorem InOrder.grown (h : f.InOrder) (run : LogRun) (written : Bytes) (time : Int) :
    (f.grown run written time).InOrder := by
  obtain ⟨files, hperm, hsorted, hall⟩ := h
  refine ⟨files, hperm, hsorted, ?_⟩
  unfold LogFolder.grown inDeleted at *
  dsimp only
  rw [List.zipIdx_append, hall, Nat.zero_add, List.append_assoc]

/-- The file that is deleted is the first one. -/
theorem InOrder.clean (h : f.InOrder)
    (hnamed : ∀ name ∈ f.backups, ∃ t, (Zone.ahead offset).Names t ∧
      name = backupName (Zone.ahead offset) t) {listing : List FileName}
    (hperm : listing.Perm f.names) : (f.clean (Zone.ahead offset) listing).InOrder := by
  have hzone := Zone.ahead_fixedOffset offset
  rcases clean_cases (Zone.ahead offset) f listing with heq | ⟨name, file, hname, hfile, heq⟩
  · rw [heq]
    exact h
  · obtain ⟨files, hfiles, hsorted, hall⟩ := h
    have hfirst := (cleanDirectory_eq_some.mp hname).2
    obtain ⟨t, ht, hnamet⟩ := hnamed name (mem_backups hperm hfirst.mem hfirst.accepted)
    have hmem : (⟨name, file⟩ : Sigma fun _ : FileName => Numbered) ∈ files :=
      hfiles.mem_iff.mpr (AList.mem_lookup_iff.mp hfile)
    obtain ⟨before, rest, rfl⟩ := List.append_of_mem hmem
    -- a file in front of it would be earlier
    obtain rfl : before = [] := by
      refine List.eq_nil_iff_forall_not_mem.mpr fun other hother => ?_
      have hin : other.1 ∈ f.backups := AList.mem_keys.mpr
        (List.mem_keys_of_mem (hfiles.mem_iff.mp (List.mem_append_left _ hother)))
      obtain ⟨u, hu, hnameu⟩ := hnamed _ hin
      have hlt : other.1 < name :=
        (List.pairwise_append.mp hsorted).2.2 _ hother _ List.mem_cons_self
      have hle := hfirst.first _ (mem_listing hperm hin)
        (accepted_of_backup hzone ⟨u, hu.1, hnameu⟩)
      rw [hnamet, hnameu, backupName_lt_iff hu.2 ht.2] at hlt
      unfold Earlier at hle
      rw [hnamet, hnameu, hzone.timestamp ht.1, hzone.timestamp hu.1] at hle
      omega
    rw [List.nil_append] at hfiles hsorted hall
    rw [heq]
    refine ⟨rest, ?_, (List.pairwise_cons.mp hsorted).2, ?_⟩
    · exact (hfiles.trans (AList.entries_perm_erase hfile)).cons_inv
    · unfold inDeleted at hall ⊢
      dsimp only
      rw [hall, List.flatMap_append, List.flatMap_singleton, List.flatMap_cons]
      simp only [List.append_assoc]

/-- The file that is added is the last one. -/
theorem InOrder.rename (h : f.InOrder) {time : Int}
    (hlast : ∀ name ∈ f.backups, name < backupName zone time) : (f.rename zone time).InOrder := by
  obtain ⟨files, hperm, hsorted, hall⟩ := h
  have hfresh : backupName zone time ∉ f.backups :=
    fun hmem => List.lt_irrefl _ (hlast _ hmem)
  refine ⟨files ++ [⟨backupName zone time, f.current⟩], ?_, ?_, ?_⟩
  · have hentries : (f.rename zone time).backups.entries =
        ⟨backupName zone time, f.current⟩ :: f.backups.entries := by
      unfold LogFolder.rename
      rw [AList.entries_insert, List.kerase_of_notMem_keys hfresh]
    rw [hentries]
    exact (List.perm_append_singleton _ _).trans (hperm.cons _)
  · refine List.pairwise_append.mpr ⟨hsorted, List.pairwise_singleton _ _, ?_⟩
    intro other hother last hlast'
    obtain rfl := List.mem_singleton.mp hlast'
    exact hlast _ (AList.mem_keys.mpr (List.mem_keys_of_mem (hperm.mem_iff.mp hother)))
  · unfold LogFolder.rename inDeleted at *
    dsimp only
    rw [hall, List.flatMap_append, List.flatMap_singleton, List.append_nil, List.append_assoc]

/-- What `cleanDirectory` leaves are files that were there. -/
theorem mem_clean {listing : List FileName} {name : FileName}
    (hmem : name ∈ (f.clean zone listing).backups) : name ∈ f.backups := by
  rcases clean_cases zone f listing with heq | ⟨other, file, -, -, heq⟩
  · rw [heq] at hmem
    exact hmem
  · rw [heq] at hmem
    exact (AList.mem_erase.mp hmem).2

theorem Sorted.step (hf : f.Sorted (Zone.ahead offset)) (hlater : Later (Zone.ahead offset) f a)
    (hs : step (Zone.ahead offset) f a = some g) : g.Sorted (Zone.ahead offset) := by
  have hzone := Zone.ahead_fixedOffset offset
  obtain ⟨run, written, hperm, hfits, hcases⟩ := step_cases hf.fits hs
  have hmap := map_grown hf.disk run written a.time
  have hgrown := hf.order.grown run written a.time
  have hclean := hgrown.clean hf.named hperm
  obtain ⟨hrun, hcurrent, -⟩ :=
    clean_rest (Zone.ahead offset) (f.grown run written a.time) a.listing
  have hleft {name : FileName} (hname : name ∈
      ((f.grown run written a.time).clean (Zone.ahead offset) a.listing).backups) :
      name ∈ f.backups := mem_clean (f := f.grown run written a.time) hname
  rcases hcases with ⟨-, hdisk, rfl⟩ | ⟨-, -, hdisk, rfl⟩ | ⟨hrot, hren, hdisk, rfl⟩
  · exact ⟨hfits, hmap.trans hdisk.symm, hf.named, hgrown⟩
  · refine ⟨?_, ?_, fun name hname => hf.named name (hleft hname), hclean⟩
    · rw [hrun]
      exact hfits
    · rw [hrun, hcurrent, hmap]
      exact hdisk.symm
  · obtain ⟨hnames, hlatest⟩ := hlater hrot hren
    refine ⟨?_, hdisk.symm.trans (congrArg (fun run => run.log.disk) hrun.symm), ?_, ?_⟩
    · have hlog : (((f.grown run written a.time).clean (Zone.ahead offset) a.listing).rename
          (Zone.ahead offset) a.time).run = run := hrun
      rw [hlog]
      exact hfits
    · intro name hname
      rcases (AList.mem_insert _).mp hname with rfl | hold
      · exact ⟨a.time, hnames, rfl⟩
      · exact hf.named name (hleft hold)
    · refine hclean.rename fun name hname => ?_
      have hlt := hlatest name (hleft hname)
      obtain ⟨t, ht, rfl⟩ := hf.named name (hleft hname)
      rw [hzone.timestamp ht.1] at hlt
      exact (backupName_lt_iff ht.2 hnames.2).mpr hlt

end LogFolder

open LogFolder

/-- As long as every rotation is later than the backups there are, the files by name are the
end of what was flushed, in order and without a gap; what is missing in front of it was in the
files that `cleanDirectory` deleted. -/
theorem files_in_order {offset : Int} {f0 f : LogFolder} (h0 : f0.Starts (Zone.ahead offset))
    (hnamed : ∀ name ∈ f0.backups, ∃ t, (Zone.ahead offset).Names t ∧
      name = backupName (Zone.ahead offset) t) (horder : f0.InOrder)
    (h : ReachIf (step (Zone.ahead offset)) (Later (Zone.ahead offset)) f0 f) :
    f.InOrder ∧ f.current.map Prod.fst = f.run.log.disk := by
  have hsorted : f.Sorted (Zone.ahead offset) :=
    h.invariant ⟨h0.sound.fits, h0.sound.disk, hnamed, horder⟩
      fun f a g hf hlater hs => hf.step hlater hs
  exact ⟨hsorted.order, hsorted.disk⟩

/-- Two rotations with no backup to be kept: the first backup is deleted. -/
theorem files_in_order_deleted : ∃ f : LogFolder, f.flushed = ascii "abc" ∧
    f.deleted.map Prod.fst = ["1970-01-01T08_00_00.005.txt".toList] ∧
    f.backups.keys = ["1970-01-01T08_00_00.006.txt".toList] ∧ f.run.log.disk = ascii "c" ∧
    f.InOrder := by
  let e : FlushEnv := { accepts := fun _ => 512 }
  let start' := ["..".toList, ".".toList, "log.txt".toList]
  let later := start' ++ ["1970-01-01T08_00_00.005.txt".toList]
  let last := start' ++ ["1970-01-01T08_00_00.006.txt".toList]
  obtain ⟨f, hreach, hend⟩ := reach_of_any
    (guarded (step (Zone.ahead 28800)) fun f a => a.act.renames = true →
      (Zone.ahead 28800).Names a.time ∧ ∀ name ∈ f.backups.keys,
        timeFileFormatToTimestampMs (Zone.ahead 28800) name < a.time)
    (start 1 0 [] ∅ [])
    [{ act := .push (ascii "a"), time := 5, listing := start' },
      { act := .flush e, time := 5, listing := start' },
      { act := .push (ascii "b"), time := 6, listing := later },
      { act := .flush e, time := 6, listing := later },
      { act := .config 4 10, time := 7, listing := last },
      { act := .push (ascii "c"), time := 7, listing := last },
      { act := .flush e, time := 7, listing := last }]
    (fun f => f.flushed = ascii "abc" ∧
      f.deleted.map Prod.fst = ["1970-01-01T08_00_00.005.txt".toList] ∧
      f.backups.keys = ["1970-01-01T08_00_00.006.txt".toList] ∧ f.run.log.disk = ascii "c")
    (by decide +kernel)
  obtain ⟨hflushed, hdeleted, hkeys, hdisk⟩ := of_decide_eq_true hend
  have hlater : ReachIf (step (Zone.ahead 28800)) (Later (Zone.ahead 28800))
      (start 1 0 [] ∅ []) f :=
    (reachIf_of_guarded hreach).mono fun f a hok _ hren => hok hren
  have hnone : ∀ name ∈ (start 1 0 [] ∅ []).backups, ∃ t, (Zone.ahead 28800).Names t ∧
      name = backupName (Zone.ahead 28800) t :=
    fun name hname => absurd hname (AList.notMem_empty name)
  exact ⟨f, hflushed, hdeleted, hkeys, hdisk, (files_in_order (start_starts _ 1 0) hnone
    ⟨[], .nil, .nil, rfl⟩ hlater).1⟩

end VideoPlayerCore
