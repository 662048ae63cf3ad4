import VideoPlayerCore.LogRetention

/-!
# What a rotation destroys

Every byte flushed lies in log.txt, in one of the backups or in a file that `cleanDirectory`
deleted, and in one of them only.  A rename that replaces a backup ends this: the bytes that
the replaced one held are gone, though it was not the oldest of too many.

    f.Sound zone → step zone f a = some g → (g.Kept ↔ f.Fresh zone a)  (Sound.step_kept_iff)
-/

/-- What is erased from an association list was one of its entries. -/
theorem AList.entries_perm_erase {α : Type*} {β : α → Type*} [DecidableEq α] {s : AList β} {a : α}
    {b : β a} (h : s.lookup a = some b) : s.entries.Perm (⟨a, b⟩ :: (s.erase a).entries) := by
  have hmem : ⟨a, b⟩ ∈ s.entries := AList.mem_lookup_iff.mp h
  have hkey : a ∈ s.entries.keys := List.mem_keys_of_mem hmem
  obtain ⟨b', before, rest, -, hentries, herase⟩ := List.exists_of_kerase hkey
  have hb : b' = b := by
    have hmem' : ⟨a, b'⟩ ∈ s.entries := by
      rw [hentries]
      exact List.mem_append_right _ (List.mem_cons_self ..)
    have hfound : s.lookup a = some b' := AList.mem_lookup_iff.mpr hmem'
    rw [h] at hfound
    exact (Option.some.inj hfound).symm
  subst hb
  have hrest : (s.erase a).entries = before ++ rest := herase
  rw [hrest, hentries]
  exact List.perm_middle

namespace VideoPlayerCore

open Machine

namespace LogFolder

variable {zone : Zone} {f g : LogFolder} {a : FolderAct}

/-! ## Where the bytes are -/

/-- The bytes in the backups. -/
def inBackups (f : LogFolder) : Numbered := f.backups.entries.flatMap (·.2)

/-- The bytes in the files that `cleanDirectory` deleted. -/
def inDeleted (f : LogFolder) : Numbered := f.deleted.flatMap (·.2)

/-- Every byte flushed is in one place. -/
def Intact (f : LogFolder) : Prop :=
  ∀ x, f.current.count x + f.inBackups.count x + f.inDeleted.count x = f.flushed.zipIdx.count x

/-- Every byte flushed is still somewhere, or was in a file that `cleanDirectory` deleted. -/
def Kept (f : LogFolder) : Prop :=
  f.current.map Prod.fst = f.run.log.disk ∧
    ∀ x ∈ f.flushed.zipIdx, x ∈ f.current ∨
      (∃ name file, f.backups.lookup name = some file ∧ x ∈ file) ∨
        ∃ name file, (name, file) ∈ f.deleted ∧ x ∈ file

/-- The backups are the files of a rotation. -/
def Named (zone : Zone) (f : LogFolder) : Prop := ∀ name ∈ f.backups, IsBackupName zone name

/-- No file is replaced that had bytes in it, unless `cleanDirectory` deletes it before: it is
the oldest of more than `_maxBackups`. -/
def Fresh (zone : Zone) (f : LogFolder) (a : FolderAct) : Prop :=
  f.run.log.Rotates a.act → a.act.renames = true →
    ∀ file, f.backups.lookup (backupName zone a.time) = some file → file = [] ∨
      f.maxBackups < f.backups.keys.length ∧ First zone a.listing (backupName zone a.time)

theorem mem_inBackups {x : UInt8 × Nat} :
    x ∈ f.inBackups ↔ ∃ name file, f.backups.lookup name = some file ∧ x ∈ file := by
  unfold inBackups
  rw [List.mem_flatMap]
  constructor
  · rintro ⟨⟨name, file⟩, hmem, hx⟩
    exact ⟨name, file, AList.mem_lookup_iff.mpr hmem, hx⟩
  · rintro ⟨name, file, hlookup, hx⟩
    exact ⟨⟨name, file⟩, AList.mem_lookup_iff.mp hlookup, hx⟩

theorem mem_inDeleted {x : UInt8 × Nat} :
    x ∈ f.inDeleted ↔ ∃ name file, (name, file) ∈ f.deleted ∧ x ∈ file := by
  unfold inDeleted
  rw [List.mem_flatMap]
  exact ⟨fun ⟨⟨name, file⟩, hmem, hx⟩ => ⟨name, file, hmem, hx⟩,
    fun ⟨name, file, hmem, hx⟩ => ⟨(name, file), hmem, hx⟩⟩

/-- What is somewhere is counted. -/
theorem kept_iff_count : f.Kept ↔ f.current.map Prod.fst = f.run.log.disk ∧
    ∀ x ∈ f.flushed.zipIdx, 0 < f.current.count x + f.inBackups.count x + f.inDeleted.count x := by
  unfold Kept
  refine and_congr_right fun _ => forall₂_congr fun x _ => ?_
  rw [← mem_inBackups, ← mem_inDeleted, ← List.count_pos_iff, ← List.count_pos_iff,
    ← List.count_pos_iff]
  omega

theorem Intact.kept (h : f.Intact) (hdisk : f.current.map Prod.fst = f.run.log.disk) : f.Kept := by
  refine kept_iff_count.mpr ⟨hdisk, fun x hx => ?_⟩
  rw [h x]
  exact List.count_pos_iff.mpr hx

/-! ## The parts of a step -/

theorem Intact.grown (h : f.Intact) (run : LogRun) (written : Bytes) (time : Int) :
    (f.grown run written time).Intact := by
  intro x
  have hx := h x
  unfold LogFolder.grown inBackups inDeleted at *
  dsimp only
  rw [List.count_append, List.zipIdx_append, List.count_append, Nat.zero_add]
  omega

theorem map_grown (hdisk : f.current.map Prod.fst = f.run.log.disk) (run : LogRun)
    (written : Bytes) (time : Int) :
    (f.grown run written time).current.map Prod.fst = f.run.log.disk ++ written := by
  unfold LogFolder.grown
  dsimp only
  rw [List.map_append, hdisk, List.zipIdx_map_fst]

/-- The files are as they were but for what is deleted. -/
theorem clean_cases (zone : Zone) (f : LogFolder) (listing : List FileName) :
    f.clean zone listing = f ∨ ∃ name file,
      cleanDirectory zone f.maxBackups listing = some name ∧ f.backups.lookup name = some file ∧
        f.clean zone listing =
          { f with backups := f.backups.erase name, deleted := f.deleted ++ [(name, file)] } := by
  unfold LogFolder.clean
  split
  · exact .inl rfl
  · next name hname =>
    split
    · exact .inl rfl
    · next file hfile => exact .inr ⟨name, file, hname, hfile, rfl⟩

theorem count_erase {name : FileName} {file : Numbered} (h : f.backups.lookup name = some file)
    (x : UInt8 × Nat) :
    f.inBackups.count x =
      file.count x + ((f.backups.erase name).entries.flatMap (·.2)).count x := by
  unfold inBackups
  rw [((AList.entries_perm_erase h).flatMap_right (·.2)).count_eq, List.flatMap_cons, List.count_append]

theorem Intact.clean (h : f.Intact) (zone : Zone) (listing : List FileName) :
    (f.clean zone listing).Intact := by
  rcases clean_cases zone f listing with heq | ⟨name, file, -, hfile, heq⟩
  · rw [heq]
    exact h
  · rw [heq]
    intro x
    have hx := h x
    have hcount := count_erase hfile x
    unfold inDeleted at hx ⊢
    unfold inBackups at hcount hx ⊢
    dsimp only
    rw [List.flatMap_append, List.flatMap_singleton, List.count_append]
    dsimp only
    omega

/-- The bytes that a rename replaces. -/
def replaced (zone : Zone) (f : LogFolder) (time : Int) : Numbered :=
  (f.backups.lookup (backupName zone time)).getD []

theorem replaced_eq_nil_iff {time : Int} : f.replaced zone time = [] ↔
    ∀ file, f.backups.lookup (backupName zone time) = some file → file = [] := by
  unfold replaced
  cases f.backups.lookup (backupName zone time) with
  | none => exact iff_of_true rfl fun file hsome => by cases hsome
  | some file => exact ⟨fun hnil _ hsome => by cases hsome; exact hnil, fun hall => hall file rfl⟩

/-- A rename moves the bytes, all but those that it replaces. -/
theorem count_rename (zone : Zone) (f : LogFolder) (time : Int) (x : UInt8 × Nat) :
    (f.rename zone time).current.count x + (f.rename zone time).inBackups.count x +
        (f.rename zone time).inDeleted.count x + (f.replaced zone time).count x =
      f.current.count x + f.inBackups.count x + f.inDeleted.count x := by
  have hbackups : (f.rename zone time).inBackups.count x = f.current.count x +
      ((f.backups.erase (backupName zone time)).entries.flatMap (·.2)).count x := by
    unfold rename inBackups
    dsimp only
    rw [AList.entries_insert, List.flatMap_cons, List.count_append]
    rfl
  have hdeleted : (f.rename zone time).inDeleted = f.inDeleted := rfl
  have hcurrent : (f.rename zone time).current = [] := rfl
  have hrest : f.inBackups.count x = (f.replaced zone time).count x +
      ((f.backups.erase (backupName zone time)).entries.flatMap (·.2)).count x := by
    unfold replaced
    cases hfile : f.backups.lookup (backupName zone time) with
    | none =>
      have hsame : f.backups.erase (backupName zone time) = f.backups :=
        AList.ext (List.kerase_of_notMem_keys (AList.lookup_eq_none.mp hfile))
      rw [hsame, Option.getD_none, List.count_nil, Nat.zero_add]
      rfl
    | some file => exact count_erase hfile x
  rw [hbackups, hdeleted, hcurrent, List.count_nil]
  omega

/-- The bytes are all still there if and only if none were replaced. -/
theorem Intact.rename_iff (h : f.Intact) (zone : Zone) (time : Int) :
    ((∀ x ∈ f.flushed.zipIdx, 0 < (f.rename zone time).current.count x +
        (f.rename zone time).inBackups.count x + (f.rename zone time).inDeleted.count x) ↔
      f.replaced zone time = []) ∧
      (f.replaced zone time = [] → (f.rename zone time).Intact) := by
  have hcount := count_rename zone f time
  refine ⟨⟨fun hkept => ?_, fun hnil x hx => ?_⟩, fun hnil x => ?_⟩
  · by_contra hne
    obtain ⟨x, hx⟩ := List.exists_mem_of_ne_nil _ hne
    have hpos := List.count_pos_iff.mpr hx
    have honce : f.flushed.zipIdx.count x ≤ 1 :=
      List.nodup_iff_count_le_one.mp (List.Nodup.of_map _ (List.nodup_zipIdx_map_snd _)) x
    have hall := h x
    have hsum := hcount x
    have hmem : x ∈ f.flushed.zipIdx := List.count_pos_iff.mp (by omega)
    have hstill := hkept x hmem
    omega
  · have hpos := List.count_pos_iff.mpr hx
    have hall := h x
    have hsum := hcount x
    rw [hnil, List.count_nil] at hsum
    omega
  · have hall := h x
    have hsum := hcount x
    rw [hnil, List.count_nil] at hsum
    exact (Nat.add_zero _).symm.trans (hsum.trans hall)

/-! ## Which file is deleted -/

theorem accepted_of_backup (h : zone.FixedOffset) {name : FileName} (hname : IsBackupName zone name) :
    Accepted zone name := by
  obtain ⟨t, ht, rfl⟩ := hname
  have htime := h.timestamp ht
  have hpos : timeFileFormatToTimestampMs zone (backupName zone t) ≠ -1 := by
    rw [htime]
    have := ht.1.1
    omega
  refine ⟨⟨fun heq => ?_, fun heq => ?_⟩, hpos⟩ <;> exact hpos (by rw [heq]; rfl)

variable {name : FileName} {listing : List FileName}

/-- Of the names in the directory, the backups are accepted. -/
theorem mem_backups (hperm : listing.Perm f.names) (hmem : name ∈ listing)
    (hacc : Accepted zone name) : name ∈ f.backups := by
  have hin := hperm.mem_iff.mp hmem
  unfold names at hin
  rcases List.mem_cons.mp hin with rfl | hin
  · exact absurd rfl hacc.1.2
  · rcases List.mem_cons.mp hin with rfl | hin
    · exact absurd rfl hacc.1.1
    · rcases List.mem_cons.mp hin with rfl | hin
      · exact absurd rfl hacc.2
      · exact AList.mem_keys.mpr hin

theorem mem_listing (hperm : listing.Perm f.names) (hmem : name ∈ f.backups) : name ∈ listing := by
  refine hperm.mem_iff.mpr ?_
  iterate 3 refine List.mem_cons_of_mem _ ?_
  exact AList.mem_keys.mp hmem

theorem count_listing (h : zone.FixedOffset) (hnamed : f.Named zone) (hperm : listing.Perm f.names) :
    listing.countP (decide <| Accepted zone ·) = f.backups.keys.length := by
  rw [hperm.countP_eq, count_names, List.countP_eq_length]
  exact fun name hname =>
    decide_eq_true (accepted_of_backup h (hnamed name (AList.mem_keys.mpr hname)))

/-- `cleanDirectory` deletes the first of the earliest of too many backups, and no other. -/
theorem clean_lookup (h : zone.FixedOffset) (hnamed : f.Named zone)
    (hperm : listing.Perm f.names) (target : FileName) :
    (f.maxBackups < f.backups.keys.length ∧ First zone listing target →
        (f.clean zone listing).backups.lookup target = none) ∧
      (¬ (f.maxBackups < f.backups.keys.length ∧ First zone listing target) →
        (f.clean zone listing).backups.lookup target = f.backups.lookup target) := by
  have hdeletes : cleanDirectory zone f.maxBackups listing = some target ↔
      f.maxBackups < f.backups.keys.length ∧ First zone listing target := by
    rw [cleanDirectory_eq_some, count_listing h hnamed hperm]
  rw [← hdeletes]
  constructor
  · intro hsome
    have hfirst := (hdeletes.mp hsome).2
    obtain ⟨file, hfile⟩ := Option.isSome_iff_exists.mp
      (AList.lookup_isSome.mpr (mem_backups hperm hfirst.mem hfirst.accepted))
    unfold LogFolder.clean
    rw [hsome]
    dsimp only
    rw [hfile]
    exact AList.lookup_erase _ _
  · intro hnot
    rcases clean_cases zone f listing with heq | ⟨name, file, hname, -, heq⟩
    · rw [heq]
    · rw [heq]
      refine AList.lookup_erase_ne fun htarget => hnot ?_
      rw [htarget]
      exact hname

/-- What `cleanDirectory` deletes is the oldest backup. -/
theorem clean_deletes (h : zone.FixedOffset) (hnamed : f.Named zone)
    (hperm : listing.Perm f.names) {file : FileName × Numbered}
    (hmem : file ∈ (f.clean zone listing).deleted) :
    file ∈ f.deleted ∨ ∃ t, zone.Tells t ∧ file.1 = backupName zone t ∧
      f.backups.lookup file.1 = some file.2 ∧
        ∀ u, zone.Tells u → backupName zone u ∈ f.backups → t ≤ u := by
  rcases clean_cases zone f listing with heq | ⟨name, bytes, hname, hfile, heq⟩
  · rw [heq] at hmem
    exact .inl hmem
  · rw [heq] at hmem
    rcases List.mem_append.mp hmem with hold | hnew
    · exact .inl hold
    · obtain rfl := List.mem_singleton.mp hnew
      have hfirst := (cleanDirectory_eq_some.mp hname).2
      obtain ⟨t, ht, rfl⟩ := hnamed name (mem_backups hperm hfirst.mem hfirst.accepted)
      refine .inr ⟨t, ht, rfl, hfile, fun u hu hin => ?_⟩
      have hle := hfirst.first _ (mem_listing hperm hin) (accepted_of_backup h ⟨u, hu, rfl⟩)
      unfold Earlier at hle
      rw [h.timestamp ht, h.timestamp hu] at hle
      omega

theorem Named.clean (hnamed : f.Named zone) (listing : List FileName) :
    (f.clean zone listing).Named zone := by
  rcases clean_cases zone f listing with heq | ⟨name, file, -, -, heq⟩
  · rw [heq]
    exact hnamed
  · rw [heq]
    exact fun other hother => hnamed other (AList.mem_erase.mp hother).2

theorem clean_rest (zone : Zone) (f : LogFolder) (listing : List FileName) :
    (f.clean zone listing).run = f.run ∧ (f.clean zone listing).current = f.current ∧
      (f.clean zone listing).flushed = f.flushed := by
  rcases clean_cases zone f listing with heq | ⟨name, file, -, -, heq⟩ <;>
    rw [heq] <;> exact ⟨rfl, rfl, rfl⟩

/-! ## One step -/

/-- What holds as long as no backup is replaced. -/
structure Sound (zone : Zone) (f : LogFolder) : Prop where
  fits : f.run.log.Fits
  disk : f.current.map Prod.fst = f.run.log.disk
  intact : f.Intact
  named : f.Named zone

theorem Sound.step_kept_iff (h : zone.FixedOffset) (hf : f.Sound zone) (ht : zone.Tells a.time)
    (hs : step zone f a = some g) :
    (g.Kept ↔ f.Fresh zone a) ∧ (g.Kept → g.Sound zone) := by
  obtain ⟨run, written, hperm, hfits, hcases⟩ := step_cases hf.fits hs
  have hgrown := hf.intact.grown run written a.time
  have hmap := map_grown hf.disk run written a.time
  have hnamed : (f.grown run written a.time).Named zone := hf.named
  have hclean := hgrown.clean zone a.listing
  obtain ⟨hrun, hcurrent, hflushed⟩ := clean_rest zone (f.grown run written a.time) a.listing
  rcases hcases with ⟨hrot, hdisk, rfl⟩ | ⟨-, hren, hdisk, rfl⟩ | ⟨hrot, hren, hdisk, rfl⟩
  · have hsound : (f.grown run written a.time).Sound zone :=
      ⟨hfits, hmap.trans hdisk.symm, hgrown, hnamed⟩
    exact ⟨iff_of_true (hgrown.kept hsound.disk) fun hrot' => absurd hrot' hrot, fun _ => hsound⟩
  · have hsound : ((f.grown run written a.time).clean zone a.listing).Sound zone := by
      refine ⟨?_, ?_, hclean, hnamed.clean _⟩
      · rw [hrun]
        exact hfits
      · rw [hrun, hcurrent, hmap]
        exact hdisk.symm
    exact ⟨iff_of_true (hclean.kept hsound.disk) fun _ hren' => absurd hren' (by simp [hren]),
      fun _ => hsound⟩
  · obtain ⟨hiff, hintact⟩ := hclean.rename_iff zone a.time
    rw [replaced_eq_nil_iff] at hiff hintact
    obtain ⟨hgone, hsame⟩ := clean_lookup h hnamed hperm (backupName zone a.time)
    have hfresh : (∀ file, ((f.grown run written a.time).clean zone a.listing).backups.lookup
        (backupName zone a.time) = some file → file = []) ↔ f.Fresh zone a := by
      constructor
      · intro hempty _ _ file hfile
        by_cases hdel : f.maxBackups < f.backups.keys.length ∧
            First zone a.listing (backupName zone a.time)
        · exact .inr hdel
        · exact .inl (hempty file ((hsame hdel).trans hfile))
      · intro hfresh file hfile
        by_cases hdel : f.maxBackups < f.backups.keys.length ∧
            First zone a.listing (backupName zone a.time)
        · rw [hgone hdel] at hfile
          cases hfile
        · exact (hfresh hrot hren file ((hsame hdel).symm.trans hfile)).resolve_right hdel
    have hmoved : (((f.grown run written a.time).clean zone a.listing).rename zone
        a.time).current.map Prod.fst = run.log.disk := hdisk.symm
    have hlog : (((f.grown run written a.time).clean zone a.listing).rename zone
        a.time).run = run := hrun
    rw [kept_iff_count, hlog]
    refine ⟨?_, fun hkept => ⟨?_, ?_, hintact (hiff.mp hkept.2), ?_⟩⟩
    · rw [and_iff_right hmoved, ← hfresh, ← hiff]
      rfl
    · rw [hlog]
      exact hfits
    · rw [hlog]
      exact hmoved
    · intro name hname
      rcases (AList.mem_insert _).mp hname with rfl | hold
      · exact ⟨a.time, ht, rfl⟩
      · exact hnamed.clean a.listing name hold

/-- A step deletes no file but the oldest backup. -/
theorem Sound.step_deletes (h : zone.FixedOffset) (hf : f.Sound zone)
    (hs : step zone f a = some g) {file : FileName × Numbered} (hmem : file ∈ g.deleted) :
    file ∈ f.deleted ∨ ∃ t, zone.Tells t ∧ file.1 = backupName zone t ∧
      f.backups.lookup file.1 = some file.2 ∧
        ∀ u, zone.Tells u → backupName zone u ∈ f.backups → t ≤ u := by
  obtain ⟨run, written, hperm, -, hcases⟩ := step_cases hf.fits hs
  have hnamed : (f.grown run written a.time).Named zone := hf.named
  rcases hcases with ⟨-, -, rfl⟩ | ⟨-, -, -, rfl⟩ | ⟨-, -, -, rfl⟩
  · exact .inl hmem
  · exact clean_deletes h hnamed hperm hmem
  · exact clean_deletes h hnamed hperm hmem

/-! ## Runs -/

/-- The log is about to start in a directory with log.txt and backups. -/
structure Starts (zone : Zone) (f : LogFolder) : Prop where
  run : f.run = { log := { disk := f.current.map Prod.fst, maxSize := f.run.log.maxSize } }
  intact : f.Intact
  named : f.Named zone

theorem Starts.sound (h : f.Starts zone) : f.Sound zone := by
  refine ⟨?_, ?_, h.intact, h.named⟩
  · rw [h.run]
    exact ⟨Nat.le_refl 0, .inr ⟨rfl, rfl⟩⟩
  · rw [h.run]

end LogFolder

open LogFolder

/-- As long as no rotation replaces a backup with bytes in it, every byte flushed is in
log.txt, in a backup or in a file that `cleanDirectory` deleted; a rotation that replaces one
ends that.  What `cleanDirectory` deletes is always the oldest backup. -/
theorem rotation_keeps_bytes {zone : Zone} (h : zone.FixedOffset) {f0 : LogFolder}
    (h0 : f0.Starts zone) :
    (∀ f, ReachIf (step zone) (fun f a => zone.Tells a.time ∧ f.Fresh zone a) f0 f → f.Kept) ∧
      ∀ f a g, ReachIf (step zone) (fun f a => zone.Tells a.time ∧ f.Fresh zone a) f0 f →
        zone.Tells a.time → step zone f a = some g →
          (g.Kept ↔ f.Fresh zone a) ∧
            ∀ file ∈ g.deleted, file ∈ f.deleted ∨
              ∃ t, zone.Tells t ∧ file.1 = backupName zone t ∧
                f.backups.lookup file.1 = some file.2 ∧
                  ∀ u, zone.Tells u → backupName zone u ∈ f.backups → t ≤ u := by
  have hall {f : LogFolder} (hreach : ReachIf (step zone)
      (fun f a => zone.Tells a.time ∧ f.Fresh zone a) f0 f) : f.Sound zone := by
    refine hreach.invariant h0.sound fun f a g hf ⟨ht, hfresh⟩ hs => ?_
    obtain ⟨hiff, hsound⟩ := hf.step_kept_iff h ht hs
    exact hsound (hiff.mpr hfresh)
  refine ⟨fun f hreach => (hall hreach).intact.kept (hall hreach).disk, ?_⟩
  intro f a g hreach ht hs
  exact ⟨((hall hreach).step_kept_iff h ht hs).1,
    fun file hmem => (hall hreach).step_deletes h hs hmem⟩

theorem LogFolder.start_starts (zone : Zone) (maxSize maxBackups : Int) :
    (start maxSize maxBackups [] ∅ []).Starts zone :=
  ⟨rfl, fun _ => rfl, fun name hname => absurd hname (AList.notMem_empty name)⟩

/-- The byte of the first backup. -/
theorem rotation_keeps_bytes_first : ∃ f : LogFolder, f.flushed = ascii "a" ∧ f.current = [] ∧
    f.deleted = [] ∧ f.Kept := by
  let e : FlushEnv := { accepts := fun _ => 512 }
  obtain ⟨f, hreach, hend⟩ := reach_of_any
    (guarded (step (Zone.ahead 28800)) fun f a =>
      (Zone.ahead 28800).Tells a.time ∧ f.backups.keys = [])
    (start 1 10 [] ∅ [])
    [{ act := .push (ascii "a"), time := 5
       listing := ["..".toList, ".".toList, "log.txt".toList] },
      { act := .flush e, time := 5
        listing := ["..".toList, ".".toList, "log.txt".toList] }]
    (fun f => f.flushed = ascii "a" ∧ f.current = [] ∧ f.deleted = []) (by decide +kernel)
  have hfresh : ReachIf (step (Zone.ahead 28800))
      (fun f a => (Zone.ahead 28800).Tells a.time ∧ f.Fresh (Zone.ahead 28800) a)
      (start 1 10 [] ∅ []) f := by
    refine (reachIf_of_guarded hreach).mono fun f a ⟨ht, hnone⟩ => ⟨ht, fun _ _ file hfile => ?_⟩
    have hmem := AList.mem_keys.mp (AList.lookup_isSome.mp (Option.isSome_of_eq_some hfile))
    rw [hnone] at hmem
    exact absurd hmem List.not_mem_nil
  obtain ⟨hflushed, hcurrent, hdeleted⟩ := of_decide_eq_true hend
  exact ⟨f, hflushed, hcurrent, hdeleted, (rotation_keeps_bytes (Zone.ahead_fixedOffset 28800)
    (start_starts (Zone.ahead 28800) 1 10)).1 f hfresh⟩

/-- Two rotations within a millisecond: the second backup replaces the first. -/
theorem same_millisecond_loses_backup :
    ∃ f, ReachIf (step (Zone.ahead 28800))
        (fun f a => (f.clock ≤ a.time ∧ (Zone.ahead 28800).Tells a.time) ∧ a.Succeeds)
        (start 1 10 [] ∅ []) f ∧ f.flushed = ascii "ab" ∧ f.current = [] ∧ f.deleted = [] ∧
      f.backups.keys = ["1970-01-01T08_00_00.005.txt".toList] ∧ ¬ f.Kept := by
  let e : FlushEnv := { accepts := fun _ => 512 }
  have hworks : e.opens = true ∧ (∀ k, 0 < e.accepts k) ∧ e.renames = true :=
    ⟨rfl, fun _ => Nat.succ_pos 511, rfl⟩
  obtain ⟨f, hreach, hend⟩ := reachIf_of_any
    (guarded (step (Zone.ahead 28800)) fun f a =>
      f.clock ≤ a.time ∧ (Zone.ahead 28800).Tells a.time) (fun _ a => a.Succeeds)
    (start 1 10 [] ∅ [])
    [{ act := .push (ascii "a"), time := 5
       listing := ["..".toList, ".".toList, "log.txt".toList] },
      { act := .flush e, time := 5
        listing := ["..".toList, ".".toList, "log.txt".toList] },
      { act := .push (ascii "b"), time := 5
        listing := ["..".toList, ".".toList, "log.txt".toList,
          "1970-01-01T08_00_00.005.txt".toList] },
      { act := .flush e, time := 5
        listing := ["..".toList, ".".toList, "log.txt".toList,
          "1970-01-01T08_00_00.005.txt".toList] }]
    (fun f => f.flushed = ascii "ab" ∧ f.current = [] ∧ f.deleted = [] ∧
      f.backups.keys = ["1970-01-01T08_00_00.005.txt".toList] ∧ f.inBackups = [(98, 1)])
    (by
      iterate 2
        refine List.forall_mem_cons.mpr ⟨fun _ => trivial, ?_⟩
        refine List.forall_mem_cons.mpr ⟨fun _ => hworks, ?_⟩
      exact fun a ha => absurd ha List.not_mem_nil)
    (by decide +kernel)
  obtain ⟨hflushed, hcurrent, hdeleted, hkeys, hbackups⟩ := of_decide_eq_true hend
  refine ⟨f, hreach.of_guarded, hflushed, hcurrent, hdeleted, hkeys, fun hkept => ?_⟩
  have hstill := (kept_iff_count.mp hkept).2 (97, 0) (by rw [hflushed]; decide)
  unfold inDeleted at hstill
  rw [hcurrent, hbackups, hdeleted] at hstill
  exact absurd hstill (by decide)

end VideoPlayerCore
