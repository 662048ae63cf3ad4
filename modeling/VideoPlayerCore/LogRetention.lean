import VideoPlayerCore.LogFolder

/-!
# How many backups are kept

`cleanDirectory` counts before `rename` adds a backup, and deletes one if there are more than
`_maxBackups`: with `_maxBackups` of them it deletes none, and then there is one more.

    at most maxBackups before → (at most maxBackups after ↔ Room)       (step_retains_iff)
-/

/-- A key that is there is replaced. -/
theorem AList.length_keys_insert {α : Type*} {β : α → Type*} [DecidableEq α] (s : AList β)
    (a : α) (b : β a) :
    (s.insert a b).keys.length = if a ∈ s then s.keys.length else s.keys.length + 1 := by
  rw [AList.keys_insert, List.length_cons]
  by_cases hmem : a ∈ s
  · have hpos := List.length_pos_of_mem (AList.mem_keys.mp hmem)
    rw [if_pos hmem, List.length_erase_of_mem (AList.mem_keys.mp hmem)]
    omega
  · rw [if_neg hmem, List.erase_of_not_mem (mt AList.mem_keys.mpr hmem)]

namespace VideoPlayerCore

open Machine

namespace LogFolder

variable {zone : Zone} {f g : LogFolder} {a : FolderAct}

/-- The number of backups is within `_maxBackups`. -/
def Retains (f : LogFolder) : Prop := f.backups.keys.length ≤ f.maxBackups

/-- A rotation adds a backup only when there are fewer than `_maxBackups`. -/
def Room (zone : Zone) (f : LogFolder) (a : FolderAct) : Prop :=
  f.run.log.Rotates a.act → a.act.renames = true →
    f.backups.keys.length < f.maxBackups ∨ backupName zone a.time ∈ f.backups

/-- Neither log.txt nor the directory itself counts. -/
theorem count_names (zone : Zone) (f : LogFolder) :
    f.names.countP (decide <| Accepted zone ·) =
      f.backups.keys.countP (decide <| Accepted zone ·) := by
  have hskip (name : FileName) (rest : List FileName) (h : ¬ Accepted zone name) :
      (name :: rest).countP (decide <| Accepted zone ·) =
        rest.countP (decide <| Accepted zone ·) :=
    List.countP_cons_of_neg (mt of_decide_eq_true h)
  unfold names
  rw [hskip _ _ fun h => h.1.2 rfl, hskip _ _ fun h => h.1.1 rfl, hskip _ _ fun h => h.2 rfl]

/-- With at most `_maxBackups` of them nothing is deleted. -/
theorem Retains.clean (h : f.Retains) {listing : List FileName} (hperm : listing.Perm f.names) :
    f.clean zone listing = f := by
  have hcount : listing.countP (decide <| Accepted zone ·) ≤ f.backups.keys.length := by
    rw [hperm.countP_eq, count_names]
    exact List.countP_le_length
  have hnone : cleanDirectory zone f.maxBackups listing = none := by
    refine Option.eq_none_iff_forall_ne_some.mpr fun name hname => ?_
    have hover := (cleanDirectory_eq_some.mp hname).1
    unfold Retains at h
    omega
  unfold LogFolder.clean
  rw [hnone]

theorem step_retains_iff (hfits : f.run.log.Fits) (h : f.Retains) (hs : step zone f a = some g) :
    g.run.log.Fits ∧ (g.Retains ↔ Room zone f a) := by
  obtain ⟨run, written, hperm, hfits', hcases⟩ := step_cases hfits hs
  have hclean : (f.grown run written a.time).clean zone a.listing = f.grown run written a.time :=
    Retains.clean (f := f.grown run written a.time) h hperm
  rcases hcases with ⟨hrot, -, rfl⟩ | ⟨-, hren, -, rfl⟩ | ⟨hrot, hren, -, rfl⟩
  · exact ⟨hfits', iff_of_true h fun hrot' => absurd hrot' hrot⟩
  · rw [hclean]
    exact ⟨hfits', iff_of_true h fun _ hren' => absurd hren' (by simp [hren])⟩
  · rw [hclean]
    refine ⟨hfits', ?_⟩
    unfold Retains at h
    unfold Retains Room
    unfold rename grown
    dsimp only
    rw [AList.length_keys_insert]
    by_cases hmem : backupName zone a.time ∈ f.backups
    · rw [if_pos hmem]
      exact iff_of_true h fun _ _ => .inr hmem
    · rw [if_neg hmem]
      constructor
      · intro hle _ _
        exact .inl (by omega)
      · intro hroom
        rcases hroom hrot hren with hlt | hin
        · omega
        · exact absurd hin hmem

end LogFolder

open LogFolder

/-- The log starts with these files in its directory. -/
def LogFolder.start (maxSize maxBackups : Int) (current : Numbered)
    (backups : AList fun _ : FileName => Numbered) (flushed : Bytes) : LogFolder where
  run := { log := { disk := current.map Prod.fst, maxSize := maxSize } }
  current := current
  backups := backups
  maxBackups := maxBackups
  flushed := flushed

/-- As long as every rotation finds fewer than `_maxBackups` backups, there are never more;
one that finds `_maxBackups` makes one too many. -/
theorem backups_retained (zone : Zone) (maxSize maxBackups : Int) (current : Numbered)
    (backups : AList fun _ : FileName => Numbered) (flushed : Bytes)
    (h0 : backups.keys.length ≤ maxBackups) :
    (∀ f, ReachIf (step zone) (Room zone) (start maxSize maxBackups current backups flushed) f →
      f.Retains) ∧
      ∀ f a g, ReachIf (step zone) (Room zone)
          (start maxSize maxBackups current backups flushed) f →
        step zone f a = some g → (g.Retains ↔ Room zone f a) := by
  have hall {f : LogFolder} (h : ReachIf (step zone) (Room zone)
      (start maxSize maxBackups current backups flushed) f) : f.run.log.Fits ∧ f.Retains := by
    refine h.invariant (I := fun f => f.run.log.Fits ∧ f.Retains)
      ⟨⟨Nat.le_refl 0, .inr ⟨rfl, rfl⟩⟩, h0⟩ fun f a g ⟨hfits, hf⟩ hroom hs => ?_
    obtain ⟨hfits', hiff⟩ := step_retains_iff hfits hf hs
    exact ⟨hfits', hiff.mpr hroom⟩
  refine ⟨fun f h => (hall h).2, fun f a g h hs => ?_⟩
  obtain ⟨hfits, hf⟩ := hall h
  exact (step_retains_iff hfits hf hs).2

/-- The first backup of one. -/
theorem backups_retained_first : ∃ f : LogFolder, f.backups.keys.length = 1 ∧ f.Retains := by
  let e : FlushEnv := { accepts := fun _ => 512 }
  obtain ⟨f, hreach, hend⟩ := reach_of_any
    (guarded (step (Zone.ahead 28800)) fun f _ => (f.backups.keys.length : Int) < f.maxBackups)
    (start 1 1 [] ∅ [])
    [{ act := .push (ascii "a"), time := 1
       listing := [".".toList, "..".toList, "log.txt".toList] },
      { act := .flush e, time := 2
        listing := ["log.txt".toList, "..".toList, ".".toList] }]
    (fun f => f.backups.keys.length = 1) (by decide +kernel)
  have hroom : ReachIf (step (Zone.ahead 28800)) (Room (Zone.ahead 28800)) (start 1 1 [] ∅ []) f :=
    (reachIf_of_guarded hreach).mono fun f a hlt _ _ => .inl hlt
  exact ⟨f, of_decide_eq_true hend,
    (backups_retained (Zone.ahead 28800) 1 1 [] ∅ [] (by decide)).1 f hroom⟩

/-- The calls of the file system succeed. -/
def FolderAct.Succeeds (a : FolderAct) : Prop :=
  match a.act with
  | .log _ e | .flush e => e.opens = true ∧ (∀ k, 0 < e.accepts k) ∧ e.renames = true
  | _ => True

/-- With one backup to be kept, the second rotation leaves two. -/
theorem one_backup_too_many :
    ∃ f, ReachIf (step (Zone.ahead 28800)) (fun f a => f.clock < a.time ∧ a.Succeeds)
        (start 1 1 [] ∅ []) f ∧ f.maxBackups = 1 ∧ f.backups.keys.length = 2 ∧ ¬ f.Retains := by
  let e : FlushEnv := { accepts := fun _ => 512 }
  have hworks : e.opens = true ∧ (∀ k, 0 < e.accepts k) ∧ e.renames = true :=
    ⟨rfl, fun _ => Nat.succ_pos 511, rfl⟩
  obtain ⟨f, hreach, hend⟩ := reachIf_of_any
    (guarded (step (Zone.ahead 28800)) fun f a => f.clock < a.time) (fun _ a => a.Succeeds)
    (start 1 1 [] ∅ [])
    [{ act := .push (ascii "a"), time := 1
       listing := ["..".toList, ".".toList, "log.txt".toList] },
      { act := .flush e, time := 2
        listing := ["..".toList, ".".toList, "log.txt".toList] },
      { act := .push (ascii "b"), time := 3
        listing := ["..".toList, ".".toList, "log.txt".toList,
          "1970-01-01T08_00_00.002.txt".toList] },
      { act := .flush e, time := 4
        listing := ["..".toList, ".".toList, "log.txt".toList,
          "1970-01-01T08_00_00.002.txt".toList] }]
    (fun f => f.maxBackups = 1 ∧ f.backups.keys.length = 2)
    (by
      iterate 2
        refine List.forall_mem_cons.mpr ⟨fun _ => trivial, ?_⟩
        refine List.forall_mem_cons.mpr ⟨fun _ => hworks, ?_⟩
      exact fun a ha => absurd ha List.not_mem_nil)
    (by decide +kernel)
  obtain ⟨hmax, hlen⟩ := of_decide_eq_true hend
  refine ⟨f, hreach.of_guarded, hmax, hlen, fun h => ?_⟩
  unfold Retains at h
  omega

end VideoPlayerCore
