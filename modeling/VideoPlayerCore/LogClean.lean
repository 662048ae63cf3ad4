import Mathlib.Data.List.Basic
import Mathlib.Data.List.Induction
import VideoPlayerCore.LogNames

/-!
# cleanDirectory

Every name of the log directory that `timeFileFormatToTimestampMs` accepts counts as a
backup, and with more than `_maxBackups` of them the one with the earliest time is deleted.
`sscanf` accepts more than `getTimeFileFormat` writes: it has stored its seven numbers before
it comes to `.txt`.

    it deletes name ↔ more than _maxBackups names are accepted ∧ First name
                                                                  (cleanDirectory_eq_some)
    DeletesOldest ↔ OwnFirst                                      (deletes_oldest_backup_iff)

The local zone may be any here: what a name denotes is what the code reads from it.
-/

namespace VideoPlayerCore

/-! ## The scan -/

abbrev FileName := List Char

structure Clean where
  earlyfile : FileName := []
  earliestTime : Int := 0x7FFFFFFFFFFFFFFF
  fileCount : Nat := 0
  deriving DecidableEq

variable {zone : Zone} {maxBackups : Int} {listing : List FileName} {name : FileName}

/-- One entry of the directory. -/
def Clean.entry (zone : Zone) (s : Clean) (name : FileName) : Clean :=
  if name ≠ ".".toList ∧ name ≠ "..".toList then
    let currentTime := timeFileFormatToTimestampMs zone name
    if currentTime ≠ -1 then
      let s :=
        if currentTime < s.earliestTime then
          { s with earliestTime := currentTime, earlyfile := name }
        else s
      { s with fileCount := s.fileCount + 1 }
    else s
  else s

/-- `cleanDirectory`, with the names in the order of `readdir`: the file that is unlinked.
An empty `earlyfile` is the directory itself, which `unlink` refuses. -/
def cleanDirectory (zone : Zone) (maxBackups : Int) (listing : List FileName) :
    Option FileName :=
  let s := listing.foldl (Clean.entry zone) {}
  if maxBackups < s.fileCount ∧ s.earlyfile ≠ [] then some s.earlyfile else none

/-! ## What it counts and what it picks -/

/-- `cleanDirectory` takes the name for that of a backup. -/
def Accepted (zone : Zone) (name : FileName) : Prop :=
  (name ≠ ".".toList ∧ name ≠ "..".toList) ∧ timeFileFormatToTimestampMs zone name ≠ -1

instance (zone : Zone) (name : FileName) : Decidable (Accepted zone name) :=
  inferInstanceAs (Decidable (_ ∧ _))

/-- The latest `time_t`: the scan starts with it. -/
def lastTime : Int := 0x7FFFFFFFFFFFFFFF

/-- `a` is earlier than `b`, or as early and listed first. -/
def Earlier (zone : Zone) (listing : List FileName) (a b : FileName) : Prop :=
  timeFileFormatToTimestampMs zone a < timeFileFormatToTimestampMs zone b ∨
    timeFileFormatToTimestampMs zone a = timeFileFormatToTimestampMs zone b ∧
      listing.idxOf a ≤ listing.idxOf b

/-- The first of the earliest accepted names. -/
structure First (zone : Zone) (listing : List FileName) (name : FileName) : Prop where
  mem : name ∈ listing
  accepted : Accepted zone name
  time : timeFileFormatToTimestampMs zone name < lastTime
  first : ∀ other ∈ listing, Accepted zone other → Earlier zone listing name other

/-- What the scan knows of the names it has seen. -/
structure Scanned (zone : Zone) (seen : List FileName) (s : Clean) : Prop where
  fileCount : s.fileCount = seen.countP (decide <| Accepted zone ·)
  pick : (s.earlyfile = [] ∧ s.earliestTime = lastTime ∧
      ∀ other ∈ seen, Accepted zone other → lastTime ≤ timeFileFormatToTimestampMs zone other) ∨
    First zone seen s.earlyfile ∧
      s.earliestTime = timeFileFormatToTimestampMs zone s.earlyfile

theorem accepted_ne_nil (h : Accepted zone name) : name ≠ [] := by
  rintro rfl
  exact h.2 rfl

variable {seen : List FileName} {a b : FileName}

/-- There is only one. -/
theorem First.unique (ha : First zone listing a) (hb : First zone listing b) : a = b := by
  have hle := ha.first b hb.mem hb.accepted
  have hge := hb.first a ha.mem ha.accepted
  have hidx : listing.idxOf a = listing.idxOf b := by
    unfold Earlier at hle hge
    omega
  exact (List.idxOf_inj ha.mem).mp hidx

/-- One more name behind the others leaves their order as it is. -/
theorem Earlier.concat (ha : a ∈ seen) (h : b ∈ seen → Earlier zone seen a b)
    (hnew : b ∉ seen → timeFileFormatToTimestampMs zone a ≤ timeFileFormatToTimestampMs zone b) :
    Earlier zone (seen ++ [name]) a b := by
  unfold Earlier at h ⊢
  rw [List.idxOf_append_of_mem ha]
  by_cases hb : b ∈ seen
  · rw [List.idxOf_append_of_mem hb]
    exact h hb
  · have hlast : seen.idxOf a ≤ (seen ++ [name]).idxOf b := by
      rw [List.idxOf_append_of_notMem hb]
      have := List.idxOf_lt_length_of_mem ha
      omega
    rcases Int.lt_or_eq_of_le (hnew hb) with hlt | heq
    · exact .inl hlt
    · exact .inr ⟨heq, hlast⟩

theorem Scanned.le {s : Clean} (h : Scanned zone seen s) (hb : b ∈ seen)
    (hacc : Accepted zone b) : s.earliestTime ≤ timeFileFormatToTimestampMs zone b := by
  rcases h.pick with ⟨-, htime, hall⟩ | ⟨hfirst, htime⟩
  · rw [htime]
    exact hall b hb hacc
  · rw [htime]
    rcases hfirst.first b hb hacc with hlt | ⟨heq, -⟩
    · exact Int.le_of_lt hlt
    · exact Int.le_of_eq heq

/-- The next name is the earliest so far. -/
theorem Scanned.earliest {s : Clean} (h : Scanned zone seen s) (hacc : Accepted zone name)
    (hlt : timeFileFormatToTimestampMs zone name < s.earliestTime) :
    First zone (seen ++ [name]) name := by
  refine ⟨List.mem_append_right _ (List.mem_singleton_self _), hacc, ?_, fun other hother hacc' => ?_⟩
  · rcases h.pick with ⟨-, htime, -⟩ | ⟨hfirst, htime⟩
    · exact htime ▸ hlt
    · exact Int.lt_trans (htime ▸ hlt) hfirst.time
  · rcases List.mem_append.mp hother with hseen | hname
    · exact .inl (Int.lt_of_lt_of_le hlt (h.le hseen hacc'))
    · obtain rfl := List.mem_singleton.mp hname
      exact .inr ⟨rfl, Nat.le_refl _⟩

theorem Scanned.entry {s : Clean} (h : Scanned zone seen s) (name : FileName) :
    Scanned zone (seen ++ [name]) (s.entry zone name) := by
  have hcount : (seen ++ [name]).countP (decide <| Accepted zone ·) =
      s.fileCount + if Accepted zone name then 1 else 0 := by
    rw [List.countP_append, List.countP_singleton, h.fileCount]
    simp only [decide_eq_true_eq]
  by_cases hacc : Accepted zone name
  · rw [if_pos hacc] at hcount
    unfold Clean.entry
    rw [if_pos hacc.1]
    dsimp only
    rw [if_pos hacc.2]
    split
    · next hlt => exact ⟨hcount.symm, .inr ⟨h.earliest hacc hlt, rfl⟩⟩
    · next hge =>
      refine ⟨hcount.symm, ?_⟩
      rcases h.pick with ⟨hnone, htime, hall⟩ | ⟨hfirst, htime⟩
      · refine .inl ⟨hnone, htime, fun other hother hacc' => ?_⟩
        rcases List.mem_append.mp hother with hseen | hname
        · exact hall other hseen hacc'
        · obtain rfl := List.mem_singleton.mp hname
          exact htime ▸ Int.not_lt.mp hge
      · refine .inr ⟨⟨List.mem_append_left _ hfirst.mem, hfirst.accepted, hfirst.time,
          fun other hother hacc' => .concat hfirst.mem (fun hseen => hfirst.first other hseen hacc')
            fun hnew => ?_⟩, htime⟩
        rcases List.mem_append.mp hother with hseen | hname
        · exact absurd hseen hnew
        · obtain rfl := List.mem_singleton.mp hname
          exact htime ▸ Int.not_lt.mp hge
  · rw [if_neg hacc] at hcount
    have hskip : s.entry zone name = s := by
      unfold Clean.entry
      split
      · next hdots => exact if_neg fun htime => hacc ⟨hdots, htime⟩
      · rfl
    have hseen : ∀ other ∈ seen ++ [name], Accepted zone other → other ∈ seen := by
      intro other hother hacc'
      rcases List.mem_append.mp hother with hseen | hname
      · exact hseen
      · obtain rfl := List.mem_singleton.mp hname
        exact absurd hacc' hacc
    rw [hskip]
    refine ⟨hcount.symm, ?_⟩
    rcases h.pick with ⟨hnone, htime, hall⟩ | ⟨hfirst, htime⟩
    · exact .inl ⟨hnone, htime, fun other hother hacc' => hall other (hseen _ hother hacc') hacc'⟩
    · refine .inr ⟨⟨List.mem_append_left _ hfirst.mem, hfirst.accepted, hfirst.time,
        fun other hother hacc' => ?_⟩, htime⟩
      exact .concat hfirst.mem (fun hold => hfirst.first other hold hacc')
        fun hnew => absurd (hseen other hother hacc') hnew

theorem scanned (zone : Zone) (listing : List FileName) :
    Scanned zone listing (listing.foldl (Clean.entry zone) {}) := by
  induction listing using List.reverseRecOn with
  | nil => exact ⟨rfl, .inl ⟨rfl, rfl, fun _ h => absurd h List.not_mem_nil⟩⟩
  | append_singleton listing name ih =>
    rw [List.foldl_append, List.foldl_cons, List.foldl_nil]
    exact ih.entry name

/-- `cleanDirectory` deletes the first of the earliest of more than `_maxBackups` names. -/
theorem cleanDirectory_eq_some : cleanDirectory zone maxBackups listing = some name ↔
    maxBackups < listing.countP (decide <| Accepted zone ·) ∧ First zone listing name := by
  have h := scanned zone listing
  unfold cleanDirectory
  dsimp only
  rw [← h.fileCount]
  rcases h.pick with ⟨hnone, -, hall⟩ | ⟨hfirst, -⟩
  · rw [if_neg fun hboth => hboth.2 hnone]
    refine ⟨nofun, fun ⟨_, hname⟩ => ?_⟩
    exact absurd hname.time (Int.not_lt.mpr (hall name hname.mem hname.accepted))
  · have hne := accepted_ne_nil hfirst.accepted
    constructor
    · intro hsome
      split at hsome
      · next hover =>
        cases hsome
        exact ⟨hover.1, hfirst⟩
      · cases hsome
    · rintro ⟨hover, hname⟩
      rw [if_pos ⟨hover, hne⟩, hname.unique hfirst]

/-- Something that counts and can be picked is there, so something is picked. -/
theorem exists_first (hmem : name ∈ listing) (hacc : Accepted zone name)
    (htime : timeFileFormatToTimestampMs zone name < lastTime) :
    ∃ first, First zone listing first := by
  rcases (scanned zone listing).pick with ⟨-, -, hall⟩ | ⟨hfirst, -⟩
  · exact absurd htime (Int.not_lt.mpr (hall name hmem hacc))
  · exact ⟨_, hfirst⟩

/-! ## Its own backups and others -/

/-- A rotation can have made the name. -/
def IsBackupName (zone : Zone) (name : FileName) : Prop :=
  ∃ t, zone.Tells t ∧ name = backupName zone t

/-- What is deleted is a backup, and no backup of the directory denotes an earlier time. -/
def DeletesOldest (zone : Zone) (maxBackups : Int) (listing : List FileName) : Prop :=
  ∀ name, cleanDirectory zone maxBackups listing = some name →
    IsBackupName zone name ∧ ∀ other ∈ listing, IsBackupName zone other → Accepted zone other →
      ¬ timeFileFormatToTimestampMs zone other < timeFileFormatToTimestampMs zone name

/-- At most `_maxBackups` names are accepted, or before every one of them that no rotation can
have made, and that could be picked, comes a backup. -/
def OwnFirst (zone : Zone) (maxBackups : Int) (listing : List FileName) : Prop :=
  maxBackups < listing.countP (decide <| Accepted zone ·) →
    ∀ name ∈ listing, Accepted zone name → ¬ IsBackupName zone name →
      timeFileFormatToTimestampMs zone name < lastTime →
        ∃ own ∈ listing, IsBackupName zone own ∧ Accepted zone own ∧ Earlier zone listing own name

/-- `cleanDirectory` deletes nothing but the oldest backup if and only if the other names that
it takes for backups come later, or it deletes nothing. -/
theorem deletes_oldest_backup_iff (zone : Zone) (maxBackups : Int) (listing : List FileName) :
    DeletesOldest zone maxBackups listing ↔ OwnFirst zone maxBackups listing := by
  constructor
  · intro hdeletes hover name hmem hacc hforeign htime
    obtain ⟨first, hfirst⟩ := exists_first hmem hacc htime
    obtain ⟨hown, -⟩ := hdeletes first (cleanDirectory_eq_some.mpr ⟨hover, hfirst⟩)
    exact ⟨first, hfirst.mem, hown, hfirst.accepted, hfirst.first name hmem hacc⟩
  · intro hown name hname
    obtain ⟨hover, hfirst⟩ := cleanDirectory_eq_some.mp hname
    constructor
    · by_contra hforeign
      obtain ⟨own, hmem, hbackup, hacc, hle⟩ :=
        hown hover name hfirst.mem hfirst.accepted hforeign hfirst.time
      -- the backup would have been picked
      have hge := hfirst.first own hmem hacc
      have hidx : listing.idxOf own = listing.idxOf name := by
        unfold Earlier at hle hge
        omega
      obtain rfl := (List.idxOf_inj hmem).mp hidx
      exact hforeign hbackup
    · intro other hmem _ hacc hlt
      have hle := hfirst.first other hmem hacc
      unfold Earlier at hle
      omega

theorem IsBackupName.txt (h : IsBackupName zone name) :
    name.reverse.take 4 = ".txt".toList.reverse := by
  obtain ⟨t, -, rfl⟩ := h
  unfold backupName
  rw [List.reverse_append]
  exact List.take_left' (by decide)

/-- A picture that is named by the time it was taken. -/
theorem picture_deleted :
    cleanDirectory (Zone.ahead 28800) 1
        ["..".toList, ".".toList, "2026-06-05T16_46_12.007.txt".toList, "log.txt".toList,
          "1999-01-01T00_00_00.000.jpg".toList] =
      some "1999-01-01T00_00_00.000.jpg".toList ∧
    ¬ IsBackupName (Zone.ahead 28800) "1999-01-01T00_00_00.000.jpg".toList ∧
    ¬ DeletesOldest (Zone.ahead 28800) 1
        ["..".toList, ".".toList, "2026-06-05T16_46_12.007.txt".toList, "log.txt".toList,
          "1999-01-01T00_00_00.000.jpg".toList] := by
  have hdeleted : cleanDirectory (Zone.ahead 28800) 1
        ["..".toList, ".".toList, "2026-06-05T16_46_12.007.txt".toList, "log.txt".toList,
          "1999-01-01T00_00_00.000.jpg".toList] =
      some "1999-01-01T00_00_00.000.jpg".toList := by
    decide +kernel
  have hforeign : ¬ IsBackupName (Zone.ahead 28800) "1999-01-01T00_00_00.000.jpg".toList :=
    fun h => absurd h.txt (by decide)
  exact ⟨hdeleted, hforeign, fun h => hforeign (h _ hdeleted).1⟩

end VideoPlayerCore
