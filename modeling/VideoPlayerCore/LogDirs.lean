import VideoPlayerCore.LogConsole

/-!
# The directories of the log

`createMultiLevelDir` copies the path byte by byte and, at each separator, makes the directory
so far if it is missing.  What the file system does is a parameter.

    createMultiLevelDir F dir fs = ensureAll F (levels dir) { fs := fs }  (createMultiLevelDir_eq)
    it makes what is missing, outer directories first, or stops at the first that it cannot make,
    and called again it makes nothing; only a path that fills the array and ends in a separator
    is read too far                                                       (directories_made)
-/

namespace VideoPlayerCore

/-- What `access` and `mkdir` do; the path of a directory ends in a separator. -/
structure FileSystem (σ : Type) where
  access : σ → Bytes → Bool
  /-- `none` if it fails -/
  mkdir : σ → Bytes → Option σ

/-- `mkdir` makes a directory and removes none. -/
structure FileSystem.Lawful {σ : Type} (F : FileSystem σ) : Prop where
  made : ∀ {s p t}, F.mkdir s p = some t → F.access t p = true
  kept : ∀ {s p t q}, F.mkdir s p = some t → F.access s q = true → F.access t q = true

/-- `'\\'` or `'/'` -/
def separator (c : UInt8) : Bool := c = 92 || c = 47

/-- `MAX_PATH_LEN` -/
def maxPathLen : Nat := 1024

/-- What `tmpDirPath` is as a string; `none` where it has no terminator. -/
def argument (tmpDirPath : Bytes) : Option Bytes :=
  if 0 ∈ tmpDirPath then some (cString tmpDirPath) else none

/-- The file system, and the directories made so far. -/
structure DirRun (σ : Type) where
  fs : σ
  made : List Bytes := []
  deriving DecidableEq

section

variable {σ : Type} (F : FileSystem σ)

/-- The loop from byte `i` on; `none` where `access` reads behind `tmpDirPath`. -/
def createLoop : Bytes → Nat → Bytes → DirRun σ → Option (DirRun σ × Int)
  | [], _, _, s => some (s, 0)
  | c :: rest, i, tmpDirPath, s =>
    let tmpDirPath := tmpDirPath.set i c
    if separator c then
      match argument tmpDirPath with
      | none => none
      | some path =>
        if F.access s.fs path then createLoop rest (i + 1) tmpDirPath s
        else
          match F.mkdir s.fs path with
          | none => some (s, -1)
          | some fs => createLoop rest (i + 1) tmpDirPath { fs := fs, made := s.made ++ [path] }
    else createLoop rest (i + 1) tmpDirPath s

def createMultiLevelDir (dir : Bytes) (fs : σ) : Option (DirRun σ × Int) :=
  if maxPathLen < dir.length then some ({ fs := fs }, -1)
  else createLoop F dir 0 (List.replicate maxPathLen 0) { fs := fs }

/-- Each directory is made unless it is there; `none` for a path that leaves no room for its
terminator. -/
def ensureAll : List Bytes → DirRun σ → Option (DirRun σ × Int)
  | [], s => some (s, 0)
  | path :: paths, s =>
    if maxPathLen ≤ path.length then none
    else if F.access s.fs path then ensureAll paths s
    else
      match F.mkdir s.fs path with
      | none => some (s, -1)
      | some fs => ensureAll paths { fs := fs, made := s.made ++ [path] }

end

/-- The paths that end at a separator of `rest`, which comes behind `before`. -/
def levelsFrom : Bytes → Bytes → List Bytes
  | _, [] => []
  | before, c :: rest =>
    if separator c then (before ++ [c]) :: levelsFrom (before ++ [c]) rest
    else levelsFrom (before ++ [c]) rest

/-- The directories above a file, outer ones first. -/
def levels (dir : Bytes) : List Bytes := levelsFrom [] dir

theorem mem_levelsFrom {before rest p : Bytes} : p ∈ levelsFrom before rest ↔
    ∃ front c, separator c = true ∧ front ++ [c] <+: rest ∧ p = before ++ (front ++ [c]) := by
  induction rest generalizing before with
  | nil => simp [levelsFrom]
  | cons d rest ih =>
    have hbehind : p ∈ levelsFrom (before ++ [d]) rest ↔
        ∃ front c, separator c = true ∧ d :: front ++ [c] <+: d :: rest ∧
          p = before ++ (d :: front ++ [c]) := by
      rw [ih]
      simp [List.cons_prefix_cons]
    constructor
    · intro hp
      unfold levelsFrom at hp
      by_cases hd : separator d = true
      · rw [if_pos hd] at hp
        rcases List.mem_cons.mp hp with rfl | hp
        · exact ⟨[], d, hd, ⟨rest, rfl⟩, rfl⟩
        · obtain ⟨front, c, hc, hinit, rfl⟩ := hbehind.mp hp
          exact ⟨d :: front, c, hc, hinit, rfl⟩
      · rw [if_neg hd] at hp
        obtain ⟨front, c, hc, hinit, rfl⟩ := hbehind.mp hp
        exact ⟨d :: front, c, hc, hinit, rfl⟩
    · rintro ⟨front, c, hc, hinit, rfl⟩
      unfold levelsFrom
      cases front with
      | nil =>
        obtain ⟨rfl, -⟩ := List.cons_prefix_cons.mp hinit
        rw [if_pos hc]
        exact List.mem_cons_self
      | cons e front =>
        obtain ⟨rfl, -⟩ := List.cons_prefix_cons.mp hinit
        have hmem := hbehind.mpr ⟨front, c, hc, hinit, rfl⟩
        split
        · exact List.mem_cons_of_mem _ hmem
        · exact hmem

theorem mem_levels {dir p : Bytes} :
    p ∈ levels dir ↔ p <+: dir ∧ ∃ front c, separator c = true ∧ p = front ++ [c] := by
  unfold levels
  rw [mem_levelsFrom]
  constructor
  · rintro ⟨front, c, hc, hinit, rfl⟩
    exact ⟨hinit, front, c, hc, rfl⟩
  · rintro ⟨hinit, front, c, hc, rfl⟩
    exact ⟨front, c, hc, hinit, rfl⟩

theorem levelsFrom_cons (before rest : Bytes) (c : UInt8) : levelsFrom before (c :: rest) =
    if separator c then (before ++ [c]) :: levelsFrom (before ++ [c]) rest
    else levelsFrom (before ++ [c]) rest := rfl

theorem levelsFrom_append (before xs ys : Bytes) :
    levelsFrom before (xs ++ ys) = levelsFrom before xs ++ levelsFrom (before ++ xs) ys := by
  induction xs generalizing before with
  | nil => simp [levelsFrom]
  | cons c xs ih =>
    rw [List.cons_append, levelsFrom_cons, levelsFrom_cons, ih, List.append_assoc,
      List.singleton_append]
    split
    · rfl
    · rfl

theorem levelsFrom_pairwise (before rest : Bytes) :
    (levelsFrom before rest).Pairwise (·.length < ·.length) := by
  induction rest generalizing before with
  | nil => exact List.Pairwise.nil
  | cons c rest ih =>
    unfold levelsFrom
    split
    · refine List.Pairwise.cons ?_ (ih _)
      intro p hp
      obtain ⟨front, d, -, -, rfl⟩ := mem_levelsFrom.mp hp
      simp only [List.length_append, List.length_singleton]
      omega
    · exact ih _

/-- Every level above `p` comes before it. -/
theorem levels_above {dir p q : Bytes} {before after : List Bytes}
    (h : levels dir = before ++ p :: after) (hq : q ∈ levels p) (hne : q ≠ p) : q ∈ before := by
  have hp : p ∈ levels dir := by
    rw [h]
    exact List.mem_append_right _ List.mem_cons_self
  obtain ⟨hqp, hend⟩ := mem_levels.mp hq
  have hqdir : q ∈ levels dir := mem_levels.mpr ⟨hqp.trans (mem_levels.mp hp).1, hend⟩
  have hlt : q.length < p.length := by
    refine Nat.lt_of_le_of_ne hqp.length_le fun hlen => ?_
    exact hne (hqp.eq_of_length hlen)
  rw [h] at hqdir
  rcases List.mem_append.mp hqdir with hbefore | hafter
  · exact hbefore
  · exfalso
    have hpair : (p :: after).Pairwise (·.length < ·.length) := by
      have hall := levelsFrom_pairwise [] dir
      rw [show levelsFrom [] dir = before ++ p :: after from h] at hall
      exact (List.pairwise_append.mp hall).2.1
    rcases List.mem_cons.mp hafter with rfl | hafter
    · exact hne rfl
    · have := List.rel_of_pairwise_cons hpair hafter
      omega

/-! ## The array -/

section

variable {σ : Type} {F : FileSystem σ}

/-- `tmpDirPath` behind the copy of `text`. -/
def copied (text : Bytes) : Bytes := text ++ List.replicate (maxPathLen - text.length) 0

theorem set_copied {text : Bytes} (c : UInt8) (h : text.length < maxPathLen) :
    (copied text).set text.length c = copied (text ++ [c]) := by
  have hroom : maxPathLen - text.length = maxPathLen - (text ++ [c]).length + 1 := by
    rw [List.length_append, List.length_singleton]
    omega
  unfold copied
  rw [List.set_append_right _ _ (Nat.le_refl _), Nat.sub_self, hroom, List.replicate_succ,
    List.set_cons_zero, List.append_assoc]
  rfl

theorem ensureAll_cons (p : Bytes) (paths : List Bytes) (s : DirRun σ) :
    ensureAll F (p :: paths) s =
      if maxPathLen ≤ p.length then none
      else if F.access s.fs p then ensureAll F paths s
      else
        match F.mkdir s.fs p with
        | none => some (s, -1)
        | some fs => ensureAll F paths { fs := fs, made := s.made ++ [p] } := rfl

/-- The string ends where the copy ends, unless that fills the array. -/
theorem argument_copied {text : Bytes} (h0 : 0 ∉ text) :
    argument (copied text) = if maxPathLen ≤ text.length then none else some text := by
  unfold argument copied
  by_cases hfull : maxPathLen ≤ text.length
  · rw [Nat.sub_eq_zero_of_le hfull, List.replicate_zero, List.append_nil, if_neg h0, if_pos hfull]
  · obtain ⟨n, hn⟩ : ∃ n, maxPathLen - text.length = n + 1 :=
      ⟨maxPathLen - text.length - 1, by omega⟩
    rw [hn, List.replicate_succ, if_neg hfull, LogState.cString_terminated, cString_whole h0]
    exact if_pos (List.mem_append_right _ List.mem_cons_self)

theorem createLoop_eq {before rest : Bytes} (h0 : 0 ∉ before ++ rest)
    (hlen : (before ++ rest).length ≤ maxPathLen) (s : DirRun σ) :
    createLoop F rest before.length (copied before) s =
      ensureAll F (levelsFrom before rest) s := by
  induction rest generalizing before s with
  | nil => rfl
  | cons c rest ih =>
    have hsnoc : before ++ c :: rest = (before ++ [c]) ++ rest := by simp
    rw [hsnoc] at h0 hlen
    have hroom : before.length < maxPathLen := by
      simp only [List.length_append, List.length_singleton] at hlen
      omega
    have hnext : ∀ t : DirRun σ, createLoop F rest (before.length + 1) (copied (before ++ [c])) t =
        ensureAll F (levelsFrom (before ++ [c]) rest) t := by
      intro t
      rw [← ih h0 hlen t, List.length_append, List.length_singleton]
    have hpath := argument_copied (fun h => h0 (List.mem_append_left rest h))
    rw [levelsFrom_cons]
    unfold createLoop
    simp only [set_copied c hroom, hnext, hpath]
    by_cases hc : separator c = true
    · rw [if_pos hc, if_pos hc, ensureAll_cons]
      by_cases hfull : maxPathLen ≤ (before ++ [c]).length
      · rw [if_pos hfull, if_pos hfull]
      · rw [if_neg hfull, if_neg hfull]
    · rw [if_neg hc, if_neg hc]

theorem createMultiLevelDir_eq {dir : Bytes} (h0 : 0 ∉ dir) (hlen : dir.length ≤ maxPathLen)
    (fs : σ) : createMultiLevelDir F dir fs = ensureAll F (levels dir) { fs := fs } := by
  unfold createMultiLevelDir
  rw [if_neg (Nat.not_lt.mpr hlen)]
  exact @createLoop_eq _ _ [] dir h0 hlen { fs := fs }

/-! ## What is made -/

/-- From `s` to `t` the directories of `paths` were made that were missing. -/
structure Ensured (F : FileSystem σ) (paths : List Bytes) (s t : DirRun σ) (code : Int) :
    Prop where
  kept : ∀ q, F.access s.fs q = true → F.access t.fs q = true
  made : ∃ more, t.made = s.made ++ more ∧ more.Sublist paths ∧
    ∀ q ∈ more, F.access s.fs q = false
  done : code = 0 → ∀ p ∈ paths, p.length < maxPathLen ∧ F.access t.fs p = true
  stopped : code ≠ 0 → code = -1 ∧ ∃ before p after, paths = before ++ p :: after ∧
    (∀ q ∈ before, F.access t.fs q = true) ∧ F.access t.fs p = false ∧ F.mkdir t.fs p = none

theorem ensureAll_spec (hF : F.Lawful) {paths : List Bytes} {s t : DirRun σ} {code : Int}
    (h : ensureAll F paths s = some (t, code)) : Ensured F paths s t code := by
  induction paths generalizing s with
  | nil =>
    obtain ⟨rfl, rfl⟩ := Prod.mk.inj (Option.some.inj h)
    exact ⟨fun _ hq => hq, ⟨[], by simp⟩, fun _ => by simp, fun hne => absurd rfl hne⟩
  | cons p paths ih =>
    rw [ensureAll_cons] at h
    split at h
    · cases h
    rename_i hlong
    have hshort : p.length < maxPathLen := Nat.not_le.mp hlong
    split at h
    · next hthere =>
      obtain ⟨hkept, ⟨more, hmore, hsub, hmissing⟩, hdone, hstopped⟩ := ih h
      refine ⟨hkept, ⟨more, hmore, hsub.cons p, hmissing⟩, fun hcode => ?_, fun hcode => ?_⟩
      · exact List.forall_mem_cons.mpr ⟨⟨hshort, hkept p hthere⟩, hdone hcode⟩
      · obtain ⟨hminus, before, q, after, rfl, hbefore, hq, hfail⟩ := hstopped hcode
        refine ⟨hminus, p :: before, q, after, rfl, ?_, hq, hfail⟩
        exact List.forall_mem_cons.mpr ⟨hkept p hthere, hbefore⟩
    · next hmissing =>
      have hp : F.access s.fs p = false := Bool.eq_false_iff.mpr hmissing
      cases hmk : F.mkdir s.fs p with
      | none =>
        rw [hmk] at h
        obtain ⟨rfl, rfl⟩ := Prod.mk.inj (Option.some.inj h)
        refine ⟨fun _ hq => hq, ⟨[], by simp⟩, fun hzero => absurd hzero (by decide), fun _ => ?_⟩
        exact ⟨rfl, [], p, paths, rfl, by simp, hp, hmk⟩
      | some fs =>
        rw [hmk] at h
        obtain ⟨hkept, ⟨more, hmore, hsub, hmissed⟩, hdone, hstopped⟩ := ih h
        have hkept' : ∀ q, F.access s.fs q = true → F.access t.fs q = true :=
          fun q hq => hkept q (hF.kept hmk hq)
        have hnow : F.access t.fs p = true := hkept p (hF.made hmk)
        refine ⟨hkept', ⟨p :: more, ?_, hsub.cons_cons p, ?_⟩, fun hcode => ?_, fun hcode => ?_⟩
        · rw [hmore, List.append_assoc, List.singleton_append]
        · refine List.forall_mem_cons.mpr ⟨hp, fun q hq => Bool.eq_false_iff.mpr fun hold => ?_⟩
          have hgone : F.access fs q = false := hmissed q hq
          rw [hF.kept hmk hold] at hgone
          exact Bool.noConfusion hgone
        · exact List.forall_mem_cons.mpr ⟨⟨hshort, hnow⟩, hdone hcode⟩
        · obtain ⟨hminus, before, q, after, rfl, hbefore, hq, hfail⟩ := hstopped hcode
          refine ⟨hminus, p :: before, q, after, rfl, ?_, hq, hfail⟩
          exact List.forall_mem_cons.mpr ⟨hnow, hbefore⟩

/-- Called again it makes nothing, and stops where it stopped. -/
theorem ensureAll_again (hF : F.Lawful) {paths : List Bytes} {s t : DirRun σ} {code : Int}
    (h : ensureAll F paths s = some (t, code)) :
    ensureAll F paths { fs := t.fs } = some ({ fs := t.fs }, code) := by
  induction paths generalizing s with
  | nil =>
    obtain ⟨rfl, rfl⟩ := Prod.mk.inj (Option.some.inj h)
    rfl
  | cons p paths ih =>
    rw [ensureAll_cons] at h
    split at h
    · cases h
    rename_i hlong
    rw [ensureAll_cons, if_neg hlong]
    split at h
    · next hthere => rw [if_pos ((ensureAll_spec hF h).kept p hthere), ih h]
    · next hmissing =>
      cases hmk : F.mkdir s.fs p with
      | none =>
        rw [hmk] at h
        obtain ⟨rfl, rfl⟩ := Prod.mk.inj (Option.some.inj h)
        rw [if_neg hmissing, hmk]
      | some fs =>
        rw [hmk] at h
        rw [if_pos ((ensureAll_spec hF h).kept p (hF.made hmk)), ih h]

theorem ensureAll_isSome {paths : List Bytes} (hshort : ∀ p ∈ paths, p.length < maxPathLen)
    (s : DirRun σ) : ∃ r, ensureAll F paths s = some r := by
  induction paths generalizing s with
  | nil => exact ⟨_, rfl⟩
  | cons p paths ih =>
    obtain ⟨hp, hshort⟩ := List.forall_mem_cons.mp hshort
    rw [ensureAll_cons, if_neg (Nat.not_le.mpr hp)]
    split
    · exact ih hshort s
    · cases F.mkdir s.fs p with
      | none => exact ⟨_, rfl⟩
      | some fs => exact ih hshort _

theorem ensureAll_append (xs ys : List Bytes) (s : DirRun σ) :
    ensureAll F (xs ++ ys) s = (ensureAll F xs s).bind fun r =>
      if r.2 = 0 then ensureAll F ys r.1 else some r := by
  induction xs generalizing s with
  | nil => rfl
  | cons p xs ih =>
    rw [List.cons_append, ensureAll_cons, ensureAll_cons]
    split
    · rfl
    split
    · exact ih s
    · cases F.mkdir s.fs p with
      | none => rfl
      | some fs => exact ih _

theorem levels_short {dir p : Bytes} (hlen : dir.length < maxPathLen) (hp : p ∈ levels dir) :
    p.length < maxPathLen :=
  Nat.lt_of_le_of_lt (mem_levels.mp hp).1.length_le hlen

theorem levels_snoc (front : Bytes) (c : UInt8) :
    levels (front ++ [c]) = levels front ++ if separator c then [front ++ [c]] else [] := by
  unfold levels
  rw [levelsFrom_append, levelsFrom_cons, List.nil_append]
  rfl

/-- `access` reads too far where the last byte of the array is a separator that is reached. -/
theorem createMultiLevelDir_none {dir : Bytes} (h0 : 0 ∉ dir) (hlen : dir.length ≤ maxPathLen)
    (fs : σ) : createMultiLevelDir F dir fs = none ↔
      dir.length = maxPathLen ∧ (∃ c, separator c = true ∧ dir.getLast? = some c) ∧
        ∃ s, createMultiLevelDir F dir.dropLast fs = some (s, 0) := by
  rw [createMultiLevelDir_eq h0 hlen]
  rcases Nat.lt_or_eq_of_le hlen with hlt | hfull
  · obtain ⟨r, hr⟩ := ensureAll_isSome (F := F) (fun p hp => levels_short hlt hp) { fs := fs }
    rw [hr]
    constructor
    · intro hnone
      cases hnone
    · rintro ⟨hfull, -⟩
      exact absurd hfull (Nat.ne_of_lt hlt)
  · have hne : dir ≠ [] := by
      rintro rfl
      cases hfull
    obtain ⟨front, c, rfl⟩ : ∃ front c, dir = front ++ [c] :=
      ⟨dir.dropLast, dir.getLast hne, (List.dropLast_append_getLast hne).symm⟩
    have hshort : front.length < maxPathLen := by
      rw [List.length_append, List.length_singleton] at hfull
      omega
    have hfront : createMultiLevelDir F front fs = ensureAll F (levels front) { fs := fs } :=
      createMultiLevelDir_eq (fun h => h0 (List.mem_append_left _ h)) (Nat.le_of_lt hshort) fs
    obtain ⟨⟨s, code⟩, hr⟩ :=
      ensureAll_isSome (F := F) (fun p hp => levels_short hshort hp) { fs := fs }
    rw [List.dropLast_concat, List.getLast?_concat, hfront, levels_snoc, ensureAll_append, hr,
      Option.bind_some]
    by_cases hcode : code = 0
    · subst hcode
      by_cases hc : separator c = true
      · rw [if_pos hc, if_pos rfl, ensureAll_cons, if_pos (Nat.le_of_eq hfull.symm)]
        exact ⟨fun _ => ⟨hfull, ⟨c, hc, rfl⟩, s, rfl⟩, fun _ => rfl⟩
      · rw [if_neg hc, if_pos rfl]
        constructor
        · intro hnone
          cases hnone
        · rintro ⟨-, ⟨d, hd, hlast⟩, -⟩
          obtain rfl := Option.some.inj hlast
          exact absurd hd hc
    · rw [if_neg hcode]
      constructor
      · intro hnone
        cases hnone
      · rintro ⟨-, -, t, ht⟩
        exact absurd (Prod.mk.inj (Option.some.inj ht)).2 hcode

/-- `mkdir` makes a directory that is missing in one that is there. -/
def FileSystem.Makes (F : FileSystem σ) : Prop :=
  ∀ s p, F.access s p = false → (∀ q ∈ levels p, q ≠ p → F.access s q = true) →
    F.mkdir s p ≠ none

theorem directories_made {dir : Bytes} (hF : F.Lawful) (h0 : 0 ∉ dir) (fs : σ) :
    (maxPathLen < dir.length → createMultiLevelDir F dir fs = some ({ fs := fs }, -1)) ∧
    (createMultiLevelDir F dir fs = none ↔
      dir.length = maxPathLen ∧ (∃ c, separator c = true ∧ dir.getLast? = some c) ∧
        ∃ s, createMultiLevelDir F dir.dropLast fs = some (s, 0)) ∧
    (dir.length ≤ maxPathLen → ∀ s code, createMultiLevelDir F dir fs = some (s, code) →
      Ensured F (levels dir) { fs := fs } s code ∧
      createMultiLevelDir F dir s.fs = some ({ fs := s.fs }, code) ∧
      (F.Makes → code = 0)) := by
  have hlong : maxPathLen < dir.length →
      createMultiLevelDir F dir fs = some ({ fs := fs }, -1) := fun h => if_pos h
  refine ⟨hlong, ?_, ?_⟩
  · rcases Nat.lt_or_ge maxPathLen dir.length with hlt | hle
    · rw [hlong hlt]
      constructor
      · intro hnone
        cases hnone
      · rintro ⟨hfull, -⟩
        omega
    · exact createMultiLevelDir_none h0 hle fs
  · intro hle s code hs
    rw [createMultiLevelDir_eq h0 hle] at hs
    have hspec := ensureAll_spec hF hs
    refine ⟨hspec, ?_, ?_⟩
    · rw [createMultiLevelDir_eq h0 hle]
      exact ensureAll_again hF hs
    · intro hmakes
      by_contra hcode
      obtain ⟨-, before, p, after, hsplit, hbefore, hp, hfail⟩ := hspec.stopped hcode
      exact hmakes _ p hp (fun q hq hne => hbefore q (levels_above hsplit hq hne)) hfail

end

/-- Directories that are made in directories that are there. -/
def plainFiles : FileSystem (List Bytes) where
  access s p := p ∈ s
  mkdir s p := if ∀ q ∈ levels p, q ≠ p → q ∈ s then some (p :: s) else none

theorem plainFiles_lawful : plainFiles.Lawful := by
  constructor
  · intro s p t h
    obtain ⟨-, ht⟩ := Option.ite_none_right_eq_some.mp h
    obtain rfl := Option.some.inj ht
    exact decide_eq_true List.mem_cons_self
  · intro s p t q h hq
    obtain ⟨-, ht⟩ := Option.ite_none_right_eq_some.mp h
    obtain rfl := Option.some.inj ht
    exact decide_eq_true (List.mem_cons_of_mem _ (of_decide_eq_true hq))

theorem directories_made_nested :
    ∃ s, createMultiLevelDir plainFiles (ascii "log/app/log.txt") [] = some (s, 0) ∧
      s.made = [ascii "log/", ascii "log/app/"] ∧
      createMultiLevelDir plainFiles (ascii "log/app/log.txt") s.fs = some ({ fs := s.fs }, 0) := by
  have hrun : createMultiLevelDir plainFiles (ascii "log/app/log.txt") [] =
      some ({ fs := [ascii "log/app/", ascii "log/"]
              made := [ascii "log/", ascii "log/app/"] }, 0) := by
    decide +kernel
  have h := directories_made plainFiles_lawful (by decide : 0 ∉ ascii "log/app/log.txt") []
  exact ⟨_, hrun, rfl, (h.2.2 (by decide) _ _ hrun).2.1⟩

end VideoPlayerCore
