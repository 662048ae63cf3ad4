import Mathlib.Data.List.Dedup
import VideoPlayerCore.Ledgers

/-!
# Books: ledgers that number their objects

A book gives every new object the next number, so that no number is given twice; what is left
to its keeper is to use and free only what is owned.  `freeOpt` and `useOpt` are for pointers
that may be null.  An object that is shared is freed by whoever lets go of it last.

    b.Owns owned → b.obtain.Owns (b.next :: owned)                           (Owns.obtain)
    b.Owns [] → .alloc i ∈ b.entries → b.entries.count (.free i) = 1         (Owns.settled)
    b.Shares (i :: refs) → (b.release i refs).Shares refs                  (Shares.release)
-/

namespace Ledgers

structure Book where
  entries : List (Entry Nat) := []
  /-- the number of the next object -/
  next : Nat := 0
  deriving DecidableEq

namespace Book

def obtain (b : Book) : Book := { entries := b.entries ++ [.alloc b.next], next := b.next + 1 }

def use (b : Book) (i : Nat) : Book := { b with entries := b.entries ++ [.use i] }

def free (b : Book) (i : Nat) : Book := { b with entries := b.entries ++ [.free i] }

def useOpt (b : Book) (i : Option Nat) : Book := i.elim b b.use

def freeOpt (b : Book) (i : Option Nat) : Book := i.elim b b.free

/-- Its keeper kept to the rules, and owns `owned` by now. -/
structure Owns (b : Book) (owned : List Nat) : Prop where
  accounts : Accounts b.entries owned
  fresh : ∀ i, .alloc i ∈ b.entries → i < b.next

variable {b : Book} {owned owned' before after : List Nat} {i : Nat}

@[simp] theorem useOpt_next (b : Book) (i : Option Nat) : (b.useOpt i).next = b.next := by
  cases i <;> rfl

@[simp] theorem freeOpt_none (b : Book) : b.freeOpt none = b := rfl

theorem owns_start : Owns {} [] := ⟨.nil, fun _ hi => absurd hi List.not_mem_nil⟩

/-- An entry that is no allocation gives no number. -/
theorem Owns.note {e : Entry Nat} (h : b.Owns owned) (he : ∀ i, e ≠ .alloc i)
    (haccounts : Accounts (b.entries ++ [e]) owned') :
    Owns { b with entries := b.entries ++ [e] } owned' := by
  refine ⟨haccounts, fun i hi => ?_⟩
  rcases List.mem_append.mp hi with hi | hi
  · exact h.fresh i hi
  · exact absurd (List.mem_singleton.mp hi).symm (he i)

theorem Owns.obtain (h : b.Owns owned) : b.obtain.Owns (b.next :: owned) := by
  have hnew : .alloc b.next ∉ b.entries := fun hin => Nat.lt_irrefl _ (h.fresh _ hin)
  refine ⟨.alloc b.next h.accounts hnew, fun i hi => ?_⟩
  rcases List.mem_append.mp hi with hi | hi
  · exact Nat.lt_succ_of_lt (h.fresh i hi)
  · obtain ⟨rfl⟩ := List.mem_singleton.mp hi
    exact Nat.lt_succ_self _

theorem Owns.use (h : b.Owns owned) (hi : i ∈ owned) : (b.use i).Owns owned :=
  h.note nofun (.use i h.accounts hi)

theorem Owns.free (h : b.Owns (before ++ i :: after)) : (b.free i).Owns (before ++ after) :=
  h.note nofun h.accounts.free_mid

theorem Owns.useOpt {i : Option Nat} (h : b.Owns owned) (hi : ∀ j ∈ i, j ∈ owned) :
    (b.useOpt i).Owns owned := by
  cases i with
  | none => exact h
  | some j => exact h.use (hi j rfl)

theorem Owns.freeOpt {i : Option Nat} (h : b.Owns (before ++ (i.toList ++ after))) :
    (b.freeOpt i).Owns (before ++ after) := by
  cases i with
  | none => exact h
  | some j => exact h.free

/-- Only how often each object is owned matters. -/
theorem Owns.recount (h : b.Owns owned) (hcount : ∀ i, owned.count i = owned'.count i) :
    b.Owns owned' :=
  ⟨h.accounts.recount hcount, h.fresh⟩

theorem Owns.usedAlive (h : b.Owns owned) : UsedAlive b.entries := h.accounts.usedAlive

/-- No object is freed twice. -/
theorem Owns.free_le (h : b.Owns owned) (i : Nat) : b.entries.count (.free i) ≤ 1 := by
  have hcount := h.accounts.count_alloc i
  have honce := h.accounts.alloc_once i
  omega

/-- If nothing is owned any more, every object was freed, and once. -/
theorem Owns.settled (h : b.Owns []) (hi : .alloc i ∈ b.entries) :
    b.entries.count (.free i) = 1 := by
  have hfreed := List.count_pos_iff.mpr (h.accounts.all_freed hi)
  have hle := h.free_le i
  omega

/-- What was allocated is alive exactly if it is owned. -/
theorem Owns.alive_iff (h : b.Owns owned) (hi : .alloc i ∈ b.entries) :
    .free i ∉ b.entries ↔ i ∈ owned := by
  refine ⟨fun hfree => ?_, fun howned => h.accounts.not_freed howned⟩
  have hcount := h.accounts.count_alloc i
  have halloc := List.count_pos_iff.mpr hi
  rw [List.count_eq_zero_of_not_mem hfree] at hcount
  exact List.count_pos_iff.mp (by omega)

/-! ## Shared objects -/

/-- A reference goes; `rest` are those that are left. -/
def release (b : Book) (i : Nat) (rest : List Nat) : Book := if i ∈ rest then b else b.free i

def releaseOpt (b : Book) (i : Option Nat) (rest : List Nat) : Book :=
  i.elim b fun i => b.release i rest

/-- What is referred to is owned, however often. -/
def Shares (b : Book) (refs : List Nat) : Prop := b.Owns refs.dedup

variable {refs refs' : List Nat}

theorem Shares.congr (h : b.Shares refs) (hmem : ∀ i, i ∈ refs ↔ i ∈ refs') : b.Shares refs' :=
  Owns.recount h fun i => by simp only [List.count_dedup, hmem i]

/-- Nothing refers to the next object yet. -/
theorem Shares.next_new (h : b.Shares refs) : b.next ∉ refs := by
  intro hin
  have hcount := h.accounts.count_alloc b.next
  have hpos := List.count_pos_iff.mpr (List.mem_dedup.mpr hin)
  have halloc : .alloc b.next ∈ b.entries := List.count_pos_iff.mp (by omega)
  exact Nat.lt_irrefl _ (h.fresh _ halloc)

theorem Shares.obtain (h : b.Shares refs) : b.obtain.Shares (b.next :: refs) := by
  unfold Shares
  rw [List.dedup_cons_of_notMem h.next_new]
  exact Owns.obtain h

theorem Shares.use (h : b.Shares refs) (hi : i ∈ refs) : (b.use i).Shares refs :=
  Owns.use h (List.mem_dedup.mpr hi)

theorem Shares.release (h : b.Shares (i :: refs)) : (b.release i refs).Shares refs := by
  unfold Book.release
  by_cases hi : i ∈ refs
  · rw [if_pos hi]
    refine h.congr fun j => ?_
    rw [List.mem_cons, or_iff_right_of_imp]
    rintro rfl
    exact hi
  · rw [if_neg hi]
    unfold Shares at h
    rw [List.dedup_cons_of_notMem hi] at h
    have hfree : (b.free i).Owns ([] ++ refs.dedup) := Owns.free h
    exact hfree

theorem Shares.releaseOpt {i : Option Nat} (h : b.Shares (i.toList ++ refs)) :
    (b.releaseOpt i refs).Shares refs := by
  cases i with
  | none => exact h
  | some i => exact Shares.release h

end Book

end Ledgers
