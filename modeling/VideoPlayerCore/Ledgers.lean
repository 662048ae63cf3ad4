import Mathlib.Data.List.Count
import Mathlib.Data.List.Perm.Basic

/-!
# Ledgers

The uses of objects that are allocated and freed, in order, against what is owned.

    Accounts ledger owned → ledger.count (alloc i) = owned.count i + ledger.count (free i)
    Accounts ledger owned → UsedAlive ledger
                                                       (Accounts.count_alloc, Accounts.usedAlive)

Only what is owned may be used or freed, and an object is allocated under a new name: that is
all a program has to keep to (the constructors of `Accounts`).
-/

namespace Ledgers

inductive Entry (ι : Type*)
  | alloc (i : ι)
  | use (i : ι)
  | free (i : ι)
  deriving DecidableEq

variable {ι : Type*}

/-- After it was freed, an object is neither used nor freed. -/
def UsedAlive (ledger : List (Entry ι)) : Prop :=
  ∀ before after i, ledger = before ++ .free i :: after → .use i ∉ after ∧ .free i ∉ after

/-- The owners kept to the rules, and own `owned` by now. -/
inductive Accounts : List (Entry ι) → List ι → Prop
  | nil : Accounts [] []
  | alloc {ledger owned} (i : ι) :
      Accounts ledger owned → .alloc i ∉ ledger → Accounts (ledger ++ [.alloc i]) (i :: owned)
  | use {ledger owned} (i : ι) :
      Accounts ledger owned → i ∈ owned → Accounts (ledger ++ [.use i]) owned
  | free {ledger owned} (i : ι) :
      Accounts ledger (i :: owned) → Accounts (ledger ++ [.free i]) owned
  | move {ledger owned owned'} :
      Accounts ledger owned → owned.Perm owned' → Accounts ledger owned'

variable {ledger : List (Entry ι)} {owned : List ι} {i : ι}

theorem UsedAlive.snoc {e : Entry ι} (h : UsedAlive ledger)
    (hnew : ∀ i, e = .use i ∨ e = .free i → .free i ∉ ledger) : UsedAlive (ledger ++ [e]) := by
  intro before after i heq
  rcases List.eq_nil_or_concat after with rfl | ⟨after', last, rfl⟩
  · exact ⟨List.not_mem_nil, List.not_mem_nil⟩
  · have hsplit : ledger ++ [e] = (before ++ .free i :: after') ++ [last] := by
      rw [heq, List.append_assoc, List.concat_eq_append, List.cons_append]
    obtain ⟨hledger, hlast⟩ := List.append_inj' hsplit rfl
    obtain rfl := List.singleton_inj.mp hlast
    obtain ⟨huse, hfree⟩ := h before after' i hledger
    have hmem : .free i ∈ ledger := by
      rw [hledger]
      exact List.mem_append_right _ (List.mem_cons_self ..)
    rw [List.concat_eq_append]
    constructor
    · intro hin
      rcases List.mem_append.mp hin with hin | hin
      · exact huse hin
      · exact hnew i (.inl (List.mem_singleton.mp hin).symm) hmem
    · intro hin
      rcases List.mem_append.mp hin with hin | hin
      · exact hfree hin
      · exact hnew i (.inr (List.mem_singleton.mp hin).symm) hmem

theorem UsedAlive.of_append {entries : List (Entry ι)} (h : UsedAlive (ledger ++ entries)) :
    UsedAlive ledger := by
  intro before after i heq
  obtain ⟨huse, hfree⟩ := h before (after ++ entries) i
    (by rw [heq, List.append_assoc, List.cons_append])
  exact ⟨fun hin => huse (List.mem_append_left _ hin), fun hin => hfree (List.mem_append_left _ hin)⟩

/-- A second free breaks the ledger. -/
theorem not_usedAlive_of_free (h : .free i ∈ ledger) : ¬ UsedAlive (ledger ++ [.free i]) := by
  intro halive
  obtain ⟨before, after, rfl⟩ := List.append_of_mem h
  have hlast := (halive before (after ++ [.free i]) i (by rw [List.append_assoc, List.cons_append])).2
  exact hlast (List.mem_append_right _ (List.mem_singleton.mpr rfl))

/-! ## What is freed -/

section Counts

variable [DecidableEq ι]

theorem Accounts.count_alloc (h : Accounts ledger owned) (i : ι) :
    ledger.count (.alloc i) = owned.count i + ledger.count (.free i) := by
  induction h with
  | nil => rfl
  | alloc j _ _ ih =>
    rw [List.count_append, List.count_append, ih]
    by_cases hj : j = i
    · simp [hj]
      omega
    · simp [hj]
  | use j _ _ ih =>
    rw [List.count_append, List.count_append, ih]
    simp
  | free j _ ih =>
    rw [List.count_append, List.count_append, ih]
    by_cases hj : j = i
    · simp [hj]
      omega
    · simp [hj]
  | move _ hperm ih => rw [ih, hperm.count_eq]

theorem Accounts.alloc_once (h : Accounts ledger owned) (i : ι) :
    ledger.count (.alloc i) ≤ 1 := by
  induction h with
  | nil => exact Nat.zero_le _
  | alloc j _ hnew ih =>
    rw [List.count_append]
    by_cases hj : j = i
    · rw [← hj, List.count_eq_zero_of_not_mem hnew]
      simp
    · simpa [hj] using ih
  | use j _ _ ih =>
    rw [List.count_append]
    simpa using ih
  | free j _ ih =>
    rw [List.count_append]
    simpa using ih
  | move _ _ ih => exact ih

/-- If nothing is owned any more, everything was freed. -/
theorem Accounts.all_freed (h : Accounts ledger []) (hi : .alloc i ∈ ledger) :
    .free i ∈ ledger := by
  have hcount := h.count_alloc i
  have hpos := List.count_pos_iff.mpr hi
  rw [List.count_nil, Nat.zero_add] at hcount
  exact List.count_pos_iff.mp (by omega)

/-- What is owned was not freed. -/
theorem Accounts.not_freed (h : Accounts ledger owned) (hi : i ∈ owned) : .free i ∉ ledger := by
  have hcount := h.count_alloc i
  have honce := h.alloc_once i
  have hpos := List.count_pos_iff.mpr hi
  exact List.count_eq_zero.mp (by omega)

theorem Accounts.usedAlive (h : Accounts ledger owned) : UsedAlive ledger := by
  induction h with
  | nil =>
    intro before after i heq
    exact absurd heq (by simp)
  | alloc j _ _ ih => exact ih.snoc fun i hi => by simp at hi
  | use j h hj ih =>
    refine ih.snoc fun i hi => ?_
    obtain rfl : j = i := by simpa using hi
    exact h.not_freed hj
  | free j h ih =>
    refine ih.snoc fun i hi => ?_
    obtain rfl : j = i := by simpa using hi
    exact h.not_freed (List.mem_cons_self ..)
  | move _ _ ih => exact ih

end Counts

/-- Only how often each object is owned matters. -/
theorem Accounts.recount [DecidableEq ι] {owned' : List ι} (h : Accounts ledger owned)
    (hcount : ∀ i, owned.count i = owned'.count i) : Accounts ledger owned' :=
  h.move (List.perm_iff_count.mpr hcount)

theorem Accounts.free_mid {before after : List ι}
    (h : Accounts ledger (before ++ i :: after)) :
    Accounts (ledger ++ [.free i]) (before ++ after) :=
  .free i (h.move List.perm_middle)

end Ledgers
