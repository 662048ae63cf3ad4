import Mathlib.Data.List.Basic
import Mathlib.Data.List.Nodup

/-!
# Rosters: members that join and leave by notice

Whoever keeps a roster reads the notices later, in order.  `replay` is the roster once all of
them are read: the sender of a notice knows at once what that will be.

    roster.Nodup → (a ∈ replay roster (inbox ++ [.joins b]) ↔ a = b ∨ a ∈ replay roster inbox)
    roster.Nodup → (a ∈ replay roster (inbox ++ [.leaves b]) ↔ a ≠ b ∧ a ∈ replay roster inbox)
                                                        (mem_replay_joins, mem_replay_leaves)
-/

namespace Rosters

inductive Notice (α : Type*)
  | joins (a : α)
  | leaves (a : α)
  deriving DecidableEq

variable {α : Type*} [DecidableEq α] {roster roster' : List α} {inbox : List (Notice α)} {a b : α}

/-- The roster once the notice is read. -/
def post (roster : List α) : Notice α → List α
  | .joins a => roster.insert a
  | .leaves a => roster.erase a

def replay (roster : List α) (inbox : List (Notice α)) : List α := inbox.foldl post roster

@[simp] theorem replay_nil (roster : List α) : replay roster [] = roster := rfl

@[simp] theorem replay_cons (roster : List α) (n : Notice α) (inbox : List (Notice α)) :
    replay roster (n :: inbox) = replay (post roster n) inbox := rfl

theorem replay_concat (roster : List α) (inbox : List (Notice α)) (n : Notice α) :
    replay roster (inbox ++ [n]) = post (replay roster inbox) n := by
  unfold replay
  rw [List.foldl_append, List.foldl_cons, List.foldl_nil]

theorem nodup_post (h : roster.Nodup) (n : Notice α) : (post roster n).Nodup := by
  cases n with
  | joins a => exact h.insert
  | leaves a => exact h.erase a

theorem nodup_replay (h : roster.Nodup) : (replay roster inbox).Nodup := by
  induction inbox generalizing roster with
  | nil => exact h
  | cons n inbox ih => exact ih (nodup_post h n)

theorem mem_replay_joins : a ∈ replay roster (inbox ++ [.joins b]) ↔
    a = b ∨ a ∈ replay roster inbox := by
  rw [replay_concat]
  exact List.mem_insert_iff

theorem mem_replay_leaves (h : roster.Nodup) : a ∈ replay roster (inbox ++ [.leaves b]) ↔
    a ≠ b ∧ a ∈ replay roster inbox := by
  rw [replay_concat]
  exact (nodup_replay h).mem_erase_iff

theorem post_mono (h : roster.Nodup) (h' : roster'.Nodup) (hsub : roster ⊆ roster')
    (n : Notice α) : post roster n ⊆ post roster' n := by
  intro x hx
  cases n with
  | joins a =>
    rcases List.mem_insert_iff.mp hx with rfl | hx
    · exact List.mem_insert_self
    · exact List.mem_insert_of_mem (hsub hx)
  | leaves a =>
    obtain ⟨hne, hx⟩ := h.mem_erase_iff.mp hx
    exact h'.mem_erase_iff.mpr ⟨hne, hsub hx⟩

/-- Who is on a smaller roster at first is on the larger one in the end. -/
theorem replay_mono (h : roster.Nodup) (h' : roster'.Nodup) (hsub : roster ⊆ roster') :
    replay roster inbox ⊆ replay roster' inbox := by
  induction inbox generalizing roster roster' with
  | nil => exact hsub
  | cons n inbox ih => exact ih (nodup_post h n) (nodup_post h' n) (post_mono h h' hsub n)

end Rosters
