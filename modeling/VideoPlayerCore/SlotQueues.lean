import VideoPlayerCore.Windows

/-!
# Queues in windows

A queue of entries of `len` cells lies in a memory: entry `i` in the window at `addr (k + i)`.
What is written apart from these windows leaves the queue as it is (`Holds.write`), the first
window is the first entry (`Holds.head`), and a window that is filled behind the last one makes
the queue longer (`Holds.concat`).
-/

namespace SlotQueues

open Windows

variable {α : Type*}

/-- The windows from number `k` on hold the queue. -/
def Holds (mem : Nat → α) (addr : Nat → Nat) (len k : Nat) (queue : List (List α)) : Prop :=
  ∀ i (h : i < queue.length), read mem (addr (k + i)) len = queue[i]

variable {mem : Nat → α} {addr : Nat → Nat} {len k j : Nat} {queue : List (List α)}
  {x xs : List α}

theorem holds_nil : Holds mem addr len k [] := by
  intro i hi
  cases hi

theorem Holds.head (h : Holds mem addr len k (x :: queue)) : read mem (addr k) len = x :=
  h 0 (Nat.succ_pos _)

theorem Holds.tail (h : Holds mem addr len k (x :: queue)) : Holds mem addr len (k + 1) queue := by
  intro i hi
  have hnext := h (i + 1) (Nat.succ_lt_succ hi)
  rw [Nat.add_right_comm]
  exact hnext

theorem Holds.concat (h : Holds mem addr len k queue)
    (hx : read mem (addr (k + queue.length)) len = x) : Holds mem addr len k (queue ++ [x]) := by
  intro i hi
  rw [List.length_append, List.length_singleton] at hi
  by_cases hlt : i < queue.length
  · rw [List.getElem_append_left hlt]
    exact h i hlt
  · obtain rfl : i = queue.length := by omega
    rw [List.getElem_concat_length rfl]
    exact hx

theorem Holds.write (h : Holds mem addr len k queue)
    (hapart : ∀ i < queue.length, addr (k + i) + len ≤ j ∨ j + xs.length ≤ addr (k + i)) :
    Holds (write mem j xs) addr len k queue := by
  intro i hi
  rw [read_write_apart (hapart i hi).symm]
  exact h i hi

end SlotQueues
