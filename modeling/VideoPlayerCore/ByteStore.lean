import Mathlib.Data.List.Basic

/-!
# Stores into a block of bytes

`store mem i bytes` overwrites the bytes from index `i` on.

    mem.length ≤ (store mem i bytes).length                              (length_le_store)
    n ≤ i → i ≤ mem.length → (store mem i bytes).take n = mem.take n     (take_store_before)
    i ≤ mem.length → (store mem i bytes).take (i + n) = mem.take i ++ bytes.take n
                                                   for n ≤ bytes.length  (take_store)
-/

namespace ByteStore

variable {α : Type*} {mem bytes : List α} {i n : Nat}

def store (mem : List α) (i : Nat) (bytes : List α) : List α :=
  mem.take i ++ bytes ++ mem.drop (i + bytes.length)

theorem length_le_store : mem.length ≤ (store mem i bytes).length := by
  unfold store
  rw [List.length_append, List.length_append, List.length_take, List.length_drop]
  omega

/-- What is in front of a store stays. -/
theorem take_store_before (hn : n ≤ i) (hi : i ≤ mem.length) :
    (store mem i bytes).take n = mem.take n := by
  unfold store
  rw [List.append_assoc, List.take_append_of_le_length (by rw [List.length_take]; omega),
    List.take_take, Nat.min_eq_left hn]

theorem take_store (hi : i ≤ mem.length) (hn : n ≤ bytes.length) :
    (store mem i bytes).take (i + n) = mem.take i ++ bytes.take n := by
  have hlen : (mem.take i).length = i := by
    rw [List.length_take]
    omega
  unfold store
  rw [List.append_assoc, List.take_append, hlen, List.take_of_length_le (by omega),
    Nat.add_sub_cancel_left, List.take_append_of_le_length hn]

/-- What is read from `j` on, up to the stored bytes. -/
theorem drop_store (hi : i ≤ mem.length) (hj : n ≤ i) :
    (store mem i bytes).drop n =
      (mem.take i).drop n ++ (bytes ++ mem.drop (i + bytes.length)) := by
  unfold store
  rw [List.append_assoc, List.drop_append_of_le_length (by rw [List.length_take]; omega)]

end ByteStore
