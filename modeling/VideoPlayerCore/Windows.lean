import Mathlib.Data.List.Basic

/-!
# Windows into a memory of cells

A memory gives a cell to every address.  `read mem i n` are the `n` cells from `i` on,
and `write mem i xs` puts `xs` there.

    read mem i (n + k) = read mem i n ++ read mem (i + n) k                (read_add)
    i + xs.length ≤ j ∨ j + n ≤ i →
      read (write mem i xs) j n = read mem j n                             (read_write_apart)
    read (write mem (i + n) xs) i (n + xs.length) = read mem i n ++ xs     (read_write_next)
-/

namespace Windows

variable {α : Type*}

def read (mem : Nat → α) (i n : Nat) : List α := (List.range n).map fun j => mem (i + j)

def write (mem : Nat → α) (i : Nat) (xs : List α) : Nat → α := fun a =>
  if i ≤ a then xs[a - i]?.getD (mem a) else mem a

variable {mem mem' : Nat → α} {i j n k a : Nat} {xs : List α}

@[simp] theorem read_zero : read mem i 0 = [] := rfl

@[simp] theorem length_read : (read mem i n).length = n := by
  unfold read
  rw [List.length_map, List.length_range]

theorem getElem_read (h : j < (read mem i n).length) : (read mem i n)[j] = mem (i + j) := by
  simp only [read, List.getElem_map, List.getElem_range]

theorem read_add : read mem i (n + k) = read mem i n ++ read mem (i + n) k := by
  unfold read
  rw [List.range_add, List.map_append, List.map_map]
  congr 1
  apply List.map_congr_left
  intro j _
  show mem (i + (n + j)) = mem (i + n + j)
  rw [Nat.add_assoc]

theorem read_congr (h : ∀ a, i ≤ a → a < i + n → mem a = mem' a) :
    read mem i n = read mem' i n := by
  unfold read
  apply List.map_congr_left
  intro j hj
  have hlt := List.mem_range.mp hj
  exact h (i + j) (by omega) (by omega)

/-- The cells that a window holds, one by one. -/
theorem read_eq_iff : read mem i n = xs ↔ xs.length = n ∧ ∀ j (h : j < xs.length), mem (i + j) = xs[j] := by
  constructor
  · rintro rfl
    exact ⟨length_read, fun j h => (getElem_read h).symm⟩
  · rintro ⟨hlen, hcells⟩
    apply List.ext_getElem
    · rw [length_read, hlen]
    · intro j hj hj'
      rw [getElem_read, hcells j hj']

theorem write_of_apart (h : a < i ∨ i + xs.length ≤ a) : write mem i xs a = mem a := by
  unfold write
  split
  · next hle =>
    rw [List.getElem?_eq_none (by omega), Option.getD_none]
  · rfl

theorem read_write_apart (h : i + xs.length ≤ j ∨ j + n ≤ i) :
    read (write mem i xs) j n = read mem j n := by
  apply read_congr
  intro a hlo hhi
  exact write_of_apart (by omega)

@[simp] theorem read_write : read (write mem i xs) i xs.length = xs := by
  refine read_eq_iff.mpr ⟨rfl, fun j hj => ?_⟩
  unfold write
  rw [if_pos (Nat.le_add_right i j), Nat.add_sub_cancel_left, List.getElem?_eq_getElem hj,
    Option.getD_some]

/-- What is written behind a window makes it longer. -/
theorem read_write_next :
    read (write mem (i + n) xs) i (n + xs.length) = read mem i n ++ xs := by
  rw [read_add, read_write_apart (.inr (Nat.le_refl _)), read_write]

end Windows
