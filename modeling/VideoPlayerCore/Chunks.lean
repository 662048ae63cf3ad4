import Mathlib.Data.List.Basic

/-!
# Lists of pieces of one length

`Cut n L` says that every piece of `L` has `n` elements; then the piece number `k`
is the stretch of `L.flatten` from `n * k` on.
-/

namespace Chunks

variable {α : Type*} {n : Nat} {L : List (List α)}

def Cut (n : Nat) (L : List (List α)) : Prop := ∀ x ∈ L, x.length = n

theorem Cut.append (h : Cut n L) {x : List α} (hx : x.length = n) : Cut n (L ++ [x]) := by
  intro y hy
  rcases List.mem_append.mp hy with hy | hy
  · exact h y hy
  · rw [List.mem_singleton.mp hy]
    exact hx

theorem Cut.length_flatten (h : Cut n L) : L.flatten.length = n * L.length := by
  induction L with
  | nil => rfl
  | cons x L ih =>
    have hL : Cut n L := fun y hy => h y (List.mem_cons_of_mem _ hy)
    rw [List.flatten_cons, List.length_append, ih hL, h x List.mem_cons_self, List.length_cons,
      Nat.mul_succ, Nat.add_comm]

theorem Cut.take_drop (h : Cut n L) {k : Nat} (hk : k < L.length) :
    (L.flatten.drop (n * k)).take n = L[k] := by
  induction L generalizing k with
  | nil => exact absurd hk (Nat.not_lt_zero k)
  | cons x L ih =>
    have hx : x.length = n := h x List.mem_cons_self
    have hL : Cut n L := fun y hy => h y (List.mem_cons_of_mem _ hy)
    cases k with
    | zero => rw [Nat.mul_zero, List.drop_zero, List.flatten_cons, ← hx, List.take_left]; rfl
    | succ k =>
      rw [List.flatten_cons, Nat.mul_succ, Nat.add_comm, ← List.drop_drop, ← hx, List.drop_left, hx,
        ih hL (Nat.lt_of_succ_lt_succ hk)]
      rfl

end Chunks
