import Mathlib.Algebra.Ring.Int.Defs
import Mathlib.Algebra.Ring.Nat
import Mathlib.Order.Basic

/-!
# `int`, `long`, `time_t` and `size_t`

What an integer becomes in a 32-bit `int`, a 64-bit `long`, `time_t` or `size_t`.  Where a
value fits, the conversion leaves it as it is:

    IsInt n → int n = n                     (IsInt.int_eq)
    IsInt n → long n = n                    (IsInt.long_eq)
    IsInt n → 0 ≤ n → (sizeT n).toNat = n   (IsInt.toNat_sizeT)
    0 ≤ n → (timeT n = n ↔ n < 2 ^ 63)      (timeT_eq_iff)
-/

namespace VideoPlayerCore

def IsInt (n : Int) : Prop := -2 ^ 31 ≤ n ∧ n < 2 ^ 31

/-- The value of `n` in an `int`. -/
def int (n : Int) : Int := n.bmod (2 ^ 32)

/-- The value of `n` in a `long`. -/
def long (n : Int) : Int := n.bmod (2 ^ 64)

/-- The value of `n` in a `time_t`. -/
def timeT (n : Int) : Int := n.bmod (2 ^ 64)

/-- The value of `n` in a `size_t`. -/
def sizeT (n : Int) : BitVec 64 := .ofInt 64 n

theorem IsInt.int_eq {n : Int} (h : IsInt n) : int n = n := by
  unfold IsInt at h
  unfold int
  exact Int.bmod_eq_of_le (by omega) (by omega)

theorem IsInt.long_eq {n : Int} (h : IsInt n) : long n = n := by
  unfold IsInt at h
  unfold long
  exact Int.bmod_eq_of_le (by omega) (by omega)

theorem timeT_eq_iff {n : Int} (h : 0 ≤ n) : timeT n = n ↔ n < 2 ^ 63 := by
  unfold timeT
  constructor
  · intro heq
    rw [← heq]
    exact Int.bmod_lt (by decide)
  · intro hlt
    exact Int.bmod_eq_of_le (by omega) (by omega)

theorem IsInt.toNat_sizeT {n : Int} (h : IsInt n) (h0 : 0 ≤ n) : ((sizeT n).toNat : Int) = n := by
  unfold IsInt at h
  rw [sizeT, BitVec.toNat_ofInt, Int.toNat_of_nonneg (Int.emod_nonneg _ (by decide))]
  exact Int.emod_eq_of_lt h0 (by omega)

end VideoPlayerCore
