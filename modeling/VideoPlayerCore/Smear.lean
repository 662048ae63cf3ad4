import Mathlib.Algebra.Ring.Nat
import Mathlib.Data.Nat.Log

/-!
# Smearing the bits of a number downwards

`y ||| y >>> d` copies every bit `d` places down.  With `d = 1, 2, 4, …` bit `i`
comes to stand for the bits `i, …, i + d - 1` of the first number, and once `d`
is past its highest bit everything below that bit is set:

    Smeared d x y → x < 2 ^ d → y + 1 = 2 ^ Nat.clog 2 (x + 1)       (Smeared.succ_eq)
-/

namespace Smear

/-- Bit `i` of `y` is set iff one of the `d` bits of `x` from `i` on is. -/
def Smeared (d x y : Nat) : Prop :=
  ∀ i, y.testBit i = true ↔ ∃ j, i ≤ j ∧ j < i + d ∧ x.testBit j = true

variable {d x y : Nat}

theorem Smeared.refl (x : Nat) : Smeared 1 x x := by
  intro i
  constructor
  · intro h
    exact ⟨i, le_rfl, Nat.lt_succ_self i, h⟩
  · rintro ⟨j, h1, h2, h⟩
    obtain rfl : i = j := by omega
    exact h

/-- Two windows of `d` bits, `d` apart, are one of `2 * d`. -/
theorem Smeared.double (h : Smeared d x y) : Smeared (2 * d) x (y ||| y >>> d) := by
  intro i
  rw [Nat.testBit_or, Nat.testBit_shiftRight, Bool.or_eq_true, h i, h (d + i)]
  constructor
  · rintro (⟨j, h1, h2, hj⟩ | ⟨j, h1, h2, hj⟩)
    · exact ⟨j, h1, by omega, hj⟩
    · exact ⟨j, by omega, by omega, hj⟩
  · rintro ⟨j, h1, h2, hj⟩
    rcases Nat.lt_or_ge j (i + d) with hlt | hge
    · exact .inl ⟨j, h1, hlt, hj⟩
    · exact .inr ⟨j, by omega, by omega, hj⟩

/-- Some bit from `i` on is set iff the number reaches `2 ^ i`. -/
theorem exists_testBit_iff (x i : Nat) : (∃ j, i ≤ j ∧ x.testBit j = true) ↔ 2 ^ i ≤ x := by
  constructor
  · rintro ⟨j, hij, hj⟩
    exact (Nat.pow_le_pow_right (by decide) hij).trans (Nat.ge_two_pow_of_testBit hj)
  · intro h
    obtain ⟨j, hij, hj⟩ := Nat.exists_ge_and_testBit_of_ge_two_pow h
    exact ⟨j, hij, hj⟩

theorem Smeared.succ_eq (h : Smeared d x y) (hx : x < 2 ^ d) : y + 1 = 2 ^ Nat.clog 2 (x + 1) := by
  have hbits : y = 2 ^ Nat.clog 2 (x + 1) - 1 := by
    apply Nat.eq_of_testBit_eq
    intro i
    rw [Nat.testBit_two_pow_sub_one, Bool.eq_iff_iff, h i, decide_eq_true_iff,
      Nat.lt_clog_iff_pow_lt (by decide), Nat.lt_succ_iff, ← exists_testBit_iff]
    constructor
    · rintro ⟨j, hij, -, hj⟩
      exact ⟨j, hij, hj⟩
    · rintro ⟨j, hij, hj⟩
      -- a set bit is below `d`, so every window reaches it
      have hlt : j < d :=
        (Nat.pow_lt_pow_iff_right (by decide)).mp ((Nat.ge_two_pow_of_testBit hj).trans_lt hx)
      exact ⟨j, hij, by omega, hj⟩
  rw [hbits, Nat.sub_add_cancel Nat.one_le_two_pow]

end Smear
