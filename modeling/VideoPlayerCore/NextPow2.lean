import Mathlib.Order.Bounds.Basic
import VideoPlayerCore.Smear
import VideoPlayerCore.Words

/-!
# next_pow2

The rounding up to a power of two that the ring buffers offer.  `v - 1` is smeared to the
bits below its highest one and 1 is added, so that a word of 64 bits becomes
`2 ^ Nat.clog 2 v`, if that is a word.  It is one up to `2 ^ 63`:

    v ≤ 2 ^ 63 → next_pow2(v) is the least power of two from v on    (isLeast_nextPow2)
    v > 2 ^ 63 → next_pow2(v) = 0                                    (nextPow2_eq_zero)
-/

namespace VideoPlayerCore

open Smear Words

/-- The shift by 32 is compiled in, a `size_t` having 64 bits. -/
def nextPow2 (v : BitVec 64) : BitVec 64 :=
  if v = 0 then 1
  else
    let v := v - 1
    let v := v ||| v >>> 1
    let v := v ||| v >>> 2
    let v := v ||| v >>> 4
    let v := v ||| v >>> 8
    let v := v ||| v >>> 16
    let v := v ||| v >>> 32
    v + 1

variable {u v : BitVec 64}

/-- The sum of the last line may be `2 ^ 64`. -/
theorem toNat_nextPow2_mod (v : BitVec 64) :
    (nextPow2 v).toNat = 2 ^ Nat.clog 2 v.toNat % 2 ^ 64 := by
  unfold nextPow2
  split
  · next h =>
    rw [h]
    decide
  · next h =>
    have hpos : 0 < v.toNat := Nat.pos_of_ne_zero fun h0 => h (BitVec.eq_of_toNat_eq h0)
    have hsmear := (((((Smeared.refl (v - 1).toNat).double).double).double).double).double.double
    have heq := hsmear.succ_eq (v - 1).isLt
    rw [toNat_pred v hpos, Nat.sub_add_cancel hpos] at heq
    dsimp only
    rw [BitVec.toNat_add, toNat_one (by decide)]
    simp only [BitVec.toNat_or, BitVec.toNat_ushiftRight]
    rw [toNat_pred v hpos]
    exact congrArg (· % 2 ^ 64) heq

/-- Up to `2 ^ 63` the result is the least power of two that is not below `v`. -/
theorem toNat_nextPow2 (hv : v.toNat ≤ 2 ^ 63) : (nextPow2 v).toNat = 2 ^ Nat.clog 2 v.toNat := by
  have hlt : 2 ^ Nat.clog 2 v.toNat < 2 ^ 64 := by
    apply Nat.pow_lt_pow_right (by decide)
    exact Nat.lt_of_le_of_lt (Nat.clog_le_of_le_pow hv) (by decide)
  rw [toNat_nextPow2_mod, Nat.mod_eq_of_lt hlt]

/-- The range ends there: no word is a power of two from `v` on. -/
theorem nextPow2_eq_zero (hv : 2 ^ 63 < v.toNat) : nextPow2 v = 0 := by
  have hclog : Nat.clog 2 v.toNat = 64 := by
    apply Nat.le_antisymm
    · exact Nat.clog_le_of_le_pow v.isLt.le
    · exact (Nat.lt_clog_iff_pow_lt (by decide)).mpr hv
  apply BitVec.eq_of_toNat_eq
  rw [toNat_nextPow2_mod, hclog]
  rfl

theorem isLeast_nextPow2 (hv : v.toNat ≤ 2 ^ 63) :
    IsLeast {p : Nat | p.isPowerOfTwo ∧ v.toNat ≤ p} (nextPow2 v).toNat := by
  rw [toNat_nextPow2 hv]
  constructor
  · exact ⟨⟨_, rfl⟩, Nat.le_pow_clog (by decide) _⟩
  · rintro p ⟨⟨k, rfl⟩, hle⟩
    exact Nat.pow_le_pow_right (by decide) (Nat.clog_le_of_le_pow hle)

/-- A greater bound leaves fewer powers of two. -/
theorem nextPow2_mono (hv : v.toNat ≤ 2 ^ 63) (huv : u ≤ v) : nextPow2 u ≤ nextPow2 v := by
  have hle : u.toNat ≤ v.toNat := huv
  apply BitVec.le_def.mpr
  refine (isLeast_nextPow2 hv).mono (isLeast_nextPow2 (hle.trans hv)) ?_
  rintro p ⟨hp, hvp⟩
  exact ⟨hp, hle.trans hvp⟩

theorem nextPow2_eq_iff (hv : v.toNat ≤ 2 ^ 63) : nextPow2 v = v ↔ v.toNat.isPowerOfTwo := by
  have hleast := isLeast_nextPow2 hv
  constructor
  · intro h
    rw [h] at hleast
    exact hleast.1.1
  · intro h
    apply BitVec.eq_of_toNat_eq
    exact Nat.le_antisymm (hleast.2 ⟨h, le_rfl⟩) hleast.1.2

/-- **Rounding up to a power of two.**  For every word up to `2 ^ 63` the result is the least
power of two that is not below it.  There a greater word has no smaller result, and exactly the
powers of two stay as they are. -/
theorem nextPow2_rounds_up :
    nextPow2 0 = 1 ∧ ∀ v : BitVec 64, v.toNat ≤ 2 ^ 63 →
      IsLeast {p : Nat | p.isPowerOfTwo ∧ v.toNat ≤ p} (nextPow2 v).toNat ∧
        (∀ u ≤ v, nextPow2 u ≤ nextPow2 v) ∧
        (nextPow2 v = v ↔ v.toNat.isPowerOfTwo) :=
  ⟨rfl, fun _ hv => ⟨isLeast_nextPow2 hv, fun _ => nextPow2_mono hv, nextPow2_eq_iff hv⟩⟩

/-- The last word that is rounded. -/
theorem nextPow2_rounds_up_last :
    IsLeast {p : Nat | p.isPowerOfTwo ∧ 2 ^ 63 ≤ p} (nextPow2 0x8000000000000000).toNat ∧
      nextPow2 0x7fffffffffffffff ≤ nextPow2 0x8000000000000000 ∧
      nextPow2 0x8000000000000000 = 0x8000000000000000 := by
  obtain ⟨hleast, hmono, hfixed⟩ := nextPow2_rounds_up.2 0x8000000000000000 (by decide)
  exact ⟨hleast, hmono _ (by decide), hfixed.mpr ⟨63, by decide⟩⟩

end VideoPlayerCore
