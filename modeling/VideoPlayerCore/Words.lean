import Mathlib.Data.Nat.ModEq

/-!
# Words masked to a power of two

`x &&& (c - 1)` of a word `x` is `x % c` when `c` is a power of two.  Two
counters that only grow, kept as words modulo `c`, still give their exact
distance while that distance is below `c`:

    x ≡ p, y ≡ o (mod c), o ≤ p < o + c → ((x - y) &&& (c - 1)).toNat = p - o     (Pow2.sub_and_mask)
-/

namespace Words

variable {W : Nat}

/-- A word accepted by the test `c ≠ 0 ∧ c & (c - 1) = 0`. -/
structure Pow2 (W : Nat) where
  val : BitVec W
  ne_zero : val ≠ 0
  and_pred : val &&& (val - 1) = 0

/-- The mask of the residues modulo `c`. -/
def Pow2.mask (c : Pow2 W) : BitVec W := c.val - 1

theorem Pow2.toNat_pos (c : Pow2 W) : 0 < c.val.toNat := by
  have h : c.val.toNat ≠ 0 := fun h => c.ne_zero (BitVec.eq_of_toNat_eq (by simpa using h))
  omega

theorem toNat_one (hW : 0 < W) : (1 : BitVec W).toNat = 1 := by
  simp [Nat.mod_eq_of_lt (Nat.one_lt_two_pow hW.ne')]

theorem width_pos (x : BitVec W) (h : 0 < x.toNat) : 0 < W := by
  apply Nat.pos_of_ne_zero
  rintro rfl
  have := x.isLt
  omega

theorem toNat_pred (x : BitVec W) (h : 0 < x.toNat) : (x - 1).toNat = x.toNat - 1 := by
  have hx := x.isLt
  rw [BitVec.toNat_sub, toNat_one (width_pos x h)]
  have he : 2 ^ W - 1 + x.toNat = (x.toNat - 1) + 2 ^ W := by omega
  rw [he, Nat.add_mod_right, Nat.mod_eq_of_lt (by omega)]

/-- The test accepts powers of two only. -/
theorem Pow2.exists_pow (c : Pow2 W) : ∃ k, k < W ∧ c.val.toNat = 2 ^ k := by
  have hpos := c.toNat_pos
  have hand : c.val.toNat &&& (c.val.toNat - 1) = 0 := by
    have h := congrArg BitVec.toNat c.and_pred
    rw [BitVec.toNat_and, toNat_pred _ hpos] at h
    simpa using h
  obtain ⟨k, hk⟩ := (Nat.and_sub_one_eq_zero_iff_isPowerOfTwo hpos.ne').mp hand
  refine ⟨k, ?_, hk⟩
  have hlt := c.val.isLt
  rw [hk] at hlt
  exact (Nat.pow_lt_pow_iff_right (by omega)).mp hlt

/-- The test accepts every power of two. -/
def Pow2.ofTwoPow (x : BitVec W) (k : Nat) (h : x.toNat = 2 ^ k) : Pow2 W where
  val := x
  ne_zero := by
    rintro rfl
    exact (Nat.two_pow_pos k).ne' h.symm
  and_pred := by
    have hpos : 0 < x.toNat := h ▸ Nat.two_pow_pos k
    apply BitVec.eq_of_toNat_eq
    rw [BitVec.toNat_and, toNat_pred _ hpos]
    exact ((Nat.and_sub_one_eq_zero_iff_isPowerOfTwo hpos.ne').mpr ⟨k, h⟩).trans BitVec.toNat_zero.symm

theorem Pow2.dvd_two_pow (c : Pow2 W) : c.val.toNat ∣ 2 ^ W := by
  obtain ⟨k, hk, he⟩ := c.exists_pow
  rw [he]
  exact Nat.pow_dvd_pow 2 hk.le

theorem Pow2.toNat_and_mask (c : Pow2 W) (x : BitVec W) :
    (x &&& c.mask).toNat = x.toNat % c.val.toNat := by
  obtain ⟨k, -, he⟩ := c.exists_pow
  rw [BitVec.toNat_and, Pow2.mask, toNat_pred _ c.toNat_pos, he, Nat.and_two_pow_sub_one_eq_mod]

section Counters
variable (c : Pow2 W) {x y : BitVec W} {p o : Nat}

theorem Pow2.add_modEq (hx : x.toNat ≡ p [MOD c.val.toNat]) (y : BitVec W) :
    (x + y).toNat ≡ p + y.toNat [MOD c.val.toNat] := by
  have h : (x + y).toNat ≡ x.toNat + y.toNat [MOD c.val.toNat] := by
    rw [BitVec.toNat_add]
    exact (Nat.mod_modEq _ _).of_dvd c.dvd_two_pow
  exact h.trans (hx.add_right _)

theorem Pow2.sub_modEq (hx : x.toNat ≡ p [MOD c.val.toNat]) (hy : y.toNat ≡ o [MOD c.val.toNat])
    (hle : o ≤ p) : (x - y).toNat ≡ p - o [MOD c.val.toNat] := by
  have hyW : y.toNat ≤ 2 ^ W := y.isLt.le
  have h1 : (x - y).toNat ≡ 2 ^ W - y.toNat + x.toNat [MOD c.val.toNat] := by
    rw [BitVec.toNat_sub]
    exact (Nat.mod_modEq _ _).of_dvd c.dvd_two_pow
  have h2 : 2 ^ W ≡ 0 [MOD c.val.toNat] := Nat.modEq_zero_iff_dvd.mpr c.dvd_two_pow
  apply Nat.ModEq.add_right_cancel hy
  rw [Nat.sub_add_cancel hle]
  calc (x - y).toNat + y.toNat
      ≡ 2 ^ W - y.toNat + x.toNat + y.toNat [MOD c.val.toNat] := h1.add_right _
    _ = 2 ^ W + x.toNat := by omega
    _ ≡ 0 + p [MOD c.val.toNat] := h2.add hx
    _ = p := Nat.zero_add p

/-- A masked sum is the sum of the counters, modulo the capacity. -/
theorem Pow2.add_and_mask (hx : x.toNat = p % c.val.toNat) (y : BitVec W) :
    ((x + y) &&& c.mask).toNat = (p + y.toNat) % c.val.toNat := by
  rw [c.toNat_and_mask]
  exact c.add_modEq (hx ▸ Nat.mod_modEq _ _) y

/-- The masked difference of two counters less than a capacity apart is exact. -/
theorem Pow2.sub_and_mask (hx : x.toNat = p % c.val.toNat) (hy : y.toNat = o % c.val.toNat)
    (hle : o ≤ p) (hlt : p < o + c.val.toNat) : ((x - y) &&& c.mask).toNat = p - o := by
  have h := c.sub_modEq (hx ▸ Nat.mod_modEq p _) (hy ▸ Nat.mod_modEq o _) hle
  rw [c.toNat_and_mask, h, Nat.mod_eq_of_lt (by omega)]

/-- The masked gap `y - x - 1` is what the counters leave free, one slot kept back. -/
theorem Pow2.gap_and_mask (hx : x.toNat = p % c.val.toNat) (hy : y.toNat = o % c.val.toNat)
    (hle : o ≤ p) (hlt : p < o + c.val.toNat) :
    ((y - x - 1) &&& c.mask).toNat = c.val.toNat - 1 - (p - o) := by
  have hy' : y.toNat ≡ o + c.val.toNat [MOD c.val.toNat] := by
    rw [hy]
    exact (Nat.mod_modEq _ _).trans (Nat.add_mod_right _ _).symm
  have h1 := c.sub_modEq hy' (hx ▸ Nat.mod_modEq p _) hlt.le
  have hone : (1 : BitVec W).toNat ≡ 1 [MOD c.val.toNat] := by
    rw [toNat_one (width_pos c.val c.toNat_pos)]
  have h2 := c.sub_modEq h1 hone (by omega)
  rw [c.toNat_and_mask, h2, Nat.mod_eq_of_lt (by omega)]
  omega

end Counters

end Words
