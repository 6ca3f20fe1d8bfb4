import Mathlib.Data.BitVec

set_option relaxedAutoImplicit false
set_option autoImplicit false

/-!
# Alignment

Rounding a machine word down and up to a multiple of a power of two, with a mask.

## Main definitions

* `Alignment.down`, `Alignment.up` — rounding to a multiple of `2 ^ k`.

## Main results

* `Alignment.toNat_down` — rounding down, in terms of numbers.
* `Alignment.down_eq` — the words between two multiples are rounded down to the first one.
* `Alignment.le_up`, `Alignment.up_lt` — rounding up adds less than `2 ^ k`.
-/

namespace Alignment

variable {w : ℕ}

/-- Rounding down to a multiple of `2 ^ k`. -/
def down (k : ℕ) (x : BitVec w) : BitVec w := x &&& ~~~ BitVec.ofNat w (2 ^ k - 1)

/-- Rounding up to a multiple of `2 ^ k`. -/
def up (k : ℕ) (x : BitVec w) : BitVec w := down k (x + BitVec.ofNat w (2 ^ k - 1))

variable {k : ℕ} {x a : BitVec w}

/-- The mask clears the bits below bit `k`. -/
lemma down_eq_shift : down k x = (x >>> k) <<< k := by
  apply BitVec.eq_of_getLsbD_eq
  intro i hi
  rw [down, BitVec.getLsbD_and, BitVec.getLsbD_not, BitVec.getLsbD_ofNat,
    Nat.testBit_two_pow_sub_one, BitVec.getLsbD_shiftLeft, BitVec.getLsbD_ushiftRight]
  by_cases hk : i < k
  · simp [hk]
  · have hadd : k + (i - k) = i := by omega
    simp [hi, hk, hadd]

/-- **Rounding down**, in terms of numbers. -/
theorem toNat_down : (down k x).toNat = x.toNat / 2 ^ k * 2 ^ k := by
  have hle : x.toNat / 2 ^ k * 2 ^ k ≤ x.toNat := Nat.div_mul_le_self _ _
  have hlt := x.isLt
  rw [down_eq_shift, BitVec.toNat_shiftLeft, BitVec.toNat_ushiftRight, Nat.shiftRight_eq_div_pow,
    Nat.shiftLeft_eq]
  exact Nat.mod_eq_of_lt (by omega)

lemma down_le : (down k x).toNat ≤ x.toNat := by
  rw [toNat_down]
  exact Nat.div_mul_le_self _ _

lemma lt_down_add : x.toNat < (down k x).toNat + 2 ^ k := by
  have hsplit := Nat.div_add_mod' x.toNat (2 ^ k)
  have hmod := Nat.mod_lt x.toNat (Nat.two_pow_pos k)
  rw [toNat_down]
  omega

lemma dvd_down : 2 ^ k ∣ (down k x).toNat := by
  rw [toNat_down]
  exact Nat.dvd_mul_left _ _

/-- **The words between two multiples** are rounded down to the first one. -/
theorem down_eq (ha : 2 ^ k ∣ a.toNat) (hle : a.toNat ≤ x.toNat) (hlt : x.toNat < a.toNat + 2 ^ k) :
    down k x = a := by
  obtain ⟨q, hq⟩ := ha
  have hdiv : x.toNat / 2 ^ k = q := by
    refine Nat.div_eq_of_lt_le ?_ ?_
    · rw [Nat.mul_comm, ← hq]
      exact hle
    · rw [Nat.succ_mul, Nat.mul_comm q, ← hq]
      exact hlt
  apply BitVec.eq_of_toNat_eq
  rw [toNat_down, hdiv, hq, Nat.mul_comm]

section Up

variable (hx : x.toNat + 2 ^ k ≤ 2 ^ w)

include hx in
lemma toNat_add_mask : (x + BitVec.ofNat w (2 ^ k - 1)).toNat = x.toNat + (2 ^ k - 1) := by
  have hpos : 0 < 2 ^ k := Nat.two_pow_pos k
  have hmask : (2 ^ k - 1) % 2 ^ w = 2 ^ k - 1 := Nat.mod_eq_of_lt (by omega)
  rw [BitVec.toNat_add, BitVec.toNat_ofNat, hmask]
  exact Nat.mod_eq_of_lt (by omega)

include hx in
/-- **Rounding up** does not get below the word. -/
theorem le_up : x.toNat ≤ (up k x).toNat := by
  have hlt := lt_down_add (k := k) (x := x + BitVec.ofNat w (2 ^ k - 1))
  rw [toNat_add_mask hx] at hlt
  rw [up]
  omega

include hx in
/-- **Rounding up** adds less than `2 ^ k`. -/
theorem up_lt : (up k x).toNat < x.toNat + 2 ^ k := by
  have hle := down_le (k := k) (x := x + BitVec.ofNat w (2 ^ k - 1))
  have hpos : 0 < 2 ^ k := Nat.two_pow_pos k
  rw [toNat_add_mask hx] at hle
  rw [up]
  omega

end Up

lemma dvd_up : 2 ^ k ∣ (up k x).toNat := dvd_down

end Alignment
