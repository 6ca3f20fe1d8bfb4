import Mathlib

set_option relaxedAutoImplicit false
set_option autoImplicit false

/-!
# Bytes in an array

Reading and writing a range of a list, and 32-bit words as four bytes in big-endian order.

## Main definitions

* `Bytes.window` — the elements in a range of a list.
* `Bytes.overwrite` — the list with a range replaced.
* `Bytes.beWord`, `Bytes.beBytes` — a word and its bytes, the most significant byte first.

## Main results

* `Bytes.getElem?_overwrite` — what is replaced and what is not.
* `Bytes.overwrite_comm`, `Bytes.overwrite_window` — overwriting in either order, and with what is
  there.
* `Bytes.beWord_eq_sum` — the word is the sum of its shifted bytes.
* `Bytes.beWord_beBytes`, `Bytes.beBytes_beWord` — a word is recovered from its bytes, and they
  from it.
-/

namespace Bytes

/-! ## Ranges of a list -/

section Range

variable {α : Type*} {l bs : List α} {a n : ℕ}

/-- The elements `a`, ..., `a + n - 1` of `l`. -/
def window (l : List α) (a n : ℕ) : List α := (l.drop a).take n

/-- The list `l` with `bs` written from `a` on. -/
def overwrite (l : List α) (a : ℕ) (bs : List α) : List α :=
  l.take a ++ bs ++ l.drop (a + bs.length)

lemma getElem?_window (i : ℕ) (hi : i < n) : (window l a n)[i]? = l[a + i]? := by
  rw [window, List.getElem?_take_of_lt hi, List.getElem?_drop]

lemma length_window (h : a + n ≤ l.length) : (window l a n).length = n := by
  rw [window, List.length_take, List.length_drop]
  omega

/-- The first element of a range. -/
lemma window_succ (h : a < l.length) : window l a (n + 1) = l[a] :: window l (a + 1) n := by
  rw [window, List.drop_eq_getElem_cons h, List.take_succ_cons, window]

lemma length_overwrite (h : a + bs.length ≤ l.length) :
    (overwrite l a bs).length = l.length := by
  simp only [overwrite, List.length_append, List.length_take, List.length_drop]
  omega

/-- **Overwriting** replaces the range and nothing else. -/
theorem getElem?_overwrite (h : a + bs.length ≤ l.length) (j : ℕ) :
    (overwrite l a bs)[j]? = if a ≤ j ∧ j < a + bs.length then bs[j - a]? else l[j]? := by
  have hlen : (l.take a).length = a := List.length_take_of_le (by omega)
  rw [overwrite, List.append_assoc]
  by_cases h₁ : j < a
  · rw [List.getElem?_append_left (by omega), List.getElem?_take_of_lt h₁, if_neg (by omega)]
  · rw [List.getElem?_append_right (by omega), hlen]
    by_cases h₂ : j < a + bs.length
    · rw [List.getElem?_append_left (by omega), if_pos ⟨by omega, h₂⟩]
    · rw [List.getElem?_append_right (by omega), List.getElem?_drop, if_neg (by omega)]
      congr 1
      omega

/-- Overwriting one element at a time. -/
lemma overwrite_cons {b : α} (h : a < l.length) :
    overwrite (l.set a b) (a + 1) bs = overwrite l a (b :: bs) := by
  have hlen : (l.take a).length = a := List.length_take_of_le (by omega)
  rw [overwrite, List.take_set, List.drop_set_of_lt (by omega), overwrite, List.take_add_one,
    List.getElem?_eq_getElem h, Option.toList_some,
    List.set_append_right _ _ (Nat.le_of_eq hlen), hlen, Nat.sub_self]
  simp [Nat.add_assoc, Nat.add_comm 1]

/-- A range that is overwritten with itself stays as it is. -/
theorem overwrite_window (h : a + n ≤ l.length) : overwrite l a (window l a n) = l := by
  have hlen : (window l a n).length = n := length_window h
  apply List.ext_getElem?
  intro j
  rw [getElem?_overwrite (by rw [hlen]; exact h), hlen]
  split_ifs with hj
  · rw [getElem?_window _ (by omega), Nat.add_sub_cancel' hj.1]
  · rfl

/-- **Overwriting** two ranges that do not overlap, in either order. -/
theorem overwrite_comm {b : ℕ} {cs : List α} (ha : a + bs.length ≤ l.length)
    (hb : b + cs.length ≤ l.length) (hab : a + bs.length ≤ b ∨ b + cs.length ≤ a) :
    overwrite (overwrite l a bs) b cs = overwrite (overwrite l b cs) a bs := by
  apply List.ext_getElem?
  intro j
  rw [getElem?_overwrite (by rw [length_overwrite ha]; exact hb), getElem?_overwrite ha,
    getElem?_overwrite (by rw [length_overwrite hb]; exact ha), getElem?_overwrite hb]
  split_ifs
  · omega
  · rfl
  · rfl
  · rfl

end Range

/-! ## Words -/

/-- The word with these bytes, the most significant one first. -/
def beWord (b₀ b₁ b₂ b₃ : BitVec 8) : BitVec 32 := b₀ ++ b₁ ++ b₂ ++ b₃

/-- The bytes of a word, the most significant one first. -/
def beBytes (w : BitVec 32) : List (BitVec 8) :=
  [w.extractLsb' 24 8, w.extractLsb' 16 8, w.extractLsb' 8 8, w.extractLsb' 0 8]

/-- **A word is the sum of its bytes**, each shifted to its place. -/
theorem beWord_eq_sum (b₀ b₁ b₂ b₃ : BitVec 8) :
    beWord b₀ b₁ b₂ b₃ = (b₀.setWidth 32 <<< 24) + (b₁.setWidth 32 <<< 16) +
      (b₂.setWidth 32 <<< 8) + b₃.setWidth 32 := by
  apply BitVec.eq_of_toNat_eq
  simp only [beWord, BitVec.toNat_append, BitVec.toNat_add, BitVec.toNat_shiftLeft,
    BitVec.toNat_setWidth]
  rw [← Nat.shiftLeft_add_eq_or_of_lt b₃.isLt, ← Nat.shiftLeft_add_eq_or_of_lt b₂.isLt,
    ← Nat.shiftLeft_add_eq_or_of_lt b₁.isLt]
  simp only [Nat.shiftLeft_eq]
  omega

/-- The value of a word, from its bytes. -/
lemma toNat_beWord (b₀ b₁ b₂ b₃ : BitVec 8) : (beWord b₀ b₁ b₂ b₃).toNat =
    b₀.toNat * 2 ^ 24 + b₁.toNat * 2 ^ 16 + b₂.toNat * 2 ^ 8 + b₃.toNat := by
  have h₀ := b₀.isLt
  have h₁ := b₁.isLt
  have h₂ := b₂.isLt
  have h₃ := b₃.isLt
  rw [beWord_eq_sum]
  simp only [BitVec.toNat_add, BitVec.toNat_shiftLeft, BitVec.toNat_setWidth, Nat.shiftLeft_eq]
  omega

/-- The bytes are recovered from their word. -/
theorem beBytes_beWord (b₀ b₁ b₂ b₃ : BitVec 8) :
    beBytes (beWord b₀ b₁ b₂ b₃) = [b₀, b₁, b₂, b₃] := by
  have h₀ := b₀.isLt
  have h₁ := b₁.isLt
  have h₂ := b₂.isLt
  have h₃ := b₃.isLt
  simp only [beBytes, List.cons.injEq, and_true, ← BitVec.toNat_inj, BitVec.extractLsb'_toNat,
    toNat_beWord, Nat.shiftRight_eq_div_pow]
  omega

/-- A word is recovered from its bytes. -/
theorem beWord_beBytes (w : BitVec 32) :
    beWord (w.extractLsb' 24 8) (w.extractLsb' 16 8) (w.extractLsb' 8 8) (w.extractLsb' 0 8) =
      w := by
  apply BitVec.eq_of_toNat_eq
  have := w.isLt
  rw [beWord_eq_sum]
  simp only [BitVec.toNat_add, BitVec.toNat_shiftLeft, BitVec.toNat_setWidth,
    BitVec.extractLsb'_toNat, Nat.shiftLeft_eq, Nat.shiftRight_eq_div_pow]
  omega

/-- The bytes of a word are what remains of it when it is shifted. -/
lemma beBytes_eq_shift (w : BitVec 32) : beBytes w =
    [(w >>> 24).setWidth 8, (w >>> 16).setWidth 8, (w >>> 8).setWidth 8, w.setWidth 8] := by
  simp only [beBytes, List.cons.injEq, and_true]
  refine ⟨?_, ?_, ?_, ?_⟩ <;> ext i hi <;> simp

end Bytes
