import Cs213.Library.Selection

set_option relaxedAutoImplicit false
set_option autoImplicit false

/-!
# Comparing by the sign of a difference

Machine code that compares two signed numbers by the sign of their difference is right as long as
the difference does not overflow, and wrong where it does.

## Main results

* `Compare.greatest_select`, `Compare.least_select` — what comparing the numbers selects.
* `Compare.sub_pos_iff` — the sign of the difference is that of the comparison exactly if the
  difference does not overflow.
* `Compare.agree_greater_iff`, `Compare.agree_less_iff` — selecting the greatest or the least
  element of a list by the signs of differences.
-/

namespace Compare

variable {w : ℕ} {x y : BitVec w}

/-- A difference, as it is computed from a complement. -/
lemma add_not_add_one : x + (~~~ y + 1#w) = x - y := by
  rw [← BitVec.neg_eq_not_add, ← BitVec.sub_eq_add_neg]

/-- Without an overflow the sign of the difference is that of the comparison. -/
lemma sub_pos_of_not_overflow (h : ¬ x.ssubOverflow y) :
    0 < (x - y).toInt ↔ y.toInt < x.toInt := by
  rw [BitVec.toInt_sub_of_not_ssubOverflow h]
  omega

/-- A difference that overflows has the sign of the other comparison. -/
lemma sub_pos_of_overflow (h : x.ssubOverflow y) :
    0 < (x - y).toInt ↔ ¬ y.toInt < x.toInt := by
  have hcases := h
  rw [BitVec.ssubOverflow_eq] at hcases
  simp only [Bool.or_eq_true, Bool.and_eq_true, Bool.not_eq_true', BitVec.msb_eq_toInt,
    decide_eq_true_eq, decide_eq_false_iff_not] at hcases
  rcases hcases with ⟨⟨hx, hy⟩, hd⟩ | ⟨⟨hx, hy⟩, hd⟩
  · omega
  · have hne : (x - y).toInt ≠ 0 := by
      intro h0
      have hzero : x - y = 0#w := BitVec.eq_of_toInt_eq (by rw [h0, BitVec.toInt_zero])
      rw [BitVec.sub_eq_iff_eq_add, BitVec.zero_add] at hzero
      rw [hzero] at hx
      omega
    omega

/-- **The sign of a difference** is that of the comparison exactly if the difference does not
overflow. -/
theorem sub_pos_iff : (0 < (x - y).toInt ↔ y.toInt < x.toInt) ↔ ¬ x.ssubOverflow y := by
  by_cases h : x.ssubOverflow y
  · have := sub_pos_of_overflow h
    tauto
  · have := sub_pos_of_not_overflow h
    tauto

/-! ## Selecting by comparisons -/

open Selection

/-- The greater one of two numbers. -/
abbrev Greater (x m : BitVec w) : Prop := m.toInt < x.toInt

/-- The less one of two numbers. -/
abbrev Less (x m : BitVec w) : Prop := x.toInt < m.toInt

/-- The greatest element of a list. -/
def Greatest (v : BitVec w) (l : List (BitVec w)) : Prop := v ∈ l ∧ ∀ x ∈ l, x.toInt ≤ v.toInt

/-- The least element of a list. -/
def Least (v : BitVec w) (l : List (BitVec w)) : Prop := v ∈ l ∧ ∀ x ∈ l, v.toInt ≤ x.toInt

variable {m v v' : BitVec w} {l : List (BitVec w)}

lemma greatest_select : Greatest (select Greater m l) (m :: l) :=
  best_select (f := BitVec.toInt) (fun _ _ => Iff.rfl) m l

lemma least_select : Least (select Less m l) (m :: l) :=
  best_select (f := fun x : BitVec w => OrderDual.toDual x.toInt) (fun _ _ => Iff.rfl) m l

lemma Greatest.unique (h : Greatest v l) (h' : Greatest v' l) : v = v' :=
  Best.unique (f := BitVec.toInt) (fun _ _ => BitVec.eq_of_toInt_eq) h h'

lemma Least.unique (h : Least v l) (h' : Least v' l) : v = v' :=
  Best.unique (f := fun x : BitVec w => OrderDual.toDual x.toInt)
    (fun _ _ heq => BitVec.eq_of_toInt_eq (OrderDual.toDual_inj.mp heq)) h h'

/-- A difference that is zero does not overflow. -/
lemma sub_pos_self : 0 < (x - x).toInt ↔ x.toInt < x.toInt := by
  rw [BitVec.sub_self, BitVec.toInt_zero]
  omega

/-- **The greatest element**: the picks by the sign of `x - m` are right exactly if no difference
overflows. -/
theorem agree_greater_iff :
    Agree Greater (fun x m : BitVec w => 0 < (x - m).toInt) m l ↔
      ∀ k (hk : k < l.length), ¬ l[k].ssubOverflow (select Greater m (l.take k)) := by
  refine forall_congr' fun k => forall_congr' fun hk => ?_
  rw [pick_eq_iff, ← sub_pos_iff]
  generalize select Greater m (l.take k) = v
  constructor
  · rintro (heq | h)
    · rw [heq]
      exact sub_pos_self
    · exact h
  · exact .inr

/-- **The least element**: the picks by the sign of `x - m`, by which an equal number is taken too,
are right exactly if no difference overflows. -/
theorem agree_less_iff :
    Agree Less (fun x m : BitVec w => ¬ 0 < (x - m).toInt) m l ↔
      ∀ k (hk : k < l.length), ¬ l[k].ssubOverflow (select Less m (l.take k)) := by
  refine forall_congr' fun k => forall_congr' fun hk => ?_
  rw [pick_eq_iff, ← sub_pos_iff]
  generalize select Less m (l.take k) = v
  by_cases heq : l[k] = v
  · rw [heq]
    exact ⟨fun _ => sub_pos_self, fun _ => .inl rfl⟩
  · have hne : l[k].toInt ≠ v.toInt := fun h => heq (BitVec.eq_of_toInt_eq h)
    rw [or_iff_right heq]
    have hless : Less l[k] v ↔ ¬ v.toInt < l[k].toInt := by
      show l[k].toInt < v.toInt ↔ _
      omega
    rw [hless]
    exact not_iff_not

end Compare
