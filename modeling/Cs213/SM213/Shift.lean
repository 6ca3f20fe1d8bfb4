import Cs213.SM213.Faults

set_option relaxedAutoImplicit false
set_option autoImplicit false

/-!
# The shift instruction

The shift `7dss` should shift the content of register `d`, to the left by `ss` bits or, if `ss` is
negative, to the right. `execute` shifts the number `d` in place of the content, and leaves it to
Java to take a negative distance modulo 32.

## Main definitions

* `SM213.ShiftLaw` — what a shift should do.
* `SM213.SameShift`, `SM213.SameBack` — the contents for which it makes no difference whether the
  content or the number is shifted.

## Main results

* `SM213.shiftLaw_iff` — a shift does what it should exactly for these contents.
* `SM213.shlEight_not_shiftLaw` — the shift of the test program.
-/

namespace SM213

/-- The instruction registers hold the shift `7dss`. -/
def Machine.Shifts (s : Machine) (d : Fin 8) (ss : BitVec 8) : Prop :=
  s.insOpCode.toNat = 0x7 ∧ reg? s.insOp0 = some d ∧ s.insOpImm = ss

/-- The word `c`, shifted by `k` bits to the left or, if `k` is negative, by `-k` bits to the
right. -/
def shiftBy (c : JInt) (k : ℤ) : JInt :=
  if 0 ≤ k then c <<< k.toNat else c.sshiftRight (-k).toNat

/-- **A shift** shifts the content of its register and changes nothing else. A shift to the left
and back makes of it the sign extension of the bits that are not lost. -/
structure ShiftLaw (s : Machine) (d : Fin 8) (ss : BitVec 8) : Prop where
  shift : ∃ t, execute s = .ok () t ∧
    t.reg = Function.update s.reg d (shiftBy (s.reg d) ss.toInt) ∧ t.mem = s.mem ∧ t.pc = s.pc
  back : 0 ≤ ss.toInt → ∀ t u, execute s = .ok () t → u.reg = t.reg → u.Shifts d (-ss) →
    ∃ w, execute u = .ok () w ∧ w.reg d = ((s.reg d).setWidth (32 - ss.toNat)).signExtend 32

/-- The number `d`, shifted as the code shifts it, is the content `c`, shifted as it should be. -/
def SameShift (c : JInt) (d : ℕ) (k : ℤ) : Prop :=
  if 0 ≤ k then c.toNat % 2 ^ (32 - k).toNat = d % 2 ^ (32 - k).toNat
  else c.toInt / 2 ^ (-k).toNat = d / 2 ^ (32 + k).toNat

/-- The number `d`, shifted back as the code shifts it, is the sign extension of the last bits of
the content `c`. -/
def SameBack (c : JInt) (d : ℕ) (k : ℤ) : Prop :=
  0 < k → Int.bmod c.toNat (2 ^ (32 - k).toNat) = d / 2 ^ (32 - k).toNat

/-! ## Shifted words -/

section Words

variable {c e : JInt} {j k : ℕ}

/-- What is left of a word that is shifted to the left. -/
lemma shiftLeft_eq_iff (hk : k ≤ 32) :
    c <<< k = e <<< k ↔ c.toNat % 2 ^ (32 - k) = e.toNat % 2 ^ (32 - k) := by
  have hpow : 2 ^ 32 = 2 ^ (32 - k) * 2 ^ k := by rw [← Nat.pow_add, Nat.sub_add_cancel hk]
  rw [← BitVec.toNat_inj, BitVec.toNat_shiftLeft, BitVec.toNat_shiftLeft, Nat.shiftLeft_eq,
    Nat.shiftLeft_eq, hpow, Nat.mul_mod_mul_right, Nat.mul_mod_mul_right]
  exact Nat.mul_left_inj (Nat.ne_of_gt (Nat.two_pow_pos k))

/-- What is left of a word that is shifted to the right. -/
lemma sshiftRight_eq_iff :
    c.sshiftRight j = e.sshiftRight k ↔ c.toInt / 2 ^ j = e.toInt / 2 ^ k := by
  rw [← BitVec.toInt_inj, BitVec.toInt_sshiftRight, BitVec.toInt_sshiftRight,
    Int.shiftRight_eq_div_pow, Int.shiftRight_eq_div_pow]
  rfl

/-- The sign extension of the last bits of a word. -/
lemma sshiftRight_eq_signExtend_iff (hk : k ≤ 32) :
    c.sshiftRight k = (e.setWidth k).signExtend 32 ↔
      Int.bmod e.toNat (2 ^ k) = c.toInt / 2 ^ k := by
  rw [← BitVec.toInt_inj, BitVec.toInt_sshiftRight, Int.shiftRight_eq_div_pow,
    BitVec.toInt_signExtend_of_le hk, BitVec.toInt_setWidth]
  exact eq_comm

/-- The distance of a shift, as Java takes it. -/
lemma toNat_distance (ss : BitVec 8) (hlo : -31 ≤ ss.toInt) (hhi : ss.toInt ≤ 31) :
    (ss.signExtend 32 &&& 31).toNat =
      (if 0 ≤ ss.toInt then ss.toInt else 32 + ss.toInt).toNat := by
  revert ss
  decide +kernel

/-- The distance back. -/
lemma toInt_neg_distance (ss : BitVec 8) (hlo : -31 ≤ ss.toInt) (hhi : ss.toInt ≤ 31) :
    (-ss).toInt = -ss.toInt := by
  revert ss
  decide +kernel

end Words

/-! ## What the code does -/

section Code

variable {s : Machine} {d : Fin 8} {ss : BitVec 8}

/-- The number of a register. -/
lemma toInt_number (d : Fin 8) : (BitVec.ofNat 32 d).toNat = d ∧ (BitVec.ofNat 32 d).toInt = d := by
  revert d
  decide

lemma Machine.Shifts.shifted_eq (h : s.Shifts d ss) (hlo : -31 ≤ ss.toInt) (hhi : ss.toInt ≤ 31) :
    s.shifted = if 0 ≤ ss.toInt then BitVec.ofNat 32 d <<< ss.toInt.toNat
      else (BitVec.ofNat 32 d).sshiftRight (32 + ss.toInt).toNat := by
  obtain ⟨-, hd, rfl⟩ := h
  have hnum : s.insOp0.setWidth 32 = BitVec.ofNat 32 d := by
    apply BitVec.eq_of_toNat_eq
    rw [toNat_of_reg? hd, (toInt_number d).1]
  have hdist := toNat_distance s.insOpImm hlo hhi
  have hsign : (s.insOpImm.signExtend 32).toInt = s.insOpImm.toInt :=
    BitVec.toInt_signExtend_of_le (by decide)
  unfold Machine.shifted
  simp only [hnum, hsign, hdist]
  by_cases hneg : s.insOpImm.toInt < 0
  · rw [if_pos hneg, if_neg (by omega), if_neg (by omega)]
  · rw [if_neg hneg, if_pos (by omega), if_pos (by omega)]

/-- **A shift** puts the shifted number of the register into it. -/
lemma Machine.Shifts.execute_eq (h : s.Shifts d ss) :
    execute s = .ok () { s with reg := Function.update s.reg d s.shifted } := by
  obtain ⟨hop, hd, -⟩ := h
  simp only [execute, get_bind, hop, insOp0Get_bind, insOpImmGet_bind, Machine.shifted]
  split_ifs <;> exact regSet_run hd _

/-- The shift is right. -/
lemma Machine.Shifts.shift_iff (h : s.Shifts d ss) (hlo : -31 ≤ ss.toInt) (hhi : ss.toInt ≤ 31) :
    s.shifted = shiftBy (s.reg d) ss.toInt ↔ SameShift (s.reg d) d ss.toInt := by
  rw [h.shifted_eq hlo hhi, shiftBy, SameShift]
  split_ifs with hpos
  · have hsub : 32 - ss.toInt.toNat = (32 - ss.toInt).toNat := by omega
    rw [shiftLeft_eq_iff (by omega), (toInt_number d).1, hsub]
    exact eq_comm
  · rw [sshiftRight_eq_iff, (toInt_number d).2]
    exact eq_comm

/-- The way back is right. -/
lemma Machine.Shifts.back_iff {u : Machine} {c : JInt} (h : u.Shifts d (-ss)) (hpos : 0 < ss.toInt)
    (hhi : ss.toInt ≤ 31) : u.shifted = (c.setWidth (32 - ss.toNat)).signExtend 32 ↔
      Int.bmod c.toNat (2 ^ (32 - ss.toInt).toNat) = d / 2 ^ (32 - ss.toInt).toNat := by
  have hneg := toInt_neg_distance ss (by omega) hhi
  have hnat : ss.toInt = ss.toNat := by
    have := ss.toInt_eq_toNat_cond
    split_ifs at this <;> omega
  have hsub : (32 + -ss.toInt).toNat = 32 - ss.toNat := by omega
  have hsub' : (32 - ss.toInt).toNat = 32 - ss.toNat := by omega
  rw [h.shifted_eq (by omega) (by omega), if_neg (by omega), hneg, hsub, hsub',
    sshiftRight_eq_signExtend_iff (by omega), (toInt_number d).2]

/-- The way back from no distance is right if the shift is. -/
lemma Machine.Shifts.back_zero {u : Machine} {c : JInt} (h : u.Shifts d (-0))
    (hc : c.toNat % 2 ^ 32 = d % 2 ^ 32) :
    u.shifted = (c.setWidth (32 - (0 : BitVec 8).toNat)).signExtend 32 := by
  have hcd : BitVec.ofNat 32 d = c := by
    apply BitVec.eq_of_toNat_eq
    rw [(toInt_number d).1]
    have := c.isLt
    omega
  rw [h.shifted_eq (by decide) (by decide), if_pos (by decide)]
  simpa using hcd

/-- A shift, and the shift back. -/
lemma shiftLaw_iff_shifted (h : s.Shifts d ss) : ShiftLaw s d ss ↔
    s.shifted = shiftBy (s.reg d) ss.toInt ∧
      (0 ≤ ss.toInt → ∀ u : Machine, u.reg = Function.update s.reg d s.shifted →
        u.Shifts d (-ss) → u.shifted = ((s.reg d).setWidth (32 - ss.toNat)).signExtend 32) := by
  constructor
  · rintro ⟨⟨t, ht, hreg, -⟩, hback⟩
    rw [h.execute_eq] at ht
    cases ht
    refine ⟨?_, fun hpos u hu hsu => ?_⟩
    · exact Function.update_injective s.reg d hreg
    · obtain ⟨w, hw, hwd⟩ := hback hpos _ u h.execute_eq hu hsu
      rw [hsu.execute_eq] at hw
      cases hw
      simpa using hwd
  · rintro ⟨hshift, hback⟩
    refine ⟨⟨_, h.execute_eq, by rw [← hshift], rfl, rfl⟩, fun hpos t u ht hu hsu => ?_⟩
    rw [h.execute_eq] at ht
    cases ht
    exact ⟨_, hsu.execute_eq, (Function.update_self ..).trans (hback hpos u hu hsu)⟩

end Code

/-- **The shift instruction.** For every content of the registers, register and distance between
-31 and 31, the shift does what it should exactly if it makes no difference that the number of the
register is shifted in place of its content. -/
theorem shiftLaw_iff (s : Machine) (d : Fin 8) (ss : BitVec 8) (h : s.Shifts d ss)
    (hlo : -31 ≤ ss.toInt) (hhi : ss.toInt ≤ 31) :
    ShiftLaw s d ss ↔ SameShift (s.reg d) d ss.toInt ∧ SameBack (s.reg d) d ss.toInt := by
  rw [shiftLaw_iff_shifted h, h.shift_iff hlo hhi]
  refine and_congr_right fun hshift => ?_
  constructor
  · intro hback hpos
    let u : Machine := { s with reg := Function.update s.reg d s.shifted, insOpImm := -ss }
    have hu : u.Shifts d (-ss) := ⟨h.1, h.2.1, rfl⟩
    exact (hu.back_iff hpos hhi).mp (hback (Int.le_of_lt hpos) u rfl hu)
  · intro hback hpos u _ hu
    rcases Int.le_iff_eq_or_lt.mp hpos with hzero | hpos
    · obtain rfl : ss = 0 := BitVec.eq_of_toInt_eq hzero.symm
      exact hu.back_zero hshift
    · exact (hu.back_iff hpos hhi).mpr (hback hpos)

/-- Register 1 holds 15: shifted by 31 bits to the right, its content and its number are both 0. -/
theorem shiftLaw_right :
    ShiftLaw (decoded 0x7 1 0xe 1 (fun _ => 15) ⟨[], MainMemory.length_nil_lt⟩) 1 (-31) :=
  (shiftLaw_iff _ 1 (-31) ⟨rfl, rfl, rfl⟩ (by decide) (by decide)).mpr
    ⟨rfl, fun h => absurd h (by decide)⟩

/-- **The shift of the test program**: `r1`, which holds 15, becomes 256 when it is shifted by 8
bits to the left. -/
theorem shlEight_not_shiftLaw : ¬ ∀ s d ss, s.Shifts d ss → -31 ≤ ss.toInt → ss.toInt ≤ 31 →
    ShiftLaw s d ss := by
  intro h
  obtain ⟨⟨t, ht, hreg, -⟩, -⟩ := h
    (decoded 0x7 1 0 8 (fun _ => 15) ⟨[], MainMemory.length_nil_lt⟩) 1 8 ⟨rfl, rfl, rfl⟩
    (by decide) (by decide)
  cases ht
  have hd := congrFun hreg 1
  revert hd
  decide +kernel

end SM213
