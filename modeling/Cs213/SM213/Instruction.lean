import Cs213.SM213.Fetch

set_option relaxedAutoImplicit false
set_option autoImplicit false

/-!
# The instruction register

`fetch` puts the instruction together from two words that overlap: the last two bytes of the first
one are the first two of the second one, and they are added to themselves. So the register shows
the instruction only if they are zero.

## Main definitions

* `SM213.Machine.insNumber` — the six bytes at the program counter, as a number.
* `SM213.Machine.Agrees` — the instruction register agrees with the other registers.
* `SM213.InstructionLaw` — the instruction register shows the instruction.

## Main results

* `SM213.toNat_instruction` — what the instruction register holds.
* `SM213.agrees_of_shown` — if it holds the six bytes, it agrees with the other registers.
* `SM213.instructionLaw_iff` — the law holds exactly if the two bytes are zero.
-/

namespace SM213

open Bytes MainMemory

/-- The six bytes at the program counter as a number, the most significant one first. -/
def Machine.insNumber (s : Machine) : ℕ :=
  (s.insByte 0).toNat * 2 ^ 40 + (s.insByte 1).toNat * 2 ^ 32 + (s.insByte 2).toNat * 2 ^ 24 +
    (s.insByte 3).toNat * 2 ^ 16 + (s.insByte 4).toNat * 2 ^ 8 + (s.insByte 5).toNat

/-- The digits and bytes of the instruction register are what the other registers hold. `insOpExt`
is loaded for a long instruction only. -/
structure Machine.Agrees (t : Machine) : Prop where
  insOpCode : t.insOpCode = t.instruction.extractLsb' 44 4
  insOp0 : t.insOp0 = t.instruction.extractLsb' 40 4
  insOp1 : t.insOp1 = t.instruction.extractLsb' 36 4
  insOp2 : t.insOp2 = t.instruction.extractLsb' 32 4
  insOpImm : t.insOpImm = t.instruction.extractLsb' 32 8
  insOpExt : t.insOpCode = 0x0 ∨ t.insOpCode = 0xb →
    t.insOpExt = t.instruction.extractLsb' 0 32

/-- **The instruction register shows the instruction**: `fetch` puts the six bytes at the program
counter into it, so that it agrees with the other registers. -/
def InstructionLaw (s : Machine) : Prop :=
  ∃ t, fetch s = .ok () t ∧ t.instruction.toNat = s.insNumber ∧ t.Agrees

section Law

variable {s : Machine} (h : s.mem.InRange s.pc 6)

/-- The sum of two signed words, the first one shifted by two bytes, as a number of six bytes. -/
lemma toNat_shift_add (high low : JInt) :
    (((high.signExtend 64 <<< 16) + low.signExtend 64).setWidth 48).toNat =
      (high.toNat * 2 ^ 16 + low.toNat + if low.msb then 2 ^ 48 - 2 ^ 32 else 0) % 2 ^ 48 := by
  have hhigh := high.isLt
  have hlow := low.isLt
  simp only [BitVec.toNat_setWidth, BitVec.toNat_add, BitVec.toNat_shiftLeft,
    BitVec.toNat_signExtend, Nat.shiftLeft_eq]
  split_ifs <;> omega

include h

/-- **What the instruction register holds**: the bytes 2 and 3 are counted twice, and the second
time with their sign. -/
theorem toNat_instruction : s.fetched.instruction.toNat =
    (s.insNumber + ((s.insByte 2).toNat * 2 ^ 24 + (s.insByte 3).toNat * 2 ^ 16) +
      if 2 ^ 7 ≤ (s.insByte 2).toNat then 2 ^ 48 - 2 ^ 32 else 0) % 2 ^ 48 := by
  have hsign : (beWord (s.insByte 2) (s.insByte 3) (s.insByte 4) (s.insByte 5)).msb =
      decide (2 ^ 7 ≤ (s.insByte 2).toNat) := by
    have h₃ := (s.insByte 3).isLt
    have h₄ := (s.insByte 4).isLt
    have h₅ := (s.insByte 5).isLt
    rw [BitVec.msb_eq_decide, toNat_beWord]
    apply decide_eq_decide.mpr
    omega
  have hword : s.mem.word s.pc =
      beWord (s.insByte 0) (s.insByte 1) (s.insByte 2) (s.insByte 3) := rfl
  rw [Machine.fetched, toNat_shift_add, word_extension h, hsign, hword, toNat_beWord, toNat_beWord,
    Machine.insNumber]
  simp only [decide_eq_true_eq]
  split_ifs <;> omega

/-- The register holds the six bytes exactly if the bytes 2 and 3 are zero. -/
lemma shown_iff : s.fetched.instruction.toNat = s.insNumber ↔
    s.insByte 2 = 0 ∧ s.insByte 3 = 0 := by
  have h₀ := (s.insByte 0).isLt
  have h₁ := (s.insByte 1).isLt
  have h₂ := (s.insByte 2).isLt
  have h₃ := (s.insByte 3).isLt
  have h₄ := (s.insByte 4).isLt
  have h₅ := (s.insByte 5).isLt
  have hzero : (0 : Byte).toNat = 0 := rfl
  rw [toNat_instruction h, ← BitVec.toNat_inj, ← BitVec.toNat_inj, hzero, Machine.insNumber]
  split_ifs <;> omega

/-- **A register that holds the six bytes** agrees with the other registers. -/
theorem agrees_of_shown (hshown : s.fetched.instruction.toNat = s.insNumber) :
    s.fetched.Agrees := by
  have hloaded := loaded_fetched h
  have h₀ := (s.insByte 0).isLt
  have h₁ := (s.insByte 1).isLt
  have h₂ := (s.insByte 2).isLt
  have h₃ := (s.insByte 3).isLt
  have h₄ := (s.insByte 4).isLt
  have h₅ := (s.insByte 5).isLt
  rw [Machine.insNumber] at hshown
  constructor
  case insOpExt =>
    intro hlong
    rw [hloaded.insOpCode] at hlong
    rw [hloaded.insOpExt hlong, ← BitVec.toNat_inj, toNat_beWord, BitVec.extractLsb'_toNat, hshown,
      Nat.shiftRight_eq_div_pow]
    omega
  all_goals
    simp only [hloaded.insOpCode, hloaded.insOp0, hloaded.insOp1, hloaded.insOp2, hloaded.insOpImm,
      hi, lo, ← BitVec.toNat_inj, BitVec.extractLsb'_toNat, hshown, Nat.shiftRight_eq_div_pow]
    omega

end Law

/-- **The instruction register** shows the instruction if and only if its bytes 2 and 3 are zero. -/
theorem instructionLaw_iff (s : Machine) (h : s.mem.InRange s.pc 6) :
    InstructionLaw s ↔ s.insByte 2 = 0 ∧ s.insByte 3 = 0 := by
  rw [← shown_iff h]
  constructor
  · rintro ⟨t, ht, hshown, -⟩
    rw [fetch_eq s h] at ht
    cases ht
    exact hshown
  · intro hshown
    exact ⟨s.fetched, fetch_eq s h, hshown, agrees_of_shown h hshown⟩

/-- A machine whose memory is `ld $v, r0`. -/
def loadOnly (v : JInt) : Machine :=
  boot 0 (fun _ => 0) ⟨[0x00, 0x00] ++ beBytes v, by simp [beBytes]⟩

/-- The register shows `ld $1, r0`. -/
theorem instructionLaw_loadOnly : InstructionLaw (loadOnly 1) :=
  (instructionLaw_iff (loadOnly 1) (by decide)).mpr (by decide)

/-- **Two bytes that are counted twice**: of `ld $0x10000, r0` the register shows
`ld $0x20000, r0`. -/
theorem loadOnly_not_instructionLaw :
    ¬ ∀ s : Machine, s.mem.InRange s.pc 6 → InstructionLaw s := by
  intro h
  have hin : (loadOnly 0x10000).mem.InRange (loadOnly 0x10000).pc 6 := by decide
  obtain ⟨t, ht, hshown, -⟩ := h (loadOnly 0x10000) hin
  rw [fetch_eq _ hin] at ht
  cases ht
  have hbytes := (shown_iff hin).mp hshown
  revert hbytes
  decide

end SM213
