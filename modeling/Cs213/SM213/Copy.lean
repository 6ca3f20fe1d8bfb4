import Cs213.SM213.Assembler

set_option relaxedAutoImplicit false
set_option autoImplicit false

/-!
# Copying an array onto the stack

`cpy.s`: `main` calls `copy`, which copies an array that ends with a zero to its two local words
`dst`. The return address of `copy` is stored above these, and that of `main` above it. The loop of
`copy` ends with the array, not with `dst`.

## Main definitions

* `SM213.Cpy.Program`, `SM213.Cpy.Source` — the program and the array are in memory.
* `SM213.Cpy.ReturnLaw` — `copy` and `main` return, and `copy` keeps to its own words.
* `SM213.Cpy.Harmless` — what is copied beyond `dst` is what is there already.

## Main results

* `SM213.Cpy.returnLaw_iff` — the law holds exactly if what is copied beyond `dst` is harmless.
* `SM213.Cpy.attack_not_returnLaw` — the array of `cpy_attack.s`.
-/

namespace SM213

open Bytes MainMemory Until

namespace Cpy

/-! ## The code -/

/-- `start`, at `0x100`. -/
def start : List Instr := [
  .loadImm 5 0x1028,      -- initialize stack pointer
  .gpc 3 6,               -- ra = pc + 6
  .j 0x200,               -- begin program
  .halt]

/-- `main`, at `0x200`. -/
def main : List Instr := [
  .deca 5,                -- sp -= 4, push
  .storeBase 6 0 5,       -- *sp = ra
  .gpc 3 6,               -- r6 = pc + 6
  .j 0x300,               -- call copy()
  .loadBase 0 5 6,        -- ra = *sp
  .inca 5,                -- pop
  .jInd 6 0]              -- return

/-- `copy`, at `0x300`; `while` is at `0x314` and `end` at `0x322`. -/
def copy : List Instr := [
  .deca 5,                -- sp -= 4, push
  .storeBase 6 0 5,       -- *sp = ra
  .deca 5,                -- dst[1]
  .deca 5,                -- dst[0]
  .loadImm 1 0,           -- r1 = i = 0
  .loadImm 2 0x900,       -- r2 = &src
  .loadIndexed 2 1 3,     -- r3 = src[i]
  .storeIndexed 3 5 1,    -- dst[i] = src[i]
  .beq 3 4,               -- while (src[i] != 0)
  .inc 1,                 -- i++
  .j 0x314,               -- next iteration
  .inca 5,                -- pop dst[1]
  .inca 5,                -- pop dst[0]
  .loadBase 0 5 6,        -- ra = *sp
  .inca 5,                -- pop
  .jInd 6 0]              -- return

/-- The `halt` of `start`. -/
abbrev haltAt : JInt := 0x10e

/-- The instruction after `j copy`. -/
abbrev afterCall : JInt := 0x20c

/-- The last instruction of `main`. -/
abbrev mainReturn : JInt := 0x210

/-- The first instruction of `copy`. -/
abbrev copyEntry : JInt := 0x300

/-- The last instruction of `copy`. -/
abbrev copyReturn : JInt := 0x32a

/-- The address of `src[i]`. -/
def src (i : ℕ) : JInt := 0x900 + 4 * BitVec.ofNat 32 i

/-- The address of `dst[i]`. -/
def dst (i : ℕ) : JInt := 0x1018 + 4 * BitVec.ofNat 32 i

/-- The program is in memory, and its stack is. -/
structure Program (m : MainMemory) : Prop where
  length_ge : 0x1028 ≤ m.length
  start : m.Holds 0x100 start
  main : m.Holds 0x200 main
  copy : m.Holds 0x300 copy

/-- The array `src` lies between `0x900` and `0x1000`, and its first zero is `src[n]`. -/
structure Source (m : MainMemory) (n : ℕ) : Prop where
  le : 0x900 + 4 * (n + 1) ≤ 0x1000
  ne_zero : ∀ i < n, m.word (src i) ≠ 0
  zero : m.word (src n) = 0

/-! ## The law -/

/-- From `s` on, `copy` is called in the state `call`, it returns in the state `back`, and `main`
returns in the state `last`. -/
structure Returns (s call back last : Machine) : Prop where
  /-- `copy` is called. -/
  called : FirstAt copyEntry s call
  /-- `copy` returns after the call, with the stack pointer as at the call. -/
  returns : ∃ t, FirstAt copyReturn call t ∧ t.step? = some back
  pc_eq : back.pc = afterCall
  sp_eq : back.reg 5 = call.reg 5
  /-- `copy` changes the three words below the stack pointer and no other memory. -/
  frame : ∀ j, j < (call.reg 5).toNat - 12 ∨ (call.reg 5).toNat ≤ j →
    back.mem.byte j = call.mem.byte j
  /-- The first of these words is the return address that `copy` was called with. -/
  saved : back.mem.word (call.reg 5 - 4) = call.reg 6
  /-- `main` returns to the `halt` of `start`. -/
  main_returns : ∃ t, FirstAt mainReturn back t ∧ t.step? = some last
  last_pc_eq : last.pc = haltAt
  halts : ∃ t, cycle last = .error .machineHalt t

/-- **Return-address integrity**: the call of `copy` returns, and that of `main`. -/
def ReturnLaw (s : Machine) : Prop := ∃ call back last, Returns s call back last

/-- What is in the word of `dst[i]` when `copy` begins to copy: above `dst` are the two return
addresses. -/
def stackWord (m : MainMemory) : ℕ → JInt
  | 2 => afterCall
  | 3 => haltAt
  | i => m.word (dst i)

/-- The words of the array that are copied beyond `dst` are those that are there already. -/
def Harmless (m : MainMemory) (n : ℕ) : Prop :=
  ∀ i, 2 ≤ i → i ≤ n → m.HasWord (dst i) ∧ m.word (src i) = stackWord m i

/-! ## The program in memory -/

section Program

variable {m m' : MainMemory} {r : Fin 8 → JInt} {i n : ℕ}

/-- The program is below the array. -/
lemma Program.congr (hp : Program m) (hlen : m'.length = m.length)
    (hbyte : ∀ j < 0x900, m'.byte j = m.byte j) : Program m' where
  length_ge := hlen ▸ hp.length_ge
  start := hp.start.of_bytes (by decide) fun j _ hj => hbyte j (hj.trans_le (by decide))
  main := hp.main.of_bytes (by decide) fun j _ hj => hbyte j (hj.trans_le (by decide))
  copy := hp.copy.of_bytes (by decide) fun j _ hj => hbyte j (hj.trans_le (by decide))

lemma Program.hasWord (hp : Program m) {a : JInt} (ha : a.toNat + 4 ≤ 0x1028) : m.HasWord a := by
  have := hp.length_ge
  simp only [HasWord, InRange]
  omega

/-- The program after a word above it has been stored. -/
lemma Program.putWord (hp : Program m) {a v : JInt} (ha : 0x900 ≤ a.toNat) :
    Program (m.putWord a v) :=
  hp.congr length_putWord_eq fun j hj => byte_putWord_of_not (by omega)

/-- An instruction of the program. -/
lemma Program.gets (hp : Program m) {a pc₀ pc : JInt} {is : List Instr} {i : Instr} {B : Arch}
    (h : m.Holds pc₀ is) (k : ℕ) (hi : is[k]? = some i) (hpc : pc₀ + offset is k = pc)
    (hd : pc.toNat < 0x900 ∧ i ≠ .halt ∧ pc ≠ a) (he : i.Enabled ⟨pc + i.size, r, m⟩)
    (hB : i.run ⟨pc + i.size, r, m⟩ = B) : Gets a ⟨pc, r, m⟩ B := by
  have := hp.length_ge
  exact gets_instr h k hi hpc (by simp only [InRange]; omega) hd.2.1 hd.2.2 he hB

lemma toNat_src (hi : i ≤ 0x1000) : (src i).toNat = 0x900 + 4 * i :=
  toNat_element (by show 0x900 + 4 * i < 2 ^ 32; omega)

lemma toNat_dst (hi : i ≤ 0x1000) : (dst i).toNat = 0x1018 + 4 * i :=
  toNat_element (by show 0x1018 + 4 * i < 2 ^ 32; omega)

lemma Source.congr (hs : Source m n) (hbyte : ∀ j < 0x1000, m'.byte j = m.byte j) :
    Source m' n := by
  have := hs.le
  have hword : ∀ i ≤ n, m'.word (src i) = m.word (src i) := by
    intro i hi
    apply word_congr
    rw [toNat_src (by omega)]
    intro j hj hj'
    exact hbyte j (by omega)
  refine ⟨hs.le, fun i hi => ?_, ?_⟩
  · rw [hword i (by omega)]
    exact hs.ne_zero i hi
  · rw [hword n (Nat.le_refl n)]
    exact hs.zero

end Program

/-! ## The memory while it is copied -/

/-- The memory after the first `k` words have been copied. -/
def copied (m : MainMemory) : ℕ → MainMemory
  | 0 => m
  | k + 1 => (copied m k).putWord (dst k) (m.word (src k))

section Copied

variable {m : MainMemory} {i k n : ℕ}

@[simp] lemma length_copied : (copied m k).length = m.length := by
  induction k with
  | zero => rfl
  | succ k ih => rw [copied, length_putWord_eq, ih]

lemma hasWord_copied {a : JInt} : (copied m k).HasWord a ↔ m.HasWord a := by
  simp only [HasWord, InRange, length_copied]

/-- The memory below `dst` stays as it is. -/
lemma byte_copied_of_lt (hk : k ≤ 0x1000) {j : ℕ} (hj : j < 0x1018) :
    (copied m k).byte j = m.byte j := by
  induction k with
  | zero => rfl
  | succ k ih =>
    have := toNat_dst (i := k) (by omega)
    rw [copied, byte_putWord_of_not (by omega), ih (by omega)]

/-- The memory above what has been copied stays as it is. -/
lemma byte_copied_of_le (hk : k ≤ 0x1000) {j : ℕ} (hj : 0x1018 + 4 * k ≤ j) :
    (copied m k).byte j = m.byte j := by
  induction k with
  | zero => rfl
  | succ k ih =>
    have := toNat_dst (i := k) (by omega)
    rw [copied, byte_putWord_of_not (by omega), ih (by omega) (by omega)]

/-- What has been copied. -/
lemma word_copied (hk : k ≤ 0x1000) (hi : i < k) (hw : m.HasWord (dst i)) :
    (copied m k).word (dst i) = m.word (src i) := by
  induction k with
  | zero => exact absurd hi (Nat.not_lt_zero i)
  | succ k ih =>
    have := toNat_dst (i := i) (by omega)
    have := toNat_dst (i := k) (by omega)
    rw [copied]
    rcases Nat.lt_succ_iff_lt_or_eq.mp hi with hlt | rfl
    · rw [word_putWord_of_disjoint (by omega)]
      exact ih (by omega) hlt
    · exact word_putWord (hasWord_copied.mpr hw)

/-- Nothing changes beyond `dst` if what is copied there is there already. -/
lemma byte_copied_of_harmless (hk : k ≤ 0x1000)
    (h : ∀ i, 2 ≤ i → i < k → m.word (src i) = m.word (dst i)) {j : ℕ} (hj : 0x1020 ≤ j) :
    (copied m k).byte j = m.byte j := by
  induction k with
  | zero => rfl
  | succ k ih =>
    have ih' := ih (by omega) fun i hi hik => h i hi (by omega)
    have hdst := toNat_dst (i := k) (by omega)
    rw [copied]
    by_cases hk₂ : k < 2
    · rw [byte_putWord_of_not (by omega), ih']
    · have hword : (copied m k).word (dst k) = m.word (dst k) := by
        apply word_congr
        intro j hj hj'
        exact byte_copied_of_le (by omega) (by omega)
      rw [h k (by omega) (by omega), ← hword, putWord_word, ih']

end Copied

/-! ## The blocks of the program -/

section Blocks

open Function

variable {m : MainMemory} {k n : ℕ}

/-- The memory when `copy` is called: the return address of `main` has been stored. -/
def pushed (m : MainMemory) : MainMemory := m.putWord 0x1024 haltAt

/-- The memory when `copy` begins to copy: its return address has been stored. -/
def framed (m : MainMemory) : MainMemory := (pushed m).putWord 0x1020 afterCall

/-- From `start` to the call of `copy`. -/
lemma gets_call (hp : Program m) (r : Fin 8 → JInt) : ∃ r', r' 5 = 0x1024 ∧ r' 6 = afterCall ∧
    Gets copyEntry ⟨0x100, r, m⟩ ⟨copyEntry, r', pushed m⟩ := by
  have hp' : Program (pushed m) := hp.putWord (by decide)
  have hw : m.HasWord 0x1024 := hp.hasWord (by decide)
  let r₁ : Fin 8 → JInt := update (update r 5 0x1028) 6 haltAt
  let r₂ : Fin 8 → JInt := update r₁ 5 (r₁ 5 - 4)
  have h₅ : r₂ 5 = 0x1024 := by simp [r₂, r₁]
  have h₆ : r₂ 6 = haltAt := by simp [r₂, r₁]
  refine ⟨update r₂ 6 afterCall, by simpa using h₅, by simp, ?_⟩
  calc
    Gets copyEntry ⟨0x100, r, m⟩ ⟨0x106, update r 5 0x1028, m⟩ :=
      hp.gets hp.start 0 rfl rfl (by decide) trivial rfl
    Gets copyEntry _ ⟨0x108, r₁, m⟩ := hp.gets hp.start 1 rfl rfl (by decide) trivial rfl
    Gets copyEntry _ ⟨0x200, r₁, m⟩ := hp.gets hp.start 2 rfl rfl (by decide) trivial rfl
    Gets copyEntry _ ⟨0x202, r₂, m⟩ := hp.gets hp.main 0 rfl rfl (by decide) trivial rfl
    Gets copyEntry _ ⟨0x204, r₂, pushed m⟩ :=
      hp.gets hp.main 1 rfl rfl (by decide) (by simpa [Instr.Enabled, h₅] using hw)
        (by simp [Instr.run, h₅, h₆, pushed]; rfl)
    Gets copyEntry _ ⟨0x206, update r₂ 6 afterCall, pushed m⟩ :=
      hp'.gets hp'.main 2 rfl rfl (by decide) trivial rfl
    Gets copyEntry _ ⟨copyEntry, update r₂ 6 afterCall, pushed m⟩ :=
      hp'.gets hp'.main 3 rfl rfl (by decide) trivial rfl

/-- From the call of `copy` to its loop. -/
lemma gets_while (hp : Program m) {r : Fin 8 → JInt} (h₅ : r 5 = 0x1024) :
    ∃ r', r' 1 = 0 ∧ r' 2 = 0x900 ∧ r' 5 = 0x1018 ∧
      Gets copyReturn ⟨copyEntry, r, m⟩ ⟨0x314, r', m.putWord 0x1020 (r 6)⟩ := by
  have hp' : Program (m.putWord 0x1020 (r 6)) := hp.putWord (by decide)
  have hw : m.HasWord 0x1020 := hp.hasWord (by decide)
  let r₁ : Fin 8 → JInt := update r 5 (r 5 - 4)
  let r₂ : Fin 8 → JInt := update r₁ 5 (r₁ 5 - 4)
  let r₃ : Fin 8 → JInt := update r₂ 5 (r₂ 5 - 4)
  have h₁₅ : r₁ 5 = 0x1020 := by simp [r₁, h₅]
  have h₁₆ : r₁ 6 = r 6 := by simp [r₁]
  refine ⟨update (update r₃ 1 0) 2 0x900, by simp, by simp, by simp [r₃, r₂, h₁₅], ?_⟩
  calc
    Gets copyReturn ⟨copyEntry, r, m⟩ ⟨0x302, r₁, m⟩ :=
      hp.gets hp.copy 0 rfl rfl (by decide) trivial rfl
    Gets copyReturn _ ⟨0x304, r₁, m.putWord 0x1020 (r 6)⟩ :=
      hp.gets hp.copy 1 rfl rfl (by decide) (by simpa [Instr.Enabled, h₁₅] using hw)
        (by simp [Instr.run, h₁₅, h₁₆]; rfl)
    Gets copyReturn _ ⟨0x306, r₂, m.putWord 0x1020 (r 6)⟩ :=
      hp'.gets hp'.copy 2 rfl rfl (by decide) trivial rfl
    Gets copyReturn _ ⟨0x308, r₃, m.putWord 0x1020 (r 6)⟩ :=
      hp'.gets hp'.copy 3 rfl rfl (by decide) trivial rfl
    Gets copyReturn _ ⟨0x30e, update r₃ 1 0, m.putWord 0x1020 (r 6)⟩ :=
      hp'.gets hp'.copy 4 rfl rfl (by decide) trivial rfl
    Gets copyReturn _ ⟨0x314, update (update r₃ 1 0) 2 0x900, m.putWord 0x1020 (r 6)⟩ :=
      hp'.gets hp'.copy 5 rfl rfl (by decide) trivial rfl

/-- The registers at the beginning of round `k` of the loop. -/
structure InLoop (k : ℕ) (r : Fin 8 → JInt) : Prop where
  index : r 1 = BitVec.ofNat 32 k
  source : r 2 = 0x900
  sp : r 5 = 0x1018

section Loop

variable {r : Fin 8 → JInt}

/-- The word of `src` is loaded. -/
lemma InLoop.gets_load (hr : InLoop k r) (hp : Program m) (hw : m.HasWord (src k)) :
    Gets copyReturn ⟨0x314, r, m⟩ ⟨0x316, update r 3 (m.word (src k)), m⟩ := by
  have haddr : r 2 + 4 * r 1 = src k := by rw [hr.source, hr.index, src]
  refine hp.gets hp.copy 6 rfl rfl (by decide) ?_ ?_
  · show m.HasWord (r 2 + 4 * r 1)
    rwa [haddr]
  · show (⟨0x316, update r 3 (m.word (r 2 + 4 * r 1)), m⟩ : Arch) = _
    rw [haddr]

/-- From a round of the loop to its test. -/
lemma InLoop.gets_test (hr : InLoop k r) (hp : Program m) (hk : k ≤ 0x1000)
    (hsrc : m.HasWord (src k)) (hdst : m.HasWord (dst k)) :
    Gets copyReturn ⟨0x314, r, m⟩
      ⟨0x318, update r 3 (m.word (src k)), m.putWord (dst k) (m.word (src k))⟩ := by
  let r' : Fin 8 → JInt := update r 3 (m.word (src k))
  have haddr : r' 5 + 4 * r' 1 = dst k := by simp [r', hr.sp, hr.index, dst]
  refine Leads.trans (hr.gets_load hp hsrc) (hp.gets hp.copy 7 rfl rfl (by decide) ?_ ?_)
  · show m.HasAlignedWord (r' 5 + 4 * r' 1)
    rw [haddr]
    refine ⟨hdst, ?_⟩
    rw [toNat_dst hk]
    omega
  · show (⟨0x318, r', m.putWord (r' 5 + 4 * r' 1) (r' 3)⟩ : Arch) = _
    rw [haddr]
    simp [r']

/-- From the test, after a word that is not zero, to the next round. -/
lemma gets_next (hp : Program m) (hr : InLoop k r) (h₃ : r 3 ≠ 0) :
    ∃ r', InLoop (k + 1) r' ∧ Gets copyReturn ⟨0x318, r, m⟩ ⟨0x314, r', m⟩ := by
  refine ⟨update r 1 (r 1 + 1), ⟨?_, by simpa using hr.source, by simpa using hr.sp⟩, ?_⟩
  · simp [hr.index, BitVec.ofNat_add]
  calc
    Gets copyReturn ⟨0x318, r, m⟩ ⟨0x31a, r, m⟩ :=
      hp.gets hp.copy 8 rfl rfl (by decide) trivial (if_neg h₃)
    Gets copyReturn _ ⟨0x31c, update r 1 (r 1 + 1), m⟩ :=
      hp.gets hp.copy 9 rfl rfl (by decide) trivial rfl
    Gets copyReturn _ ⟨0x314, update r 1 (r 1 + 1), m⟩ :=
      hp.gets hp.copy 10 rfl rfl (by decide) trivial rfl

/-- From the test, after a zero, to the return of `copy`. -/
lemma gets_copyReturn (hp : Program m) (h₅ : r 5 = 0x1018) (h₃ : r 3 = 0) :
    ∃ r', r' 5 = 0x1024 ∧ r' 6 = m.word 0x1020 ∧
      Gets copyReturn ⟨0x318, r, m⟩ ⟨copyReturn, r', m⟩ := by
  have hw : m.HasWord 0x1020 := hp.hasWord (by decide)
  let r₁ : Fin 8 → JInt := update r 5 (r 5 + 4)
  let r₂ : Fin 8 → JInt := update r₁ 5 (r₁ 5 + 4)
  let r₃ : Fin 8 → JInt := update r₂ 6 (m.word 0x1020)
  have h₂₅ : r₂ 5 = 0x1020 := by simp [r₂, r₁, h₅]
  refine ⟨update r₃ 5 (r₃ 5 + 4), by simp [r₃, h₂₅], by simp [r₃], ?_⟩
  calc
    Gets copyReturn ⟨0x318, r, m⟩ ⟨0x322, r, m⟩ :=
      hp.gets hp.copy 8 rfl rfl (by decide) trivial (if_pos h₃)
    Gets copyReturn _ ⟨0x324, r₁, m⟩ := hp.gets hp.copy 11 rfl rfl (by decide) trivial rfl
    Gets copyReturn _ ⟨0x326, r₂, m⟩ := hp.gets hp.copy 12 rfl rfl (by decide) trivial rfl
    Gets copyReturn _ ⟨0x328, r₃, m⟩ :=
      hp.gets hp.copy 13 rfl rfl (by decide) (by simpa [Instr.Enabled, h₂₅] using hw)
        (by simp [Instr.run, h₂₅, Arch.setReg, r₃]; rfl)
    Gets copyReturn _ ⟨copyReturn, update r₃ 5 (r₃ 5 + 4), m⟩ :=
      hp.gets hp.copy 14 rfl rfl (by decide) trivial rfl

/-- From the return of `copy` to that of `main`. -/
lemma gets_mainReturn (hp : Program m) (h₅ : r 5 = 0x1024) :
    ∃ r', r' 6 = m.word 0x1024 ∧ Gets mainReturn ⟨afterCall, r, m⟩ ⟨mainReturn, r', m⟩ := by
  have hw : m.HasWord 0x1024 := hp.hasWord (by decide)
  let r₁ : Fin 8 → JInt := update r 6 (m.word 0x1024)
  refine ⟨update r₁ 5 (r₁ 5 + 4), by simp [r₁], ?_⟩
  calc
    Gets mainReturn ⟨afterCall, r, m⟩ ⟨0x20e, r₁, m⟩ :=
      hp.gets hp.main 4 rfl rfl (by decide) (by simpa [Instr.Enabled, h₅] using hw)
        (by simp [Instr.run, h₅, Arch.setReg, r₁]; rfl)
    Gets mainReturn _ ⟨mainReturn, update r₁ 5 (r₁ 5 + 4), m⟩ :=
      hp.gets hp.main 5 rfl rfl (by decide) trivial rfl

end Loop

end Blocks

/-! ## The loop -/

section Loop

variable {m : MainMemory} {k n : ℕ} {s u : Machine}

/-- The machine is at the beginning of round `k` of the loop. -/
def AtWhile (m : MainMemory) (k : ℕ) (s : Machine) : Prop :=
  ∃ r, InLoop k r ∧ s.arch = ⟨0x314, r, copied m k⟩

/-- The machine is at the return of `copy`, which has copied `src[0]`, ..., `src[n]`. -/
def AtReturn (m : MainMemory) (n : ℕ) (s : Machine) : Prop :=
  ∃ r, r 5 = 0x1024 ∧ r 6 = (copied m (n + 1)).word 0x1020 ∧
    s.arch = ⟨copyReturn, r, copied m (n + 1)⟩

/-- The way to the return of `copy`. -/
abbrev LeadsToReturn : (Machine → Prop) → (Machine → Prop) → Prop :=
  Leads (upTo Machine.step? (·.pc = copyReturn))

lemma Program.copied (hp : Program m) (hk : k ≤ 0x1000) : Program (copied m k) :=
  hp.congr length_copied fun _ hj => byte_copied_of_lt hk (by omega)

lemma Source.hasWord (hs : Source m n) (hp : Program m) (hk : k ≤ n) :
    (Cpy.copied m k).HasWord (src k) ∧ (Cpy.copied m k).word (src k) = m.word (src k) := by
  have := hs.le
  have hsrc := toNat_src (i := k) (by omega)
  refine ⟨hasWord_copied.mpr (hp.hasWord (by omega)), word_congr fun j hj hj' => ?_⟩
  exact byte_copied_of_lt (by omega) (by omega)

/-- The test of round `k`. -/
lemma gets_test (hp : Program m) (hs : Source m n) (hk : k ≤ n) (hw : m.HasWord (dst k))
    {r : Fin 8 → JInt} (hr : InLoop k r) :
    Gets copyReturn ⟨0x314, r, Cpy.copied m k⟩
      ⟨0x318, Function.update r 3 (m.word (src k)), Cpy.copied m (k + 1)⟩ := by
  have := hs.le
  obtain ⟨hsrc, hword⟩ := hs.hasWord hp hk
  rw [Cpy.copied, ← hword]
  exact hr.gets_test (hp.copied (by omega)) (by omega) hsrc (hasWord_copied.mpr hw)

/-- **A round of the loop** copies a word. -/
lemma leads_round (hp : Program m) (hs : Source m n) (hk : k < n) (hw : m.HasWord (dst k)) :
    LeadsToReturn (AtWhile m k) (AtWhile m (k + 1)) := by
  have := hs.le
  rintro s ⟨r, hr, harch⟩
  have hr' : InLoop k (Function.update r 3 (m.word (src k))) :=
    ⟨by simpa using hr.index, by simpa using hr.source, by simpa using hr.sp⟩
  obtain ⟨r', hnext, hgets⟩ := gets_next (hp.copied (k := k + 1) (by omega)) hr'
    (by simpa using hs.ne_zero k hk)
  obtain ⟨t, ht, hst⟩ := Leads.trans (gets_test hp hs (Nat.le_of_lt hk) hw hr) hgets harch
  exact ⟨t, ⟨r', hnext, ht⟩, hst⟩

/-- **The last round** leads to the return of `copy`. -/
lemma leads_last (hp : Program m) (hs : Source m n) (hw : m.HasWord (dst n)) :
    LeadsToReturn (AtWhile m n) (AtReturn m n) := by
  have := hs.le
  rintro s ⟨r, hr, harch⟩
  obtain ⟨r', h₅, h₆, hgets⟩ := gets_copyReturn (hp.copied (k := n + 1) (by omega))
    (r := Function.update r 3 (m.word (src n))) (by simpa using hr.sp) (by simpa using hs.zero)
  obtain ⟨t, ht, hst⟩ := Leads.trans (gets_test hp hs (Nat.le_refl n) hw hr) hgets harch
  exact ⟨t, ⟨r', h₅, h₆, ht⟩, hst⟩

/-- **The loop** copies the array, if there is memory to copy it to. -/
theorem leads_copy (hp : Program m) (hs : Source m n) (hw : ∀ i ≤ n, m.HasWord (dst i)) :
    LeadsToReturn (AtWhile m 0) (AtReturn m n) := by
  have hloop : LeadsToReturn (AtWhile m 0) (AtWhile m n) :=
    Leads.loop fun k hk => leads_round hp hs hk (hw k (Nat.le_of_lt hk))
  exact hloop.trans (leads_last hp hs (hw n (Nat.le_refl n)))

/-- A round that is followed by the return of `copy` has stored its word. -/
lemma AtWhile.hasWord (h : AtWhile m k s) (hp : Program m) (hs : Source m n) (hk : k ≤ n)
    (hu : FirstAt copyReturn s u) : m.HasWord (dst k) := by
  have := hs.le
  obtain ⟨r, hr, harch⟩ := h
  have hp' := hp.copied (k := k) (by omega)
  obtain ⟨t, ht, hfirst⟩ := (hr.gets_load hp' (hs.hasWord hp hk).1).first_ahead harch hu
  have hpc : t.pc = 0x316 := congrArg Arch.pc ht
  have hreg : t.reg = Function.update r 3 _ := congrArg Arch.reg ht
  have hmem : t.mem = Cpy.copied m k := congrArg Arch.mem ht
  obtain ⟨v, hv⟩ := hfirst.step (by rw [hpc]; decide)
  have hi : t.mem.instr? t.pc = some (.storeIndexed 3 5 1) := by
    rw [hmem, hpc]
    exact hp'.copy.get 7 rfl
  have hw := hasWord_of_step? hi hv
  rw [hmem, hasWord_copied, hreg] at hw
  simpa [hr.sp, hr.index, dst] using hw

/-- If `copy` returns then there is memory to copy the array to. -/
theorem hasWord_of_firstAt (hp : Program m) (hs : Source m n) (h : AtWhile m 0 s)
    (hu : FirstAt copyReturn s u) : ∀ i ≤ n, m.HasWord (dst i) := by
  intro i
  induction i using Nat.strong_induction_on with
  | h i ih =>
    intro hi
    have hloop : LeadsToReturn (AtWhile m 0) (AtWhile m i) :=
      Leads.loop fun k hk => leads_round hp hs (by omega) (ih k hk (by omega))
    obtain ⟨t, ht, hfirst⟩ := hloop.first_ahead h hu
    exact ht.hasWord hp hs hi hfirst

end Loop

/-! ## When the calls return -/

section Returns

variable {m : MainMemory} {n : ℕ} {s t call back last : Machine}

/-- The machine is at the call of `copy`. -/
def AtCall (m : MainMemory) (s : Machine) : Prop :=
  ∃ r, r 5 = 0x1024 ∧ r 6 = afterCall ∧ s.arch = ⟨copyEntry, r, pushed m⟩

/-- The machine is where `copy` has returned to. -/
def AtBack (m : MainMemory) (n : ℕ) (s : Machine) : Prop :=
  ∃ r, r 5 = 0x1024 ∧
    s.arch = ⟨(copied (framed m) (n + 1)).word 0x1020, r, copied (framed m) (n + 1)⟩

lemma program_framed (hp : Program m) : Program (framed m) :=
  (hp.putWord (by decide)).putWord (by decide)

/-- The memory below the stack does not change. -/
lemma byte_framed_of_lt {j : ℕ} (hj : j < 0x1020) : (framed m).byte j = m.byte j := by
  rw [framed, byte_putWord_of_not (.inl hj), pushed,
    byte_putWord_of_not (.inl (Nat.lt_trans hj (by decide)))]

/-- Above the stored return address is the memory at the call. -/
lemma byte_framed_of_le {j : ℕ} (hj : 0x1024 ≤ j) : (framed m).byte j = (pushed m).byte j :=
  byte_putWord_of_not (.inr hj)

lemma source_framed (hs : Source m n) : Source (framed m) n :=
  hs.congr fun _ hj => byte_framed_of_lt (Nat.lt_trans hj (by decide))

/-- The words above `dst` when `copy` begins to copy. -/
lemma word_framed (hp : Program m) {i : ℕ} (h₂ : 2 ≤ i) (hi : i ≤ 0x1000) :
    (framed m).word (dst i) = stackWord m i := by
  have hw : (pushed m).HasWord 0x1020 := hasWord_putWord.mpr (hp.hasWord (by decide))
  match i, h₂ with
  | 2, _ => exact word_putWord hw
  | 3, _ =>
    refine (word_putWord_of_disjoint (.inr (by decide))).trans ?_
    exact word_putWord (hp.hasWord (by decide))
  | i + 4, _ =>
    have hdst := toNat_dst hi
    have h₁ : (0x1020 : JInt).toNat + 4 ≤ (dst (i + 4)).toNat := by
      show 0x1020 + 4 ≤ _
      omega
    have h₂ : (0x1024 : JInt).toNat + 4 ≤ (dst (i + 4)).toNat := by
      show 0x1024 + 4 ≤ _
      omega
    show _ = m.word (dst (i + 4))
    rw [framed, word_putWord_of_disjoint (.inr h₁), pushed, word_putWord_of_disjoint (.inr h₂)]

/-- The words of the array when `copy` begins to copy. -/
lemma word_src_framed (hs : Source m n) {i : ℕ} (hi : i ≤ n) :
    (framed m).word (src i) = m.word (src i) := by
  have := hs.le
  have := toNat_src (i := i) (by omega)
  exact word_congr fun j _ hj => byte_framed_of_lt (by omega)

/-- From `start` to the call of `copy`. -/
lemma leads_call (hp : Program m) : Leads (upTo Machine.step? (·.pc = copyEntry))
    (fun s => s.pc = 0x100 ∧ s.mem = m) (AtCall m) := by
  rintro s ⟨hpc, hmem⟩
  obtain ⟨r, h₅, h₆, hgets⟩ := gets_call hp s.reg
  obtain ⟨t, ht, hst⟩ := hgets (by rw [← hpc, ← hmem]; rfl)
  exact ⟨t, ⟨r, h₅, h₆, ht⟩, hst⟩

/-- From the call of `copy` to its loop. -/
lemma leads_while (hp : Program m) : LeadsToReturn (AtCall m) (AtWhile (framed m) 0) := by
  rintro s ⟨r, h₅, h₆, harch⟩
  obtain ⟨r', h₁, h₂, h₅', hgets⟩ := gets_while (hp.putWord (by decide) : Program (pushed m)) h₅
  obtain ⟨t, ht, hst⟩ := hgets harch
  rw [h₆] at ht
  exact ⟨t, ⟨r', ⟨h₁, h₂, h₅'⟩, ht⟩, hst⟩

/-- A return. -/
lemma step?_return {pc₀ pc : JInt} {is : List Instr} {r : Fin 8 → JInt} (hp : Program m)
    (h : m.Holds pc₀ is) (k : ℕ) (hi : is[k]? = some (.jInd 6 0)) (hpc : pc₀ + offset is k = pc)
    (hlt : pc.toNat < 0x900) (hs : s.arch = ⟨pc, r, m⟩) :
    ∃ t, s.step? = some t ∧ t.arch = ⟨r 6, r, m⟩ := by
  have hmem : s.mem = m := congrArg Arch.mem hs
  have hspc : s.pc = pc := congrArg Arch.pc hs
  have := hp.length_ge
  obtain ⟨t, ht, harch⟩ := step?_instr (i := .jInd 6 0) (s := s)
    (by rw [hmem, hspc, InRange]; omega) (by rw [hmem, hspc, ← hpc]; exact h.get k hi) trivial
    (by decide)
  refine ⟨t, ht, ?_⟩
  rw [harch, hs]
  simp [Instr.run, Arch.skip]

/-- The return of `copy`. -/
lemma AtReturn.step? (hp : Program m) (hs : Source m n) (h : AtReturn (framed m) n t) :
    ∃ back, t.step? = some back ∧ AtBack m n back := by
  have := hs.le
  obtain ⟨r, h₅, h₆, harch⟩ := h
  have hp' := (program_framed hp).copied (k := n + 1) (by omega)
  obtain ⟨back, hback, harch'⟩ := step?_return hp' hp'.copy 15 rfl rfl (by decide) harch
  rw [h₆] at harch'
  exact ⟨back, hback, r, h₅, harch'⟩

/-- **What a return finds**: the array has been copied, and there was memory for it. -/
theorem Returns.states (h : Returns s call back last) (hpc : s.pc = 0x100) (hp : Program s.mem)
    (hs : Source s.mem n) :
    AtCall s.mem call ∧ AtBack s.mem n back ∧ ∀ i ≤ n, (framed s.mem).HasWord (dst i) := by
  have hcall : AtCall s.mem call :=
    (leads_call hp).holds_first (fun t ⟨_, _, _, ht⟩ => congrArg Arch.pc ht) ⟨hpc, rfl⟩ h.called
  obtain ⟨t, hfirst, hstep⟩ := h.returns
  obtain ⟨w, hw, hfirst'⟩ := (leads_while hp).first_ahead hcall hfirst
  have hword := hasWord_of_firstAt (program_framed hp) (source_framed hs) hw hfirst'
  have hret : AtReturn (framed s.mem) n t :=
    (leads_copy (program_framed hp) (source_framed hs) hword).holds_first
      (fun t ⟨_, _, _, ht⟩ => congrArg Arch.pc ht) hw hfirst'
  obtain ⟨back', hback', hat⟩ := hret.step? hp hs
  cases Option.some.inj (hstep.symm.trans hback')
  exact ⟨hcall, hat, hword⟩

/-- If the calls return then what has been copied beyond `dst` is what was there. -/
lemma Returns.harmless (h : Returns s call back last) (hpc : s.pc = 0x100) (hp : Program s.mem)
    (hs : Source s.mem n) : Harmless s.mem n := by
  have := hs.le
  obtain ⟨⟨r, h₅, h₆, hcall⟩, ⟨r', -, hback⟩, hw⟩ := h.states hpc hp hs
  have hsp : call.reg 5 = 0x1024 := (congrFun (congrArg Arch.reg hcall) 5).trans h₅
  have hra : call.reg 6 = afterCall := (congrFun (congrArg Arch.reg hcall) 6).trans h₆
  have hmem : back.mem = copied (framed s.mem) (n + 1) := congrArg Arch.mem hback
  have hcmem : call.mem = pushed s.mem := congrArg Arch.mem hcall
  intro i h₂ hi
  have hword : back.mem.word (dst i) = s.mem.word (src i) := by
    rw [hmem, word_copied (by omega) (by omega) (hw i hi), word_src_framed hs hi]
  refine ⟨by simpa [framed, pushed] using hw i hi, ?_⟩
  rw [← hword]
  by_cases hi₂ : i = 2
  · subst hi₂
    have hsaved := h.saved
    rw [hsp, hra] at hsaved
    exact hsaved
  · have hdst := toNat_dst (i := i) (by omega)
    have hframe := h.frame
    rw [hsp, hcmem] at hframe
    rw [← word_framed hp h₂ (by omega)]
    apply word_congr
    intro j hj _
    have hj' : 0x1024 ≤ j := by omega
    rw [hframe j (.inr hj'), byte_framed_of_le hj']

/-- If what is copied beyond `dst` is what is there, nothing changes there. -/
lemma byte_copied_framed (hp : Program m) (hs : Source m n) (h : Harmless m n) {j : ℕ}
    (hj : 0x1020 ≤ j) : (copied (framed m) (n + 1)).byte j = (framed m).byte j := by
  have := hs.le
  apply byte_copied_of_harmless (by omega) _ hj
  intro i h₂ hi
  rw [word_src_framed hs (by omega), word_framed hp h₂ (by omega)]
  exact (h i h₂ (by omega)).2

/-- There is memory to copy the array to. -/
lemma hasWord_framed (hp : Program m) (hs : Source m n) (h : Harmless m n) :
    ∀ i ≤ n, (framed m).HasWord (dst i) := by
  have := hs.le
  intro i hi
  by_cases h₂ : 2 ≤ i
  · simpa [framed, pushed] using (h i h₂ hi).1
  · have hdst := toNat_dst (i := i) (by omega)
    exact (program_framed hp).hasWord (by omega)

/-- The words above `dst` are still there after the loop. -/
lemma word_copied_framed (hp : Program m) (hs : Source m n) (h : Harmless m n) {i : ℕ}
    (h₂ : 2 ≤ i) (hi : i ≤ 0x1000) :
    (copied (framed m) (n + 1)).word (dst i) = stackWord m i := by
  have hdst := toNat_dst hi
  rw [← word_framed hp h₂ hi]
  exact word_congr fun j hj _ => byte_copied_framed hp hs h (by omega)

/-- `halt` throws its exception. -/
lemma cycle_haltAt (hp : Program s.mem) (hpc : s.pc = haltAt) :
    ∃ t, cycle s = .error .machineHalt t := by
  have hin : s.mem.InRange s.pc 6 := by
    have := hp.length_ge
    rw [hpc, InRange]
    exact Nat.le_trans (by decide) this
  have hi : s.instr? = some .halt := by
    show s.mem.instr? s.pc = _
    rw [hpc]
    exact hp.start.get 3 rfl
  refine ⟨s.fetched, ?_⟩
  rw [cycle_eq hin hi trivial, if_pos rfl]

/-- If what is copied beyond `dst` is what is there, `copy` returns after the call. -/
lemma copy_returns (hp : Program m) (hs : Source m n) (h : Harmless m n) (hcall : AtCall m call) :
    ∃ t back r, FirstAt copyReturn call t ∧ t.step? = some back ∧ r 5 = 0x1024 ∧
      back.arch = ⟨afterCall, r, copied (framed m) (n + 1)⟩ := by
  have hcopy : LeadsToReturn (AtCall m) (AtReturn (framed m) n) := (leads_while hp).trans
    (leads_copy (program_framed hp) (source_framed hs) (hasWord_framed hp hs h))
  obtain ⟨t, ht, hfirst⟩ := hcopy.first (fun t ⟨_, _, _, ht⟩ => congrArg Arch.pc ht) hcall
  obtain ⟨back, hstep, r, h₅, hback⟩ := ht.step? hp hs
  have hdst : dst 2 = 0x1020 := by decide
  have hsaved := word_copied_framed hp hs h (Nat.le_refl 2) (by decide)
  rw [hdst] at hsaved
  rw [hsaved] at hback
  exact ⟨t, back, r, hfirst, hstep, h₅, hback⟩

/-- Then `main` returns to the `halt` of `start`. -/
lemma main_returns (hp : Program m) (hs : Source m n) (h : Harmless m n) {r : Fin 8 → JInt}
    (h₅ : r 5 = 0x1024) (hback : back.arch = ⟨afterCall, r, copied (framed m) (n + 1)⟩) :
    ∃ t last, FirstAt mainReturn back t ∧ t.step? = some last ∧ last.pc = haltAt ∧
      last.mem = copied (framed m) (n + 1) := by
  have hle := hs.le
  have hp' := (program_framed hp).copied (k := n + 1) (by omega)
  obtain ⟨r', h₆, hgets⟩ := gets_mainReturn hp' h₅
  obtain ⟨t, ht, hfirst⟩ := Leads.first hgets (fun t ht => congrArg Arch.pc ht) hback
  obtain ⟨last, hlast, harch⟩ := step?_return hp' hp'.main 6 rfl rfl (by decide) ht
  have hdst : dst 3 = 0x1024 := by decide
  have hsaved := word_copied_framed hp hs h (i := 3) (by decide) (by decide)
  rw [hdst] at hsaved
  rw [h₆, hsaved] at harch
  exact ⟨t, last, hfirst, hlast, congrArg Arch.pc harch, congrArg Arch.mem harch⟩

/-- If what is copied beyond `dst` is what is there, the calls return. -/
lemma returnLaw_of_harmless (hpc : s.pc = 0x100) (hp : Program s.mem) (hs : Source s.mem n)
    (h : Harmless s.mem n) : ReturnLaw s := by
  have hle := hs.le
  obtain ⟨call, hat, hcalled⟩ :=
    (leads_call hp).first (fun t ⟨_, _, _, ht⟩ => congrArg Arch.pc ht) ⟨hpc, rfl⟩
  obtain ⟨t, back, r', hfirst, hstep, h₅', hback⟩ := copy_returns hp hs h hat
  obtain ⟨u, last, hmain, hlast, hlpc, hlmem⟩ := main_returns hp hs h h₅' hback
  obtain ⟨r, h₅, h₆, hcall⟩ := hat
  have hsp : call.reg 5 = 0x1024 := (congrFun (congrArg Arch.reg hcall) 5).trans h₅
  have hra : call.reg 6 = afterCall := (congrFun (congrArg Arch.reg hcall) 6).trans h₆
  have hcmem : call.mem = pushed s.mem := congrArg Arch.mem hcall
  have hbmem : back.mem = copied (framed s.mem) (n + 1) := congrArg Arch.mem hback
  refine ⟨call, back, last, ?_⟩
  constructor
  case called => exact hcalled
  case returns => exact ⟨t, hfirst, hstep⟩
  case pc_eq => exact congrArg Arch.pc hback
  case sp_eq => exact ((congrFun (congrArg Arch.reg hback) 5).trans h₅').trans hsp.symm
  case frame =>
    rw [hsp, hbmem, hcmem]
    intro j hj
    have hj' : j < 0x1018 ∨ 0x1024 ≤ j := hj
    rcases hj' with hlt | hle
    · rw [byte_copied_of_lt (by omega) hlt]
      exact byte_putWord_of_not (.inl (Nat.lt_trans hlt (by decide)))
    · rw [byte_copied_framed hp hs h (by omega), byte_framed_of_le hle]
  case saved =>
    have hdst : (0x1024 : JInt) - 4 = dst 2 := by decide
    rw [hsp, hbmem, hra, hdst]
    exact word_copied_framed hp hs h (Nat.le_refl 2) (by decide)
  case main_returns => exact ⟨u, hmain, hlast⟩
  case last_pc_eq => exact hlpc
  case halts =>
    apply cycle_haltAt _ hlpc
    rw [hlmem]
    exact (program_framed hp).copied (by omega)

/-- **When `copy` returns.** With the program in memory, and an array that ends with its element
`n`, the calls return exactly if what is copied beyond `dst` is what is there already. -/
theorem returnLaw_iff (s : Machine) (n : ℕ) (hpc : s.pc = 0x100) (hp : Program s.mem)
    (hs : Source s.mem n) : ReturnLaw s ↔ Harmless s.mem n := by
  constructor
  · rintro ⟨call, back, last, h⟩
    exact h.harmless hpc hp hs
  · exact returnLaw_of_harmless hpc hp hs

end Returns

/-! ## The two programs -/

/-- `.pos a`: what has been assembled so far is filled up to the address `a`. -/
def pos (a : ℕ) (bytes : List Byte) : List Byte := bytes ++ List.replicate (a - bytes.length) 0

/-- The bytes of the program, with this array. -/
def image (array : List JInt) : List Byte :=
  let start := pos 0x100 [] ++ assemble start
  let main := pos 0x200 start ++ assemble main
  let copy := pos 0x300 main ++ assemble copy
  pos 0x1028 (pos 0x900 copy ++ array.flatMap beBytes)

/-- The array of `cpy.s`. -/
def array : List JInt := [0x00000001, 0x00000000]

/-- The array of `cpy_attack.s`. -/
def attack : List JInt := [
  0x00000001, 0x00000001, 0x910, 0x00000000, 0x0000ffff, 0xffff0100, 0xffffffff, 0x0200ffff,
  0xffff0300, 0xffffffff, 0x0400ffff, 0xffff0500, 0xffffffff, 0x0600ffff, 0xffff0700,
  0xffffffff, 0xf0000000]

section Image

variable {m : MainMemory} {a : List JInt} {n : ℕ}

/-- The bytes of the program, one part after the other. -/
lemma image_eq : image a =
    List.replicate 0x100 0 ++ (assemble start ++ (List.replicate 0xf0 0 ++ (assemble main ++
      (List.replicate 0xee 0 ++ (assemble copy ++ (List.replicate 0x5d4 0 ++
        (a.flatMap beBytes ++ List.replicate (0x728 - 4 * a.length) 0))))))) := by
  have himage : image a = pos 0x1028 (pos 0x900 (pos 0x300 (pos 0x200 (pos 0x100 [] ++
      assemble start) ++ assemble main) ++ assemble copy) ++ a.flatMap beBytes) := rfl
  have hstart : codeSize start = 0x10 := by decide
  have hmain : codeSize main = 0x12 := by decide
  have hcopy : codeSize copy = 0x2c := by decide
  have hsub : 0x1028 - (0x100 + (0x10 + (0xf0 + (0x12 + (0xee + (0x2c + (0x5d4 +
      4 * a.length))))))) = 0x728 - 4 * a.length := by omega
  rw [himage]
  simp only [pos, List.length_append, List.length_replicate, length_assemble,
    length_flatMap_beBytes, hstart, hmain, hcopy, List.length_nil, List.nil_append,
    List.append_assoc, Nat.reduceAdd, Nat.reduceSub, Nat.sub_zero]
  rw [hsub]

lemma length_image (ha : a.length ≤ 0x1c0) : (image a).length = 0x1028 := by
  have hstart : codeSize start = 0x10 := by decide
  have hmain : codeSize main = 0x12 := by decide
  have hcopy : codeSize copy = 0x2c := by decide
  rw [image_eq]
  simp only [List.length_append, List.length_replicate, length_assemble, length_flatMap_beBytes,
    hstart, hmain, hcopy]
  omega

/-- The program is in memory. -/
lemma program_image (hm : m.mem = image a) (ha : a.length ≤ 0x1c0) : Program m := by
  have hlen : 0x1028 ≤ m.length := by rw [MainMemory.length, hm, length_image ha]
  rw [image_eq] at hm
  constructor
  case length_ge => exact hlen
  case start =>
    exact (resident_assemble (List.replicate 0x100 0) hm (List.length_replicate ..) hlen).holds
  case main =>
    refine (resident_assemble (List.replicate 0x100 0 ++ (assemble start ++
      List.replicate 0xf0 0)) (by simp only [hm, List.append_assoc]; rfl) ?_ hlen).holds
    simp only [List.length_append, List.length_replicate, length_assemble]
    decide
  case copy =>
    refine (resident_assemble (List.replicate 0x100 0 ++ (assemble start ++
      (List.replicate 0xf0 0 ++ (assemble main ++ List.replicate 0xee 0))))
      (by simp only [hm, List.append_assoc]; rfl) ?_ hlen).holds
    simp only [List.length_append, List.length_replicate, length_assemble]
    decide

/-- The array is in memory. -/
lemma word_src_image (hm : m.mem = image a) {i : ℕ} (hi : i < a.length) :
    m.word (src i) = a[i] := by
  rw [image_eq] at hm
  refine word_of_words (List.replicate 0x100 0 ++ (assemble start ++ (List.replicate 0xf0 0 ++
    (assemble main ++ (List.replicate 0xee 0 ++ (assemble copy ++ List.replicate 0x5d4 0))))))
    (List.replicate (0x728 - 4 * a.length) 0) (by simp only [hm, List.append_assoc]) ?_ hi
  simp only [List.length_append, List.length_replicate, length_assemble]
  decide

/-- The array ends with its first zero. -/
lemma source_image (hm : m.mem = image a) (hle : 0x900 + 4 * (n + 1) ≤ 0x1000) (hn : n < a.length)
    (hne : ∀ i, ∀ hi : i < n, a[i] ≠ 0) (hzero : a[n] = 0) : Source m n where
  le := hle
  ne_zero i hi := by
    rw [word_src_image hm (hi.trans hn)]
    exact hne i hi
  zero := by rw [word_src_image hm hn, hzero]

/-- A machine that is about to run the program with this array. -/
def booted (array : List JInt) (h : array.length ≤ 0x1c0) : Machine :=
  boot 0x100 (fun _ => 0) ⟨image array, by rw [length_image h]; decide⟩

end Image

instance (m : MainMemory) : Decidable (Program m) :=
  decidable_of_iff (0x1028 ≤ m.length ∧ m.Holds 0x100 start ∧ m.Holds 0x200 main ∧
    m.Holds 0x300 copy)
    ⟨fun ⟨h₁, h₂, h₃, h₄⟩ => ⟨h₁, h₂, h₃, h₄⟩, fun ⟨h₁, h₂, h₃, h₄⟩ => ⟨h₁, h₂, h₃, h₄⟩⟩

instance (m : MainMemory) (n : ℕ) : Decidable (Source m n) :=
  decidable_of_iff (0x900 + 4 * (n + 1) ≤ 0x1000 ∧ (∀ i < n, m.word (src i) ≠ 0) ∧
    m.word (src n) = 0)
    ⟨fun ⟨h₁, h₂, h₃⟩ => ⟨h₁, h₂, h₃⟩, fun ⟨h₁, h₂, h₃⟩ => ⟨h₁, h₂, h₃⟩⟩

theorem cpy_returnLaw : ReturnLaw (booted array (by decide)) :=
  (returnLaw_iff _ 1 rfl (program_image rfl (by decide))
    (source_image rfl (by decide) (by decide) (by decide) rfl)).mpr fun i _ _ => by omega

/-- **The attack.** With the array of `cpy_attack.s`, `copy` does not return to `main`. -/
theorem attack_not_returnLaw : ¬ ∀ s n, s.pc = 0x100 → Program s.mem → Source s.mem n →
    ReturnLaw s := by
  intro h
  have hp : Program (booted attack (by decide)).mem := program_image rfl (by decide)
  have hs : Source (booted attack (by decide)).mem 3 :=
    source_image rfl (by decide) (by decide) (by decide) rfl
  obtain ⟨call, back, last, hreturns⟩ := h _ 3 rfl hp hs
  obtain ⟨-, hword⟩ := hreturns.harmless rfl hp hs 2 (by decide) (by decide)
  have hsrc : (booted attack (by decide)).mem.word (src 2) = 0x910 :=
    word_src_image (a := attack) (i := 2) rfl (by decide)
  have hne : (0x910 : JInt) ≠ afterCall := by decide
  exact hne (hsrc.symm.trans hword)

end Cpy

end SM213
