import Cs213.SM213.ISA

set_option relaxedAutoImplicit false
set_option autoImplicit false

/-!
# A cycle is an instruction

`fetch` puts the instruction at the program counter into the instruction registers, and `execute`
does what the instruction set says.

## Main definitions

* `SM213.Machine.arch` — the part of the machine that instructions act on.
* `SM213.Machine.instr?`, `SM213.Machine.next` — the instruction at the program counter, and the
  state it acts on.
* `SM213.Machine.fetched` — the machine after `fetch`.

## Main results

* `SM213.fetch_eq`, `SM213.execute_eq`, `SM213.cycle_eq` — what the stages do.
* `SM213.cycle_eq_run` — a cycle implements the instruction set.
-/

namespace SM213

open Bytes MainMemory

/-! ## Words in memory -/

namespace MainMemory

variable {m : MainMemory} {a v : JInt}

/-- A byte of a range that has been read. -/
lemma getD_window {n i : ℕ} (hi : i < n) :
    (window m.mem a.toNat n).getD i 0 = m.byte (a.toNat + i) := by
  rw [List.getD_eq_getElem?_getD, getElem?_window i hi, byte, List.getD_eq_getElem?_getD]

/-- `readIntegerUnaligned` returns the word at an address. -/
lemma readIntegerUnaligned_eq (h : m.HasWord a) : m.readIntegerUnaligned a = .ok (m.word a) := by
  have hget : m.get a 4 = .ok (window m.mem a.toNat 4) := get_eq h
  rw [readIntegerUnaligned, hget, word, beWord_eq_sum]
  show Except.ok (bytesToInteger _ _ _ _) = _
  rw [getD_window (by decide), getD_window (by decide), getD_window (by decide),
    getD_window (by decide)]
  rfl

/-- The test of alignment, for an address in memory. -/
lemma isAccessAligned_iff (h : m.InRange a 4) : isAccessAligned a 4 ↔ a.toNat % 4 = 0 := by
  rw [isAccessAligned, decide_eq_true_iff, ← BitVec.toInt_inj, BitVec.toInt_srem, h.toInt_eq,
    Int.tmod_eq_emod_of_nonneg (Int.natCast_nonneg _)]
  change (a.toNat : ℤ) % 4 = 0 ↔ _
  omega

lemma readInteger_eq (h : m.HasAlignedWord a) : m.readInteger a = .ok (m.word a) := by
  rw [readInteger, if_pos ((isAccessAligned_iff h.1).mpr h.2), readIntegerUnaligned_eq h.1]

lemma writeIntegerUnaligned_eq (h : m.HasWord a) :
    writeIntegerUnaligned a v m = .ok () (m.putWord a v) := by
  have hin : m.InRange a (beBytes v).length := h
  rw [writeIntegerUnaligned, integerToBytes, ← beBytes_eq_shift, set_eq hin, putWord_eq hin]

lemma writeInteger_eq (h : m.HasAlignedWord a) :
    writeInteger a v m = .ok () (m.putWord a v) := by
  rw [writeInteger, if_pos ((isAccessAligned_iff h.1).mpr h.2), writeIntegerUnaligned_eq h.1]

end MainMemory

section Access

variable {α : Type} {s : Machine} {a v : JInt}

lemma readIntegerUnaligned_bind (f : JInt → CpuM α) (h : s.mem.HasWord a) :
    (reading (·.readIntegerUnaligned a) >>= f) s = f (s.mem.word a) s :=
  reading_bind (readIntegerUnaligned_eq h) f

lemma readInteger_bind (f : JInt → CpuM α) (h : s.mem.HasAlignedWord a) :
    (reading (·.readInteger a) >>= f) s = f (s.mem.word a) s :=
  reading_bind (readInteger_eq h) f

lemma readUnaliged_bind (f : List Byte → CpuM α) {n : JInt} (h : s.mem.InRange a n.toNat) :
    (reading (·.readUnaliged a n) >>= f) s = f (window s.mem.mem a.toNat n.toNat) s :=
  reading_bind (by rw [readUnaliged, ← get_eq h, BitVec.ofNat_toNat, BitVec.setWidth_eq]) f

lemma writeIntegerUnaligned_run (h : s.mem.HasWord a) :
    changing (writeIntegerUnaligned a v) s = .ok () { s with mem := s.mem.putWord a v } :=
  changing_run (writeIntegerUnaligned_eq h)

lemma writeInteger_run (h : s.mem.HasAlignedWord a) :
    changing (writeInteger a v) s = .ok () { s with mem := s.mem.putWord a v } :=
  changing_run (writeInteger_eq h)

end Access

/-! ## The stages -/

/-- The first digit of a byte. -/
def hi (b : Byte) : BitVec 4 := b.extractLsb' 4 4

/-- The second digit of a byte. -/
def lo (b : Byte) : BitVec 4 := b.extractLsb' 0 4

lemma setWidth_hi (b : Byte) :
    ((b.setWidth 64 &&& (0xf0 : BitVec 64)) >>> 4).setWidth 4 = hi b := by
  revert b
  decide +kernel

lemma setWidth_lo (b : Byte) : (b.setWidth 64 &&& (0x0f : BitVec 64)).setWidth 4 = lo b := by
  revert b
  decide +kernel

lemma setWidth_imm (b : Byte) : (b.setWidth 64).setWidth 8 = b := by
  revert b
  decide +kernel

/-- The test of the length of an instruction, made on its first byte. -/
lemma isLong_iff (b : Byte) :
    ((b.setWidth 64 &&& (0xf0 : BitVec 64)) >>> 4 = 0 ∨
      (b.setWidth 64 &&& (0xf0 : BitVec 64)) >>> 4 = 0xb) ↔ (hi b = 0x0 ∨ hi b = 0xb) := by
  revert b
  decide +kernel

lemma hi_append_lo (b : Byte) : hi b ++ lo b = b := by
  revert b
  decide +kernel

namespace Machine

/-- The state that instructions act on. -/
def arch (s : Machine) : Arch := ⟨s.pc, s.reg, s.mem⟩

/-- The machine with another state for instructions to act on. -/
def withArch (s : Machine) (a : Arch) : Machine := { s with pc := a.pc, reg := a.reg, mem := a.mem }

/-- The bytes from the program counter on. -/
def insByte (s : Machine) (i : ℕ) : Byte := s.mem.byte (s.pc.toNat + i)

/-- The instruction at the program counter. -/
def instr? (s : Machine) : Option Instr :=
  decode (hi (s.insByte 0)) (lo (s.insByte 0)) (hi (s.insByte 1)) (lo (s.insByte 1))
    (s.mem.word (s.pc + 2))

/-- The state that the instruction at the program counter acts on: the program counter is already
that of the next instruction. -/
def next (s : Machine) : Arch := { s.arch with pc := s.pc + size (hi (s.insByte 0)) }

/-- The machine after `fetch`. -/
def fetched (s : Machine) : Machine :=
  { s with
    pc := s.pc + size (hi (s.insByte 0))
    instruction := (((s.mem.word s.pc).signExtend 64 <<< 16) +
      (s.mem.word (s.pc + 2)).signExtend 64).setWidth 48
    insOpCode := hi (s.insByte 0)
    insOp0 := lo (s.insByte 0)
    insOp1 := hi (s.insByte 1)
    insOp2 := lo (s.insByte 1)
    insOpImm := s.insByte 1
    insOpExt := if hi (s.insByte 0) = 0x0 ∨ hi (s.insByte 0) = 0xb then s.mem.word (s.pc + 2)
      else s.insOpExt }

/-- The instruction in the instruction registers. -/
def fetchedInstr? (s : Machine) : Option Instr :=
  decode s.insOpCode s.insOp0 s.insOp1 s.insOp2 s.insOpExt

end Machine

/-- The words that `fetch` reads are there. -/
lemma hasWord_of_inRange {s : Machine} (h : s.mem.InRange s.pc 6) :
    s.mem.HasWord s.pc ∧ s.mem.HasWord (s.pc + 2) := by
  simp only [InRange] at h
  have hadd : (s.pc + 2).toNat = s.pc.toNat + 2 := toNat_add_ofNat (m := s.mem) (i := 2) (by omega)
  simp only [HasWord, InRange, hadd]
  omega

/-- **`fetch`** loads the instruction registers and moves the program counter. -/
theorem fetch_eq (s : Machine) (h : s.mem.InRange s.pc 6) : fetch s = .ok () s.fetched := by
  obtain ⟨h₁, h₂⟩ := hasWord_of_inRange h
  have h₃ : s.mem.InRange s.pc (6 : JInt).toNat := h
  simp only [fetch, pcGet_bind, modify_bind, readIntegerUnaligned_bind, readUnaliged_bind, h₁, h₂,
    h₃]
  simp only [BitVec.reduceToNat, Nat.reduceLT, getD_window, setWidth_hi, setWidth_lo, setWidth_imm,
    isLong_iff]
  by_cases hlong : hi (s.insByte 0) = 0x0 ∨ hi (s.insByte 0) = 0xb
  · simp only [Machine.fetched, size, if_pos hlong]
    simp only [Machine.insByte] at hlong
    simp only [if_pos hlong, readIntegerUnaligned_bind, h₂, modify_run, Machine.insByte]
  · simp only [Machine.fetched, size, if_neg hlong]
    simp only [Machine.insByte] at hlong
    simp only [if_neg hlong, pcSet_run, Machine.insByte]

section Registers

variable {α : Type} {s : Machine} {x : BitVec 4} {r : Fin 8}

/-- The number of a register, as the code reads it. -/
lemma toNat_of_reg? (h : reg? x = some r) : (x.setWidth 32).toNat = r := by
  simp only [reg?] at h
  split_ifs at h with hx
  cases h
  simp
  omega

lemma regGet_bind (h : reg? x = some r) (f : JInt → CpuM α) :
    (regGet (x.setWidth 32) >>= f) s = f (s.reg r) s :=
  bind_run (by simp [regGet, toNat_of_reg? h]) f

lemma regSet_run (h : reg? x = some r) (v : JInt) :
    regSet (x.setWidth 32) v s = .ok () { s with reg := Function.update s.reg r v } := by
  have hr := toNat_of_reg? h
  simp [regSet, hr]

end Registers

/-- An effective address, as the code adds it up. -/
lemma mul_four_add (i b : JInt) : i * 4 + b = b + 4 * i := by
  rw [BitVec.add_comm, BitVec.mul_comm]

lemma add_mul_four (i b : JInt) : b + i * 4 = b + 4 * i := by
  rw [BitVec.mul_comm]

/-- The ALU instructions. -/
lemma executeAlu_eq {s : Machine} {i : Instr} (hop : s.insOpCode.toNat = 6)
    (hi : s.fetchedInstr? = some i) :
    executeAlu s = .ok () (s.withArch (i.run s.arch)) ∧ i ≠ .halt := by
  simp only [Machine.fetchedInstr?, decode, hop] at hi
  simp only [executeAlu, get_bind]
  split at hi <;> simp only [Option.map_eq_some_iff, Option.bind_eq_bind, Option.bind_eq_some_iff,
      Option.pure_def, Option.some.injEq, reduceCtorEq] at hi
  case h_1 h =>
    -- move
    obtain ⟨r, hr, d, hd, rfl⟩ := hi
    simp [h, regGet_bind hr, regSet_run hd]
    rfl
  case h_2 h | h_3 h =>
    -- add, and
    obtain ⟨r, hr, d, hd, rfl⟩ := hi
    simp [h, regGet_bind hr, regGet_bind hd, regSet_run hd]
    rfl
  case h_4 h | h_5 h | h_6 h | h_7 h | h_8 h =>
    -- increments, decrements, not
    obtain ⟨d, hd, rfl⟩ := hi
    simp [h, regGet_bind hd, regSet_run hd]
    rfl
  case h_9 h =>
    -- get pc
    obtain ⟨d, hd, rfl⟩ := hi
    simp [h, regSet_run hd]
    rfl

/-- **`execute`** has the effect of the instruction in the instruction registers. -/
theorem execute_eq (s : Machine) (i : Instr) (himm : s.insOpImm = s.insOp1 ++ s.insOp2)
    (hi : s.fetchedInstr? = some i) (he : i.Enabled s.arch) :
    execute s = if i = .halt then .error .machineHalt s
      else .ok () (s.withArch (i.run s.arch)) := by
  have hdec := hi
  simp only [Machine.fetchedInstr?, decode, ← himm] at hi
  simp only [execute, get_bind]
  split at hi
  case h_6 h =>
    -- the ALU instructions
    obtain ⟨e, hne⟩ := executeAlu_eq h hdec
    simp [h, e, hne]
  case h_14 h =>
    -- halt and nop
    split at hi
    case h_1 h' =>
      cases hi
      simp [h, h']
    case h_2 h' =>
      cases hi
      simp [h, h']
      rfl
    case h_3 => cases hi
  all_goals simp only [Option.map_eq_some_iff, Option.bind_eq_bind, Option.bind_eq_some_iff,
      Option.pure_def, Option.some.injEq, reduceCtorEq] at hi
  case h_1 h =>
    -- load immediate
    obtain ⟨d, hd, rfl⟩ := hi
    simp [h, regSet_run hd]
    rfl
  case h_2 h =>
    -- load base + offset
    obtain ⟨b, hb, d, hd, rfl⟩ := hi
    have hw : s.mem.HasWord (s.reg b + 4 * s.insOp0.setWidth 32) := he
    simp only [h, insOp0Get_bind, insOp1Get_bind, insOp2Get_bind, regGet_bind hb, mul_four_add,
      readIntegerUnaligned_bind, hw, regSet_run hd]
    rfl
  case h_3 h =>
    -- load indexed
    obtain ⟨b, hb, k, hk, d, hd, rfl⟩ := hi
    have hw : s.mem.HasWord (s.reg b + 4 * s.reg k) := he
    simp only [h, insOp0Get_bind, insOp1Get_bind, insOp2Get_bind, regGet_bind hb, regGet_bind hk,
      add_mul_four, readIntegerUnaligned_bind, hw, regSet_run hd]
    rfl
  case h_4 h =>
    -- store base + offset
    obtain ⟨r, hr, d, hd, rfl⟩ := hi
    have hw : s.mem.HasWord (s.reg d + 4 * s.insOp1.setWidth 32) := he
    simp only [h, insOp0Get_bind, insOp1Get_bind, insOp2Get_bind, regGet_bind hr, regGet_bind hd,
      mul_four_add, writeIntegerUnaligned_run, hw]
    rfl
  case h_5 h =>
    -- store indexed
    obtain ⟨r, hr, d, hd, k, hk, rfl⟩ := hi
    have hw : s.mem.HasAlignedWord (s.reg d + 4 * s.reg k) := he
    simp only [h, insOp0Get_bind, insOp1Get_bind, insOp2Get_bind, regGet_bind hr, regGet_bind hd,
      regGet_bind hk, add_mul_four, writeInteger_run, hw]
    rfl
  case h_7 h =>
    -- branch
    subst hi
    simp [h, BitVec.mul_comm]
    rfl
  case h_8 h =>
    -- branch if equal
    obtain ⟨r, hr, rfl⟩ := hi
    by_cases hz : s.reg r = 0#32
    · simp [h, regGet_bind hr, BitVec.mul_comm, Instr.run, Machine.arch, hz]
      rfl
    · simp [h, regGet_bind hr, Instr.run, Machine.arch, hz]
      rfl
  case h_9 h =>
    -- branch if greater
    obtain ⟨r, hr, rfl⟩ := hi
    by_cases hp : 0 < (s.reg r).toInt
    · simp [h, regGet_bind hr, BitVec.mul_comm, Instr.run, Machine.arch, hp]
      rfl
    · simp [h, regGet_bind hr, Instr.run, Machine.arch, hp]
      rfl
  case h_10 h =>
    -- jump
    subst hi
    simp [h]
    rfl
  case h_11 h =>
    -- indirect jump
    obtain ⟨t, ht, rfl⟩ := hi
    simp [h, regGet_bind ht, BitVec.mul_comm]
    rfl
  case h_12 h =>
    -- double indirect jump base + offset
    obtain ⟨t, ht, rfl⟩ := hi
    have hw : s.mem.HasAlignedWord (s.reg t + 4 * s.insOpImm.signExtend 32) := he
    simp only [h, insOp0Get_bind, insOpImmGet_bind, regGet_bind ht, add_mul_four, readInteger_bind,
      hw, pcSet_run]
    rfl
  case h_13 h =>
    -- double indirect jump indexed
    obtain ⟨t, ht, k, hk, rfl⟩ := hi
    have hw : s.mem.HasAlignedWord (s.reg t + 4 * s.reg k) := he
    simp only [h, insOp0Get_bind, insOp1Get_bind, regGet_bind ht, regGet_bind hk, add_mul_four,
      readInteger_bind, hw, pcSet_run]
    rfl

/-- The short instructions do not use the four bytes that follow them. -/
lemma decode_of_short {o x y z : BitVec 4} (h : ¬ (o = 0x0 ∨ o = 0xb)) (e e' : JInt) :
    decode o x y z e = decode o x y z e' := by
  simp only [decode]
  split
  case h_1 ho => exact absurd (.inl (BitVec.eq_of_toNat_eq ho)) h
  case h_10 ho => exact absurd (.inr (BitVec.eq_of_toNat_eq ho)) h
  all_goals rfl

/-- What is in the instruction registers after `fetch` is the instruction at the program
counter. -/
lemma fetchedInstr?_fetched (s : Machine) : s.fetched.fetchedInstr? = s.instr? := by
  simp only [Machine.fetchedInstr?, Machine.instr?, Machine.fetched]
  split_ifs with hlong
  · rfl
  · exact decode_of_short hlong _ _

/-- A cycle, with the instruction registers it leaves. -/
theorem cycle_eq {s : Machine} {i : Instr} (hpc : s.mem.InRange s.pc 6) (hi : s.instr? = some i)
    (he : i.Enabled s.next) :
    cycle s = if i = .halt then .error .machineHalt s.fetched
      else .ok () (s.fetched.withArch (i.run s.next)) := by
  have himm : s.fetched.insOpImm = s.fetched.insOp1 ++ s.fetched.insOp2 := (hi_append_lo _).symm
  exact (bind_run (fetch_eq s hpc) _).trans
    (execute_eq s.fetched i himm ((fetchedInstr?_fetched s).trans hi) he)

/-- **A cycle implements the instruction set**: if the six bytes at the program counter can be
read, hold an instruction and the words it accesses are there, the cycle has the effect of that
instruction on the registers, the memory and the program counter, and on nothing else of them. It
throws the exception of `halt` for that instruction, and none for the others. -/
theorem cycle_eq_run (s : Machine) (i : Instr) (hpc : s.mem.InRange s.pc 6)
    (hi : s.instr? = some i) (he : i.Enabled s.next) :
    ∃ t : Machine, t.arch = i.run s.next ∧
      cycle s = if i = .halt then .error .machineHalt t else .ok () t := by
  rw [cycle_eq hpc hi he]
  split_ifs with hhalt
  · exact ⟨s.fetched, by rw [hhalt]; rfl, rfl⟩
  · exact ⟨s.fetched.withArch (i.run s.next), rfl, rfl⟩

/-- A machine about to store `r1` at `r2 + 4 * r3`. -/
def storing : Machine :=
  boot 0 (fun r => [0, 0x01020304, 4, 1].getD r 0)
    ⟨[0x41, 0x23, 0, 0, 0, 0, 0, 0, 0, 0, 0, 0], by decide⟩

theorem cycle_storing : ∃ t : Machine, t.arch = Instr.run storing.next (.storeIndexed 1 2 3) ∧
    cycle storing = .ok () t :=
  cycle_eq_run storing (.storeIndexed 1 2 3) (by decide) (by decide) ⟨by decide, by decide⟩

end SM213
