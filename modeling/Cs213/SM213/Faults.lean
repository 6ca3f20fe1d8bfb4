import Cs213.Library.Outcomes
import Cs213.SM213.Cycle

set_option relaxedAutoImplicit false
set_option autoImplicit false

/-!
# Faults

What `get`, `set` and `execute` do when they do not do what they are called for. An access whose
end is beyond the largest `int` passes the test of `get` and `set`, and fails in the array.

## Main definitions

* `SM213.Torn` — a write that fails after it has changed memory.
* `SM213.Machine.Stores` — the instruction registers hold a store.
* `SM213.Machine.Performs`, `SM213.Machine.Fails` — the ways in which `execute` ends.

## Main results

* `SM213.MainMemory.get_of_wraps`, `SM213.MainMemory.set_of_wraps` — accesses beyond the largest
  `int`.
* `SM213.execute_ends` — how `execute` ends, for every encoding.
* `SM213.fetch_error` — `fetch` fails before it changes anything.
-/

namespace SM213

open Bytes MainMemory Outcomes

/-! ## Accesses beyond the largest `int` -/

instance (address : JInt) (n : ℕ) : Decidable (Wraps address n) :=
  inferInstanceAs (Decidable (_ ∧ _))

/-- A write that begins in memory and ends beyond the largest `int` differs, in the part that is
in memory, from what is there. -/
def Torn (m : MainMemory) (address : JInt) (value : List Byte) : Prop :=
  Wraps address value.length ∧
    ∃ j, address.toNat ≤ j ∧ j < m.length ∧ value[j - address.toNat]? ≠ m.mem[j]?

namespace MainMemory

variable {m : MainMemory} {a v : JInt} {n : ℕ}

/-- An address that is not negative. -/
lemma toInt_eq_of_wraps (hw : Wraps a n) : a.toInt = a.toNat ∧ a.toNat < 2 ^ 31 := by
  have h := a.toInt_eq_toNat_cond
  have h₀ := hw.1
  split_ifs at h <;> omega

/-- The address of element `i` of a range. -/
lemma toNat_add_of_lt {i : ℕ} (h : a.toNat + i < 2 ^ 32) :
    (a + BitVec.ofNat 32 i).toNat = a.toNat + i := by
  rw [BitVec.toNat_add, BitVec.toNat_ofNat]
  omega

/-- The loop of `get`, on a range that ends beyond memory. -/
lemma loadFrom_of_lt {i : ℕ} (hn : 0 < n) (h : m.length < a.toNat + i + n)
    (h' : a.toNat + i + n ≤ 2 ^ 32) : m.loadFrom a i n = .error .arrayIndexOutOfBounds := by
  induction n generalizing i with
  | zero => exact absurd hn (Nat.lt_irrefl 0)
  | succ n ih =>
    rw [loadFrom, load, toNat_add_of_lt (by omega)]
    by_cases hi : a.toNat + i < m.mem.length
    · simp only [length] at h
      rw [List.getElem?_eq_getElem hi]
      simp only [ih (i := i + 1) (by omega) (by simp only [length]; omega) (by omega)]
      rfl
    · rw [List.getElem?_eq_none (Nat.le_of_not_lt hi)]
      rfl

/-- **`get` beyond the largest `int`** throws the exception of the array. -/
theorem get_of_wraps (hn : n < 2 ^ 31) (hw : Wraps a n) :
    m.get a (BitVec.ofNat 32 n) = .error .arrayIndexOutOfBounds := by
  have := m.length_lt
  obtain ⟨h₁, h₂⟩ := toInt_eq_of_wraps hw
  have hend := hw.2
  have htoNat : (BitVec.ofNat 32 n).toNat = n := by
    rw [BitVec.toNat_ofNat]
    omega
  have htoInt : ¬ (BitVec.ofNat 32 n).toInt < 0 := by
    rw [BitVec.toInt_eq_toNat_of_lt (by omega)]
    omega
  rw [get, if_neg (not_outside_of_wraps hn hw), if_neg htoInt, htoNat]
  exact loadFrom_of_lt (by omega) (by simp only [length]; omega) (by omega)

/-- A range that is not in memory does not pass the test, unless the sum wraps. -/
lemma outside_of_not_inRange (hn : 0 < n) (h : ¬ m.InRange a n) (hw : ¬ Wraps a n) :
    m.outside a (BitVec.ofNat 32 n) := by
  apply outside_of_not_contained _ hw
  intro hc
  exact h (inRange_of_contained hc fun he => absurd he.1 (Nat.ne_of_gt hn))

/-- `get` outside of memory, unless the sum wraps. -/
lemma get_of_not_inRange (hn : 0 < n) (h : ¬ m.InRange a n) (hw : ¬ Wraps a n) :
    m.get a (BitVec.ofNat 32 n) = .error .invalidAddress := by
  rw [get, if_pos (outside_of_not_inRange hn h hw)]

/-- A range beyond the largest `int` is not in memory. -/
lemma not_inRange_of_wraps (hw : Wraps a n) : ¬ m.InRange a n := by
  have := m.length_lt
  have := hw.2
  have := (toInt_eq_of_wraps hw).1
  simp only [InRange, length]
  omega

/-- The loop of `set`, on a range that ends beyond memory: what is in memory is written. -/
lemma storeFrom_of_lt {i : ℕ} {value : List Byte} (hn : 0 < value.length)
    (h : m.length < a.toNat + i + value.length) (h' : a.toNat + i + value.length ≤ 2 ^ 32) :
    ∃ m', storeFrom a i value m = .error .arrayIndexOutOfBounds m' ∧ m'.length = m.length ∧
      ∀ j < m.length, m'.mem[j]? =
        if a.toNat + i ≤ j then value[j - (a.toNat + i)]? else m.mem[j]? := by
  induction value generalizing i m with
  | nil => exact absurd hn (Nat.lt_irrefl 0)
  | cons b bs ih =>
    simp only [List.length_cons, length] at h h'
    by_cases hi : a.toNat + i < m.mem.length
    · let m₁ : MainMemory :=
        ⟨m.mem.set (a.toNat + i) b, by rw [List.length_set]; exact m.length_lt⟩
      have hlen : m₁.length = m.length := List.length_set
      obtain ⟨m', hm', hlen', hbytes⟩ := ih (m := m₁) (i := i + 1) (by omega)
        (by rw [hlen, length]; omega) (by omega)
      refine ⟨m', ?_, by rw [hlen', hlen], fun j hj => ?_⟩
      · rw [← hm', storeFrom]
        simp only [bind, EStateM.bind, store, toNat_add_of_lt (a := a) (i := i) (by omega),
          if_pos hi]
        rfl
      · rw [hbytes j (by rw [hlen]; exact hj)]
        rcases Nat.lt_trichotomy j (a.toNat + i) with hlt | rfl | hgt
        · rw [if_neg (by omega), if_neg (by omega)]
          exact List.getElem?_set_ne (by omega)
        · rw [if_neg (by omega), if_pos (Nat.le_refl _), Nat.sub_self]
          exact List.getElem?_set_self hi
        · have hsub : j - (a.toNat + i) = j - (a.toNat + (i + 1)) + 1 := by omega
          rw [if_pos (by omega), if_pos (by omega), hsub, List.getElem?_cons_succ]
    · refine ⟨m, ?_, rfl, fun j hj => ?_⟩
      · simp only [storeFrom, bind, EStateM.bind, store,
          toNat_add_of_lt (a := a) (i := i) (by omega), if_neg hi]
      · simp only [length] at hj
        rw [if_neg (by omega)]

/-- **`set` beyond the largest `int`** throws the exception of the array, and memory is as before
exactly if what has been written was there before. What is below the address is as before anyway. -/
theorem set_of_wraps {value : List Byte} (hn : value.length < 2 ^ 31)
    (hw : Wraps a value.length) :
    ∃ m', MainMemory.set a value m = .error .arrayIndexOutOfBounds m' ∧
      (m' = m ↔ ¬ Torn m a value) ∧ m'.length = m.length ∧
      ∀ j < a.toNat, m'.mem[j]? = m.mem[j]? := by
  have := m.length_lt
  obtain ⟨h₁, h₂⟩ := toInt_eq_of_wraps hw
  have hend := hw.2
  obtain ⟨m', hm', hlen, hbytes⟩ := @storeFrom_of_lt m a 0 value (by omega)
    (by simp only [length]; omega) (by omega)
  simp only [Nat.add_zero] at hbytes
  refine ⟨m', by rw [MainMemory.set, if_neg (not_outside_of_wraps hn hw), hm'], ?_, hlen,
    fun j hj => ?_⟩
  swap
  · by_cases hlt : j < m.length
    · rw [hbytes j hlt, if_neg (Nat.not_le.mpr hj)]
    · simp only [length] at hlt hlen
      rw [List.getElem?_eq_none (by omega), List.getElem?_eq_none (by omega)]
  constructor
  · rintro rfl ⟨-, j, hle, hlt, hne⟩
    have hj := hbytes j hlt
    rw [if_pos hle] at hj
    exact hne hj.symm
  · intro htorn
    have hmem : m'.mem = m.mem := by
      apply List.ext_getElem?
      intro j
      by_cases hj : j < m.length
      · rw [hbytes j hj]
        split_ifs with hle
        · by_contra hne
          exact htorn ⟨hw, j, hle, hj, hne⟩
        · rfl
      · simp only [length] at hj hlen
        rw [List.getElem?_eq_none (by omega), List.getElem?_eq_none (by omega)]
    cases m'
    cases m
    simpa using hmem

/-! ### Words -/

lemma length_integerToBytes : (integerToBytes v).length = 4 := rfl

/-- `readIntegerUnaligned` where there is no word. -/
lemma readIntegerUnaligned_of_not_hasWord (h : ¬ m.HasWord a) :
    m.readIntegerUnaligned a =
      .error (if Wraps a 4 then .arrayIndexOutOfBounds else .invalidAddress) := by
  by_cases hw : Wraps a 4
  · have hget : m.get a 4 = .error .arrayIndexOutOfBounds := get_of_wraps (by decide) hw
    rw [if_pos hw, readIntegerUnaligned, hget]
    rfl
  · have hget : m.get a 4 = .error .invalidAddress := get_of_not_inRange (by decide) h hw
    rw [if_neg hw, readIntegerUnaligned, hget]
    rfl

/-- `writeIntegerUnaligned` where there is no word, unless the sum wraps. -/
lemma writeIntegerUnaligned_of_not_hasWord (h : ¬ m.HasWord a) (hw : ¬ Wraps a 4) :
    writeIntegerUnaligned a v m = .error .invalidAddress m := by
  have hout : m.outside a (BitVec.ofNat 32 (integerToBytes v).length) :=
    outside_of_not_inRange (by rw [length_integerToBytes]; decide) h hw
  rw [writeIntegerUnaligned, MainMemory.set, if_pos hout]

/-- `writeIntegerUnaligned` beyond the largest `int`. -/
lemma writeIntegerUnaligned_of_wraps (hw : Wraps a 4) :
    ∃ m', writeIntegerUnaligned a v m = .error .arrayIndexOutOfBounds m' ∧
      (m' = m ↔ ¬ Torn m a (integerToBytes v)) ∧ m'.length = m.length ∧
      ∀ j < a.toNat, m'.mem[j]? = m.mem[j]? :=
  set_of_wraps (by rw [length_integerToBytes]; decide) hw

/-- `writeIntegerUnaligned` throws the exception of the array only beyond the largest `int`. -/
lemma wraps_of_writeIntegerUnaligned {m' : MainMemory}
    (h : writeIntegerUnaligned a v m = .error .arrayIndexOutOfBounds m') : Wraps a 4 := by
  by_contra hw
  by_cases ha : m.HasWord a
  · rw [writeIntegerUnaligned_eq ha] at h
    cases h
  · rw [writeIntegerUnaligned_of_not_hasWord ha hw] at h
    cases h

end MainMemory

/-! ## How `execute` ends -/

namespace Machine

/-- The instruction registers hold a store base + offset, of the word `v` at the address `a`. -/
def StoresBase (s : Machine) (a v : JInt) : Prop :=
  s.insOpCode.toNat = 0x3 ∧ ∃ r d, reg? s.insOp0 = some r ∧ reg? s.insOp2 = some d ∧
    s.reg d + 4 * s.insOp1.setWidth 32 = a ∧ s.reg r = v

/-- The instruction registers hold a store indexed, of the word `v` at the address `a`. -/
def StoresIndexed (s : Machine) (a v : JInt) : Prop :=
  s.insOpCode.toNat = 0x4 ∧ ∃ r d i, reg? s.insOp0 = some r ∧ reg? s.insOp1 = some d ∧
    reg? s.insOp2 = some i ∧ s.reg d + 4 * s.reg i = a ∧ s.reg r = v

/-- The instruction registers hold a store that is not refused because of its alignment. -/
def Stores (s : Machine) (a v : JInt) : Prop :=
  s.StoresBase a v ∨ s.StoresIndexed a v ∧ isAccessAligned a 4

/-- The encoding has no instruction in one of the two inner `switch` statements. -/
def Hole (s : Machine) : Prop :=
  s.insOpCode.toNat = 0x6 ∧ 0x8 ≤ s.insOp0.toNat ∧ s.insOp0.toNat < 0xf ∨
    s.insOpCode.toNat = 0xf ∧ 0x0 < s.insOp0.toNat ∧ s.insOp0.toNat < 0xf

instance (s : Machine) : Decidable s.Hole := inferInstanceAs (Decidable (_ ∨ _))

/-- The digits of the encoding that are numbers of registers. -/
def registers (s : Machine) : List (BitVec 4) :=
  match s.insOpCode.toNat with
  | 0x0 | 0x7 | 0x9 | 0xa | 0xc | 0xd => [s.insOp0]
  | 0x1 => [s.insOp1, s.insOp2]
  | 0x2 | 0x4 => [s.insOp0, s.insOp1, s.insOp2]
  | 0x3 => [s.insOp0, s.insOp2]
  | 0x6 =>
    match s.insOp0.toNat with
    | 0x0 | 0x1 | 0x2 => [s.insOp1, s.insOp2]
    | 0x3 | 0x4 | 0x5 | 0x6 | 0x7 | 0xf => [s.insOp2]
    | _ => []
  | 0xe => [s.insOp0, s.insOp1]
  | _ => []

/-- **A bad register**: one of these digits is not the number of a register. -/
def BadRegister (s : Machine) : Prop := ∃ x ∈ s.registers, reg? x = none

/-- The address of the word that the encoding accesses, when the registers from which it is computed
exist, and whether it has to be a multiple of 4. -/
def access? (s : Machine) : Option (JInt × Bool) :=
  match s.insOpCode.toNat with
  | 0x1 => return (s.reg (← reg? s.insOp1) + 4 * s.insOp0.setWidth 32, false)
  | 0x2 => return (s.reg (← reg? s.insOp0) + 4 * s.reg (← reg? s.insOp1), false)
  | 0x3 => return (s.reg (← reg? s.insOp2) + 4 * s.insOp1.setWidth 32, false)
  | 0x4 => return (s.reg (← reg? s.insOp1) + 4 * s.reg (← reg? s.insOp2), true)
  | 0xd => return (s.reg (← reg? s.insOp0) + 4 * s.insOpImm.signExtend 32, true)
  | 0xe => return (s.reg (← reg? s.insOp0) + 4 * s.reg (← reg? s.insOp1), true)
  | _ => none

/-- **A bad address**: there is no word at the address that is accessed, or none that can be
accessed there. -/
def BadAddress (s : Machine) : Prop :=
  ∃ a, s.access? = some (a, false) ∧ ¬ s.mem.HasWord a ∨
    s.access? = some (a, true) ∧ ¬ s.mem.HasAlignedWord a

/-- What a shift puts into its register: the number of the register is shifted. -/
def shifted (s : Machine) : JInt :=
  let rd : JInt := s.insOp0.setWidth 32
  let v : JInt := s.insOpImm.signExtend 32
  if v.toInt < 0 then rd.sshiftRight (v &&& 31).toNat else rd <<< (v &&& 31).toNat

/-- **The ways to end without an exception.** -/
inductive Performs (s : Machine) : Machine → Prop
  | instr {i : Instr} (hi : s.fetchedInstr? = some i) (he : i.Enabled s.arch) (hne : i ≠ .halt) :
    Performs s (s.withArch (i.run s.arch))
  | shift {d : Fin 8} (hop : s.insOpCode.toNat = 0x7) (hd : reg? s.insOp0 = some d) :
    Performs s { s with reg := Function.update s.reg d s.shifted }
  | hole (h : s.Hole) : Performs s s

/-- **The ways to end with an exception.** -/
inductive Fails (s : Machine) : Exc → Machine → Prop
  | register (h : s.BadRegister) : Fails s .invalidRegisterNumber s
  | address {e : Exc} (h : s.BadAddress) (he : e = .invalidAddress ∨ e = .arrayIndexOutOfBounds) :
    Fails s e s
  | store {a v : JInt} {m : MainMemory} (hst : s.Stores a v)
    (hset : writeIntegerUnaligned a v s.mem = .error .arrayIndexOutOfBounds m) :
    Fails s .arrayIndexOutOfBounds { s with mem := m }
  | halt (hi : s.fetchedInstr? = some .halt) : Fails s .machineHalt s
  | opcode (hop : s.insOpCode.toNat = 0x5) : Fails s .invalidInstruction s

end Machine

section Throw

variable {α β : Type} {s t : Machine} {e : Exc}

/-- What follows a method that throws is not run. -/
lemma bind_error {x : CpuM α} (h : x s = .error e t) (f : α → CpuM β) :
    (x >>= f) s = .error e t := by
  simp only [bind, EStateM.bind, h]

lemma changing_error {x : EStateM Exc MainMemory Unit} {m : MainMemory}
    (h : x s.mem = .error e m) : changing x s = .error e { s with mem := m } := by
  simp only [changing, h]

end Throw

section Ends

variable {β : Type} {s : Machine} {x : BitVec 4} {a v : JInt} {f : JInt → CpuM β}
  {Q : β → Machine → Prop}

lemma ends_get {f : Machine → CpuM β} :
    Ends (get >>= f) s Q s.Fails ↔ Ends (f s) s Q s.Fails :=
  ends_bind_of_ok rfl

lemma ends_pcGet : Ends (pcGet >>= f) s Q s.Fails ↔ Ends (f s.pc) s Q s.Fails :=
  ends_bind_of_ok rfl

lemma ends_insOp0Get :
    Ends (insOp0Get >>= f) s Q s.Fails ↔ Ends (f (s.insOp0.setWidth 32)) s Q s.Fails :=
  ends_bind_of_ok rfl

lemma ends_insOp1Get :
    Ends (insOp1Get >>= f) s Q s.Fails ↔ Ends (f (s.insOp1.setWidth 32)) s Q s.Fails :=
  ends_bind_of_ok rfl

lemma ends_insOp2Get :
    Ends (insOp2Get >>= f) s Q s.Fails ↔ Ends (f (s.insOp2.setWidth 32)) s Q s.Fails :=
  ends_bind_of_ok rfl

lemma ends_insOpImmGet :
    Ends (insOpImmGet >>= f) s Q s.Fails ↔ Ends (f (s.insOpImm.signExtend 32)) s Q s.Fails :=
  ends_bind_of_ok rfl

lemma ends_insOpExtGet : Ends (insOpExtGet >>= f) s Q s.Fails ↔ Ends (f s.insOpExt) s Q s.Fails :=
  ends_bind_of_ok rfl

/-- A number that is not that of a register, as the code reads it. -/
lemma not_lt_of_reg?_eq_none (h : reg? x = none) : ¬ (x.setWidth 32).toNat < 8 := by
  unfold reg? at h
  split_ifs at h with hx
  rw [BitVec.toNat_setWidth]
  omega

/-- A register is read. -/
lemma ends_regGet (hx : x ∈ s.registers)
    (h : ∀ r, reg? x = some r → Ends (f (s.reg r)) s Q s.Fails) :
    Ends (regGet (x.setWidth 32) >>= f) s Q s.Fails := by
  apply Ends.bind
  cases hr : reg? x with
  | none => exact .of_error (dif_neg (not_lt_of_reg?_eq_none hr)) (.register ⟨x, hx, hr⟩)
  | some r => exact .of_ok (by simp [regGet, toNat_of_reg? hr]) (h r hr)

/-- A register is written. -/
lemma ends_regSet {Q : Unit → Machine → Prop} (hx : x ∈ s.registers)
    (h : ∀ r, reg? x = some r → Q () { s with reg := Function.update s.reg r v }) :
    Ends (regSet (x.setWidth 32) v) s Q s.Fails := by
  cases hr : reg? x with
  | none => exact .of_error (dif_neg (not_lt_of_reg?_eq_none hr)) (.register ⟨x, hx, hr⟩)
  | some r => exact .of_ok (regSet_run hr v) (h r hr)

/-- A register is read and written. -/
lemma ends_updating {g : JInt → JInt} (hx : x ∈ s.registers) (h : ∀ d, reg? x = some d →
      s.Performs { s with reg := Function.update s.reg d (g (s.reg d)) }) :
    Ends (regGet (x.setWidth 32) >>= fun v => regSet (x.setWidth 32) (g v)) s
      (fun _ t => s.Performs t) s.Fails := by
  refine ends_regGet hx fun d hd => ends_regSet hx fun d' hd' => ?_
  obtain rfl : d = d' := Option.some.inj (hd.symm.trans hd')
  exact h d hd

/-- A word is read that is not there. -/
lemma reading_of_not_hasWord (h : ¬ s.mem.HasWord a) : reading (·.readIntegerUnaligned a) s =
    .error (if Wraps a 4 then .arrayIndexOutOfBounds else .invalidAddress) s := by
  simp only [reading, readIntegerUnaligned_of_not_hasWord h]

/-- A word is read. -/
lemma ends_readIntegerUnaligned (hbad : ¬ s.mem.HasWord a → s.BadAddress)
    (h : s.mem.HasWord a → Ends (f (s.mem.word a)) s Q s.Fails) :
    Ends (reading (·.readIntegerUnaligned a) >>= f) s Q s.Fails := by
  apply Ends.bind
  by_cases ha : s.mem.HasWord a
  · exact .of_ok (by simp only [reading, readIntegerUnaligned_eq ha]) (h ha)
  · refine .of_error (reading_of_not_hasWord ha) (.address (hbad ha) ?_)
    split_ifs
    · exact .inr rfl
    · exact .inl rfl

/-- A word is read, with the test of alignment. -/
lemma ends_readInteger (hacc : s.access? = some (a, true))
    (h : s.mem.HasAlignedWord a → Ends (f (s.mem.word a)) s Q s.Fails) :
    Ends (reading (·.readInteger a) >>= f) s Q s.Fails := by
  by_cases hal : isAccessAligned a 4
  · simp only [readInteger, if_pos hal]
    exact ends_readIntegerUnaligned (fun ha => ⟨a, .inr ⟨hacc, fun hw => ha hw.1⟩⟩) fun ha =>
      h ⟨ha, (isAccessAligned_iff ha).mp hal⟩
  · apply Ends.bind
    have hbad : s.BadAddress :=
      ⟨a, .inr ⟨hacc, fun hw => hal ((isAccessAligned_iff hw.1).mpr hw.2)⟩⟩
    exact .of_error (by simp only [reading, readInteger, if_neg hal]) (.address hbad (.inl rfl))

/-- A word is written. -/
lemma ends_writeIntegerUnaligned {Q : Unit → Machine → Prop} (hst : s.Stores a v)
    (hbad : ¬ s.mem.HasWord a → s.BadAddress)
    (h : s.mem.HasWord a → Q () { s with mem := s.mem.putWord a v }) :
    Ends (changing (writeIntegerUnaligned a v)) s Q s.Fails := by
  by_cases ha : s.mem.HasWord a
  · exact .of_ok (writeIntegerUnaligned_run ha) (h ha)
  · by_cases hw : Wraps a 4
    · obtain ⟨m', hm', -⟩ := writeIntegerUnaligned_of_wraps (m := s.mem) (v := v) hw
      exact .of_error (changing_error hm') (.store hst hm')
    · exact .of_error (changing_error (writeIntegerUnaligned_of_not_hasWord ha hw))
        (.address (hbad ha) (.inl rfl))

/-- A word is written, with the test of alignment. -/
lemma ends_writeInteger {Q : Unit → Machine → Prop} (hst : s.StoresIndexed a v)
    (hacc : s.access? = some (a, true))
    (h : s.mem.HasAlignedWord a → Q () { s with mem := s.mem.putWord a v }) :
    Ends (changing (writeInteger a v)) s Q s.Fails := by
  by_cases hal : isAccessAligned a 4
  · simp only [writeInteger, if_pos hal]
    exact ends_writeIntegerUnaligned (.inr ⟨hst, hal⟩)
      (fun ha => ⟨a, .inr ⟨hacc, fun hw => ha hw.1⟩⟩) fun ha =>
        h ⟨ha, (isAccessAligned_iff ha).mp hal⟩
  · have hbad : s.BadAddress :=
      ⟨a, .inr ⟨hacc, fun hw => hal ((isAccessAligned_iff hw.1).mpr hw.2)⟩⟩
    refine .of_error ?_ (.address hbad (.inl rfl))
    simp only [changing, writeInteger, if_neg hal]
    rfl

end Ends

/-- How the ALU instructions end. -/
lemma executeAlu_ends {s : Machine} (hop : s.insOpCode.toNat = 0x6) :
    Ends executeAlu s (fun _ t => s.Performs t) s.Fails := by
  unfold executeAlu
  rw [ends_get]
  split
  case h_1 h =>
    -- move
    have hreg : s.registers = [s.insOp1, s.insOp2] := by simp [Machine.registers, hop, h]
    simp only [ends_insOp1Get, ends_insOp2Get]
    refine ends_regGet (by simp [hreg]) fun r hr => ends_regSet (by simp [hreg]) fun d hd => ?_
    exact .instr (i := .mov r d) (by simp [Machine.fetchedInstr?, decode, hop, h, hr, hd])
      trivial (by simp)
  case h_2 h =>
    -- add
    have hreg : s.registers = [s.insOp1, s.insOp2] := by simp [Machine.registers, hop, h]
    simp only [ends_insOp1Get, ends_insOp2Get]
    refine ends_regGet (by simp [hreg]) fun r hr => ends_regGet (by simp [hreg]) fun d hd =>
      ends_regSet (by simp [hreg]) fun d' hd' => ?_
    obtain rfl : d = d' := Option.some.inj (hd.symm.trans hd')
    exact .instr (i := .add r d) (by simp [Machine.fetchedInstr?, decode, hop, h, hr, hd])
      trivial (by simp)
  case h_3 h =>
    -- and
    have hreg : s.registers = [s.insOp1, s.insOp2] := by simp [Machine.registers, hop, h]
    simp only [ends_insOp1Get, ends_insOp2Get]
    refine ends_regGet (by simp [hreg]) fun r hr => ends_regGet (by simp [hreg]) fun d hd =>
      ends_regSet (by simp [hreg]) fun d' hd' => ?_
    obtain rfl : d = d' := Option.some.inj (hd.symm.trans hd')
    exact .instr (i := .and r d) (by simp [Machine.fetchedInstr?, decode, hop, h, hr, hd])
      trivial (by simp)
  case h_4 h =>
    -- increment
    simp only [ends_insOp2Get]
    exact ends_updating (by simp [Machine.registers, hop, h]) fun d hd =>
      .instr (i := .inc d) (by simp [Machine.fetchedInstr?, decode, hop, h, hd]) trivial (by simp)
  case h_5 h =>
    -- increment an address
    simp only [ends_insOp2Get]
    exact ends_updating (by simp [Machine.registers, hop, h]) fun d hd =>
      .instr (i := .inca d) (by simp [Machine.fetchedInstr?, decode, hop, h, hd]) trivial (by simp)
  case h_6 h =>
    -- decrement
    simp only [ends_insOp2Get]
    exact ends_updating (by simp [Machine.registers, hop, h]) fun d hd =>
      .instr (i := .dec d) (by simp [Machine.fetchedInstr?, decode, hop, h, hd]) trivial (by simp)
  case h_7 h =>
    -- decrement an address
    simp only [ends_insOp2Get]
    exact ends_updating (by simp [Machine.registers, hop, h]) fun d hd =>
      .instr (i := .deca d) (by simp [Machine.fetchedInstr?, decode, hop, h, hd]) trivial (by simp)
  case h_8 h =>
    -- not
    simp only [ends_insOp2Get]
    exact ends_updating (by simp [Machine.registers, hop, h]) fun d hd =>
      .instr (i := .not d) (by simp [Machine.fetchedInstr?, decode, hop, h, hd]) trivial (by simp)
  case h_9 h =>
    -- get pc
    simp only [ends_insOp1Get, ends_insOp2Get, ends_pcGet]
    refine ends_regSet (by simp [Machine.registers, hop, h]) fun d hd => ?_
    exact .instr (i := .gpc s.insOp1 d) (by simp [Machine.fetchedInstr?, decode, hop, h, hd])
      trivial (by simp)
  case h_10 h₀ h₁ h₂ h₃ h₄ h₅ h₆ h₇ hf =>
    -- no instruction
    have hlt := s.insOp0.isLt
    simp only [imp_false] at h₀ h₁ h₂ h₃ h₄ h₅ h₆ h₇ hf
    exact .of_ok rfl (.hole (.inl ⟨hop, by omega, by omega⟩))

/-- **How `execute` ends**, when the instruction registers hold the digits of an instruction. -/
theorem execute_ends (s : Machine) (himm : s.insOpImm = s.insOp1 ++ s.insOp2) :
    Ends execute s (fun _ t => s.Performs t) s.Fails := by
  unfold execute
  rw [ends_get]
  split
  case h_1 h =>
    -- load immediate
    simp only [ends_insOp0Get, ends_insOpExtGet]
    refine ends_regSet (by simp [Machine.registers, h]) fun d hd => ?_
    exact .instr (i := .loadImm d s.insOpExt) (by simp [Machine.fetchedInstr?, decode, h, hd])
      trivial (by simp)
  case h_2 h =>
    -- load base + offset
    simp only [ends_insOp0Get, ends_insOp1Get, ends_insOp2Get, mul_four_add]
    have hreg : s.registers = [s.insOp1, s.insOp2] := by simp [Machine.registers, h]
    refine ends_regGet (by simp [hreg]) fun b hb => ends_readIntegerUnaligned (fun hw => ?_)
      fun hw => ends_regSet (by simp [hreg]) fun d hd => ?_
    · exact ⟨_, .inl ⟨by simp [Machine.access?, h, hb], hw⟩⟩
    exact .instr (i := .loadBase s.insOp0 b d)
      (by simp [Machine.fetchedInstr?, decode, h, hb, hd]) hw (by simp)
  case h_3 h =>
    -- load indexed
    simp only [ends_insOp0Get, ends_insOp1Get, ends_insOp2Get, add_mul_four]
    have hreg : s.registers = [s.insOp0, s.insOp1, s.insOp2] := by simp [Machine.registers, h]
    refine ends_regGet (by simp [hreg]) fun b hb => ends_regGet (by simp [hreg]) fun k hk =>
      ends_readIntegerUnaligned (fun hw => ?_) fun hw =>
        ends_regSet (by simp [hreg]) fun d hd => ?_
    · exact ⟨_, .inl ⟨by simp [Machine.access?, h, hb, hk], hw⟩⟩
    exact .instr (i := .loadIndexed b k d)
      (by simp [Machine.fetchedInstr?, decode, h, hb, hk, hd]) hw (by simp)
  case h_4 h =>
    -- store base + offset
    simp only [ends_insOp0Get, ends_insOp1Get, ends_insOp2Get, mul_four_add]
    have hreg : s.registers = [s.insOp0, s.insOp2] := by simp [Machine.registers, h]
    refine ends_regGet (by simp [hreg]) fun d hd => ends_regGet (by simp [hreg]) fun r hr => ?_
    have hi : s.fetchedInstr? = some (.storeBase r s.insOp1 d) := by
      simp [Machine.fetchedInstr?, decode, h, hr, hd]
    exact ends_writeIntegerUnaligned (.inl ⟨h, r, d, hr, hd, rfl, rfl⟩)
      (fun hw => ⟨_, .inl ⟨by simp [Machine.access?, h, hd], hw⟩⟩) fun hw => .instr hi hw (by simp)
  case h_5 h =>
    -- store indexed
    simp only [ends_insOp0Get, ends_insOp1Get, ends_insOp2Get, add_mul_four]
    have hreg : s.registers = [s.insOp0, s.insOp1, s.insOp2] := by simp [Machine.registers, h]
    refine ends_regGet (by simp [hreg]) fun r hr => ends_regGet (by simp [hreg]) fun d hd =>
      ends_regGet (by simp [hreg]) fun k hk => ?_
    have hi : s.fetchedInstr? = some (.storeIndexed r d k) := by
      simp [Machine.fetchedInstr?, decode, h, hr, hd, hk]
    exact ends_writeInteger ⟨h, r, d, k, hr, hd, hk, rfl, rfl⟩
      (by simp [Machine.access?, h, hd, hk]) fun hw => .instr hi hw (by simp)
  case h_6 h => exact executeAlu_ends h
  case h_7 h =>
    -- shift
    simp only [ends_insOp0Get, ends_insOpImmGet]
    have hends : Ends (regSet (s.insOp0.setWidth 32) s.shifted) s (fun _ t => s.Performs t)
        s.Fails := ends_regSet (by simp [Machine.registers, h]) fun d hd => .shift h hd
    split_ifs with hv
    · have hval : s.shifted = _ := if_pos hv
      rwa [hval] at hends
    · have hval : s.shifted = _ := if_neg hv
      rwa [hval] at hends
  case h_8 h =>
    -- branch
    simp only [ends_insOpImmGet, ends_pcGet]
    have hi : s.fetchedInstr? = some (.br s.insOpImm) := by
      simp [Machine.fetchedInstr?, decode, h, himm]
    refine .of_ok pcSet_run ?_
    rw [BitVec.mul_comm]
    exact .instr hi trivial (by simp)
  case h_9 h =>
    -- branch if equal
    simp only [ends_insOp0Get]
    refine ends_regGet (by simp [Machine.registers, h]) fun r hr => ?_
    have hi : s.fetchedInstr? = some (.beq r s.insOpImm) := by
      simp [Machine.fetchedInstr?, decode, h, himm, hr]
    have hperf := Machine.Performs.instr hi trivial (by simp)
    split_ifs with hz
    · have hrun : Instr.run s.arch (.beq r s.insOpImm) = _ := if_pos hz
      rw [hrun] at hperf
      simp only [ends_insOpImmGet, ends_pcGet]
      rw [BitVec.mul_comm]
      exact .of_ok pcSet_run hperf
    · have hrun : Instr.run s.arch (.beq r s.insOpImm) = _ := if_neg hz
      rw [hrun] at hperf
      exact .of_ok rfl hperf
  case h_10 h =>
    -- branch if greater
    simp only [ends_insOp0Get]
    refine ends_regGet (by simp [Machine.registers, h]) fun r hr => ?_
    have hi : s.fetchedInstr? = some (.bgt r s.insOpImm) := by
      simp [Machine.fetchedInstr?, decode, h, himm, hr]
    have hperf := Machine.Performs.instr hi trivial (by simp)
    split_ifs with hz
    · have hrun : Instr.run s.arch (.bgt r s.insOpImm) = _ := if_pos hz
      rw [hrun] at hperf
      simp only [ends_insOpImmGet, ends_pcGet]
      rw [BitVec.mul_comm]
      exact .of_ok pcSet_run hperf
    · have hrun : Instr.run s.arch (.bgt r s.insOpImm) = _ := if_neg hz
      rw [hrun] at hperf
      exact .of_ok rfl hperf
  case h_11 h =>
    -- jump
    simp only [ends_insOpExtGet]
    exact .of_ok pcSet_run (.instr (i := .j s.insOpExt)
      (by simp [Machine.fetchedInstr?, decode, h]) trivial (by simp))
  case h_12 h =>
    -- indirect jump
    simp only [ends_insOp0Get, ends_insOpImmGet]
    refine ends_regGet (by simp [Machine.registers, h]) fun t ht => ?_
    have hi : s.fetchedInstr? = some (.jInd t s.insOpImm) := by
      simp [Machine.fetchedInstr?, decode, h, himm, ht]
    rw [BitVec.mul_comm]
    exact .of_ok pcSet_run (.instr hi trivial (by simp))
  case h_13 h =>
    -- double indirect jump base + offset
    simp only [ends_insOp0Get]
    refine ends_regGet (by simp [Machine.registers, h]) fun t ht => ?_
    simp only [ends_insOpImmGet, add_mul_four]
    refine ends_readInteger (by simp [Machine.access?, h, ht]) fun hw => ?_
    have hi : s.fetchedInstr? = some (.jDouble t s.insOpImm) := by
      simp [Machine.fetchedInstr?, decode, h, himm, ht]
    exact .of_ok pcSet_run (.instr hi hw (by simp))
  case h_14 h =>
    -- double indirect jump indexed
    simp only [ends_insOp0Get]
    have hreg : s.registers = [s.insOp0, s.insOp1] := by simp [Machine.registers, h]
    refine ends_regGet (by simp [hreg]) fun t ht => ?_
    simp only [ends_insOp1Get, add_mul_four]
    refine ends_regGet (by simp [hreg]) fun k hk =>
      ends_readInteger (by simp [Machine.access?, h, ht, hk]) fun hw => ?_
    have hi : s.fetchedInstr? = some (.jDoubleIndexed t k) := by
      simp [Machine.fetchedInstr?, decode, h, ht, hk]
    exact .of_ok pcSet_run (.instr hi hw (by simp))
  case h_15 h =>
    -- halt and nop
    rw [ends_get]
    split
    case h_1 h' =>
      have hi : s.fetchedInstr? = some .halt := by simp [Machine.fetchedInstr?, decode, h, h']
      exact .of_error (throw_run _) (.halt hi)
    case h_2 h' =>
      by_cases hnop : s.insOp0.toNat = 0xf
      · have hi : s.fetchedInstr? = some .nop := by simp [Machine.fetchedInstr?, decode, h, hnop]
        exact .of_ok rfl (.instr hi trivial (by simp))
      · have hlt := s.insOp0.isLt
        simp only [imp_false] at h'
        exact .of_ok rfl (.hole (.inr ⟨h, by omega, by omega⟩))
  case h_16 h₀ h₁ h₂ h₃ h₄ h₆ h₇ h₈ h₉ ha hb hc hd he hf =>
    -- no instruction
    have hlt := s.insOpCode.isLt
    simp only [imp_false] at h₀ h₁ h₂ h₃ h₄ h₆ h₇ h₈ h₉ ha hb hc hd he hf
    exact .of_error (throw_run _) (.opcode (by omega))

/-! ## Stores -/

section Stores

variable {s : Machine} {a v : JInt}

/-- A store base + offset. -/
lemma execute_of_storesBase (h : s.StoresBase a v) :
    execute s = changing (writeIntegerUnaligned a v) s := by
  obtain ⟨hop, r, d, hr, hd, rfl, rfl⟩ := h
  simp only [execute, get_bind, hop, insOp0Get_bind, insOp1Get_bind, insOp2Get_bind,
    regGet_bind hr, regGet_bind hd, mul_four_add]

/-- A store indexed. -/
lemma execute_of_storesIndexed (h : s.StoresIndexed a v) :
    execute s = changing (writeInteger a v) s := by
  obtain ⟨hop, r, d, i, hr, hd, hi, rfl, rfl⟩ := h
  simp only [execute, get_bind, hop, insOp0Get_bind, insOp1Get_bind, insOp2Get_bind,
    regGet_bind hr, regGet_bind hd, regGet_bind hi, add_mul_four]

/-- A store beyond the largest `int` has a bad address. -/
lemma Machine.Stores.badAddress (h : s.Stores a v) (hw : Wraps a 4) : s.BadAddress := by
  have ha : ¬ s.mem.HasWord a := not_inRange_of_wraps hw
  obtain ⟨hop, r, d, -, hd, rfl, -⟩ | ⟨⟨hop, r, d, i, -, hd, hi, rfl, -⟩, -⟩ := h
  · exact ⟨_, .inl ⟨by simp [Machine.access?, hop, hd], ha⟩⟩
  · exact ⟨_, .inr ⟨by simp [Machine.access?, hop, hd, hi], fun h => ha h.1⟩⟩

/-- A store that is not refused because of its alignment. -/
lemma execute_of_stores (h : s.Stores a v) :
    execute s = changing (writeIntegerUnaligned a v) s := by
  obtain h | ⟨h, hal⟩ := h
  · exact execute_of_storesBase h
  · rw [execute_of_storesIndexed h, writeInteger, if_pos hal]

end Stores

/-! ## How `fetch` ends -/

section Fetch

variable {s : Machine}

/-- The six bytes that `fetch` reads are there if the words are. -/
lemma inRange_iff : s.mem.InRange s.pc 6 ↔ s.mem.HasWord s.pc ∧ s.mem.HasWord (s.pc + 2) := by
  refine ⟨hasWord_of_inRange, fun ⟨h, h'⟩ => ?_⟩
  have hlt := s.mem.length_lt
  simp only [HasWord, InRange, MainMemory.length] at *
  have hadd : (s.pc + 2).toNat = s.pc.toNat + 2 := toNat_add_of_lt (i := 2) (by omega)
  omega

/-- `fetch`, where there is no word at the program counter. -/
lemma fetch_of_not_hasWord (h : ¬ s.mem.HasWord s.pc) :
    fetch s = .error (if Wraps s.pc 4 then .arrayIndexOutOfBounds else .invalidAddress) s := by
  unfold fetch
  simp only [pcGet_bind]
  exact bind_error (reading_of_not_hasWord h) _

/-- `fetch`, where only the first word is there. -/
lemma fetch_of_not_hasWord_add (h : s.mem.HasWord s.pc) (h' : ¬ s.mem.HasWord (s.pc + 2)) :
    fetch s = .error (if Wraps (s.pc + 2) 4 then .arrayIndexOutOfBounds else .invalidAddress)
      s := by
  unfold fetch
  simp only [pcGet_bind, readIntegerUnaligned_bind, h]
  exact bind_error (reading_of_not_hasWord h') _

/-- `fetch` fails before it changes anything. -/
theorem fetch_error {e : Exc} {t : Machine} (h : fetch s = .error e t) : t = s := by
  by_cases h₁ : s.mem.HasWord s.pc
  · by_cases h₂ : s.mem.HasWord (s.pc + 2)
    · rw [fetch_eq s (inRange_iff.mpr ⟨h₁, h₂⟩)] at h
      cases h
    · rw [fetch_of_not_hasWord_add h₁ h₂] at h
      cases h
      rfl
  · rw [fetch_of_not_hasWord h₁] at h
    cases h
    rfl

end Fetch

end SM213
