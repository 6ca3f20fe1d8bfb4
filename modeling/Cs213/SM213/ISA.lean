import Cs213.SM213.CPU

set_option relaxedAutoImplicit false
set_option autoImplicit false

/-!
# The SM213 instruction set

What each instruction does to the registers, the memory and the program counter. All arithmetic is
modulo `2 ^ 32`.

## Main definitions

* `SM213.Arch` — the state an instruction acts on.
* `SM213.Instr` — the instructions.
* `SM213.decode` — the instruction with a given encoding.
* `SM213.Instr.Enabled` — the memory an instruction accesses can be accessed.
* `SM213.Instr.run` — the effect of an instruction.

## Main results

* `SM213.MainMemory.byte_putWord`, `SM213.MainMemory.word_putWord` — what a stored word changes.
-/

namespace SM213

open Bytes

/-- The state that instructions act on. -/
structure Arch where
  pc : JInt
  reg : Fin 8 → JInt
  mem : MainMemory

/-- The instance of the numerals for registers. -/
instance neZero_registers : NeZero 8 := ⟨by decide⟩

/-- The instructions, with their operands in the order of the encoding. -/
inductive Instr
  | loadImm (d : Fin 8) (v : JInt)
  | loadBase (p : BitVec 4) (s d : Fin 8)
  | loadIndexed (s i d : Fin 8)
  | storeBase (s : Fin 8) (p : BitVec 4) (d : Fin 8)
  | storeIndexed (s d i : Fin 8)
  | mov (s d : Fin 8)
  | add (s d : Fin 8)
  | and (s d : Fin 8)
  | inc (d : Fin 8)
  | inca (d : Fin 8)
  | dec (d : Fin 8)
  | deca (d : Fin 8)
  | not (d : Fin 8)
  | gpc (p : BitVec 4) (d : Fin 8)
  | br (pp : BitVec 8)
  | beq (r : Fin 8) (pp : BitVec 8)
  | bgt (r : Fin 8) (pp : BitVec 8)
  | j (a : JInt)
  | jInd (t : Fin 8) (pp : BitVec 8)
  | jDouble (t : Fin 8) (pp : BitVec 8)
  | jDoubleIndexed (t i : Fin 8)
  | halt
  | nop
  deriving DecidableEq, Repr

/-- The register with this number. -/
def reg? (x : BitVec 4) : Option (Fin 8) := if h : x.toNat < 8 then some ⟨x.toNat, h⟩ else none

/-- The instruction whose first two bytes are the digits `o x y z`, followed, for the long
instructions, by the word `ext`. -/
def decode (o x y z : BitVec 4) (ext : JInt) : Option Instr :=
  let pp : BitVec 8 := y ++ z
  match o.toNat with
  | 0x0 => (reg? x).map (.loadImm · ext)
  | 0x1 => return .loadBase x (← reg? y) (← reg? z)
  | 0x2 => return .loadIndexed (← reg? x) (← reg? y) (← reg? z)
  | 0x3 => return .storeBase (← reg? x) y (← reg? z)
  | 0x4 => return .storeIndexed (← reg? x) (← reg? y) (← reg? z)
  | 0x6 =>
    match x.toNat with
    | 0x0 => return .mov (← reg? y) (← reg? z)
    | 0x1 => return .add (← reg? y) (← reg? z)
    | 0x2 => return .and (← reg? y) (← reg? z)
    | 0x3 => (reg? z).map .inc
    | 0x4 => (reg? z).map .inca
    | 0x5 => (reg? z).map .dec
    | 0x6 => (reg? z).map .deca
    | 0x7 => (reg? z).map .not
    | 0xf => (reg? z).map (.gpc y)
    | _ => none
  | 0x8 => some (.br pp)
  | 0x9 => (reg? x).map (.beq · pp)
  | 0xa => (reg? x).map (.bgt · pp)
  | 0xb => some (.j ext)
  | 0xc => (reg? x).map (.jInd · pp)
  | 0xd => (reg? x).map (.jDouble · pp)
  | 0xe => return .jDoubleIndexed (← reg? x) (← reg? y)
  | 0xf =>
    match x.toNat with
    | 0x0 => some .halt
    | 0xf => some .nop
    | _ => none
  | _ => none

/-- The length of the instructions with this first digit. -/
def size (o : BitVec 4) : JInt := if o = 0x0 ∨ o = 0xb then 6 else 2

/-! ## Memory -/

/-- The byte at an address, and `0` outside of memory. -/
def MainMemory.byte (m : MainMemory) (a : ℕ) : Byte := m.mem.getD a 0

/-- `M[a]`: the big-endian word at an address. -/
def MainMemory.word (m : MainMemory) (a : JInt) : JInt :=
  beWord (m.byte a.toNat) (m.byte (a.toNat + 1)) (m.byte (a.toNat + 2)) (m.byte (a.toNat + 3))

/-- `M[a] := v`. -/
def MainMemory.putWord (m : MainMemory) (a v : JInt) : MainMemory :=
  if h : m.InRange a 4 then m.write a (beBytes v) h else m

/-- There is a word at the address `a`. -/
def MainMemory.HasWord (m : MainMemory) (a : JInt) : Prop := m.InRange a 4

/-- There is a word at the address `a`, which is a multiple of 4. -/
def MainMemory.HasAlignedWord (m : MainMemory) (a : JInt) : Prop :=
  m.InRange a 4 ∧ a.toNat % 4 = 0

namespace MainMemory

variable {m : MainMemory} {a v : JInt}

lemma putWord_eq (h : m.InRange a (beBytes v).length) : m.putWord a v = m.write a (beBytes v) h :=
  dif_pos h

/-- **A stored word** changes its four bytes, and no other byte. -/
theorem byte_putWord (h : m.HasWord a) (j : ℕ) : (m.putWord a v).byte j =
    if a.toNat ≤ j ∧ j < a.toNat + 4 then (beBytes v).getD (j - a.toNat) 0 else m.byte j := by
  have hin : m.InRange a (beBytes v).length := h
  have hlen : (beBytes v).length = 4 := rfl
  rw [putWord_eq hin, byte, write, List.getD_eq_getElem?_getD, getElem?_overwrite hin, hlen]
  split_ifs
  · rw [List.getD_eq_getElem?_getD]
  · rw [byte, List.getD_eq_getElem?_getD]

/-- A stored word is what is read back. -/
theorem word_putWord (h : m.HasWord a) : (m.putWord a v).word a = v := by
  rw [word, byte_putWord h, byte_putWord h, byte_putWord h, byte_putWord h]
  simp [beBytes, beWord_beBytes]

end MainMemory

/-! ## Effects -/

/-- `r[d] := v`. -/
def Arch.setReg (s : Arch) (d : Fin 8) (v : JInt) : Arch :=
  { s with reg := Function.update s.reg d v }

/-- The words that an instruction reads or writes are there. -/
def Instr.Enabled (s : Arch) : Instr → Prop
  | loadBase p b _ => s.mem.HasWord (s.reg b + 4 * p.setWidth 32)
  | loadIndexed b i _ => s.mem.HasWord (s.reg b + 4 * s.reg i)
  | storeBase _ p d => s.mem.HasWord (s.reg d + 4 * p.setWidth 32)
  | storeIndexed _ d i => s.mem.HasAlignedWord (s.reg d + 4 * s.reg i)
  | jDouble t pp => s.mem.HasAlignedWord (s.reg t + 4 * pp.signExtend 32)
  | jDoubleIndexed t i => s.mem.HasAlignedWord (s.reg t + 4 * s.reg i)
  | loadImm _ _ | mov _ _ | add _ _ | and _ _ | inc _ | inca _ | dec _ | deca _ | not _
  | gpc _ _ | br _ | beq _ _ | bgt _ _ | j _ | jInd _ _ | halt | nop => True

/-- **The effect of an instruction** on a state whose program counter is that of the next
instruction. -/
def Instr.run (s : Arch) : Instr → Arch
  | loadImm d v => s.setReg d v
  | loadBase p b d => s.setReg d (s.mem.word (s.reg b + 4 * p.setWidth 32))
  | loadIndexed b i d => s.setReg d (s.mem.word (s.reg b + 4 * s.reg i))
  | storeBase r p d => { s with mem := s.mem.putWord (s.reg d + 4 * p.setWidth 32) (s.reg r) }
  | storeIndexed r d i => { s with mem := s.mem.putWord (s.reg d + 4 * s.reg i) (s.reg r) }
  | mov r d => s.setReg d (s.reg r)
  | add r d => s.setReg d (s.reg r + s.reg d)
  | and r d => s.setReg d (s.reg r &&& s.reg d)
  | inc d => s.setReg d (s.reg d + 1)
  | inca d => s.setReg d (s.reg d + 4)
  | dec d => s.setReg d (s.reg d - 1)
  | deca d => s.setReg d (s.reg d - 4)
  | not d => s.setReg d (~~~ s.reg d)
  | gpc p d => s.setReg d (s.pc + 2 * p.setWidth 32)
  | br pp => { s with pc := s.pc + 2 * pp.signExtend 32 }
  | beq r pp => if s.reg r = 0 then { s with pc := s.pc + 2 * pp.signExtend 32 } else s
  | bgt r pp => if 0 < (s.reg r).toInt then { s with pc := s.pc + 2 * pp.signExtend 32 } else s
  | j a => { s with pc := a }
  | jInd t pp => { s with pc := s.reg t + 2 * pp.signExtend 32 }
  | jDouble t pp => { s with pc := s.mem.word (s.reg t + 4 * pp.signExtend 32) }
  | jDoubleIndexed t i => { s with pc := s.mem.word (s.reg t + 4 * s.reg i) }
  | halt | nop => s

end SM213
