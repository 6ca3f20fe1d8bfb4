import Cs213.SM213.MainMemory

set_option relaxedAutoImplicit false
set_option autoImplicit false

/-!
# The CPU

`CPU.java`: the two stages of a cycle, on the registers of `AbstractSM213CPU` and a main memory.

## Main definitions

* `SM213.Machine` — the registers and the memory.
* `SM213.boot`, `SM213.decoded` — a machine before a cycle, and before the second stage of one.
* `SM213.fetch`, `SM213.execute`, `SM213.cycle` — the stages of a cycle, and a cycle.

## Implementation notes

A register keeps as many low bits of what is stored in it as it is wide. `insOpImm` is a signed
register and is read with its sign; the other instruction registers are unsigned. Stores to
registers take effect at the end of a stage; within a stage no register is read after it has been
written, so they are made at once here.
-/

namespace SM213

/-- The state of the machine. -/
structure Machine where
  pc : JInt
  instruction : BitVec 48
  insOpCode : BitVec 4
  insOp0 : BitVec 4
  insOp1 : BitVec 4
  insOp2 : BitVec 4
  insOpImm : BitVec 8
  insOpExt : JInt
  reg : Fin 8 → JInt
  mem : MainMemory

/-- A machine that is about to run at `pc`. -/
def boot (pc : JInt) (reg : Fin 8 → JInt) (mem : MainMemory) : Machine where
  pc := pc
  instruction := 0
  insOpCode := 0
  insOp0 := 0
  insOp1 := 0
  insOp2 := 0
  insOpImm := 0
  insOpExt := 0
  reg := reg
  mem := mem

/-- A machine that is about to execute the instruction with these digits. -/
def decoded (o x y z : BitVec 4) (reg : Fin 8 → JInt) (mem : MainMemory) : Machine :=
  { boot 0 reg mem with insOpCode := o, insOp0 := x, insOp1 := y, insOp2 := z, insOpImm := y ++ z }

/-- The methods of the CPU. -/
abbrev CpuM := EStateM Exc Machine

variable {α : Type}

/-! ### The methods -/

/-- A method that reads memory. -/
def reading (x : MainMemory → Except Exc α) : CpuM α := fun s =>
  match x s.mem with
  | .ok a => .ok a s
  | .error e => .error e s

/-- A method that changes memory. -/
def changing (x : EStateM Exc MainMemory Unit) : CpuM Unit := fun s =>
  match x s.mem with
  | .ok _ m => .ok () { s with mem := m }
  | .error e m => .error e { s with mem := m }

/-- `reg.get`. -/
def regGet (r : JInt) : CpuM JInt := fun s =>
  if h : r.toNat < 8 then .ok (s.reg ⟨r.toNat, h⟩) s else .error .invalidRegisterNumber s

/-- `reg.set`. -/
def regSet (r v : JInt) : CpuM Unit := fun s =>
  if h : r.toNat < 8 then .ok () { s with reg := Function.update s.reg ⟨r.toNat, h⟩ v }
  else .error .invalidRegisterNumber s

/-- `pc.get`. -/
def pcGet : CpuM JInt := return (← get).pc

/-- `pc.set`. -/
def pcSet (v : JInt) : CpuM Unit := modify fun s => { s with pc := v }

/-- `insOp0.get`. -/
def insOp0Get : CpuM JInt := return (← get).insOp0.setWidth 32

/-- `insOp1.get`. -/
def insOp1Get : CpuM JInt := return (← get).insOp1.setWidth 32

/-- `insOp2.get`. -/
def insOp2Get : CpuM JInt := return (← get).insOp2.setWidth 32

/-- `insOpImm.get`. -/
def insOpImmGet : CpuM JInt := return (← get).insOpImm.signExtend 32

/-- `insOpExt.get`. -/
def insOpExtGet : CpuM JInt := return (← get).insOpExt

/-! ### What the methods do -/

section Run

variable {β : Type} {s t : Machine} {a : α} {v : JInt}

/-- What follows a method is run with its value, from the state it leaves. -/
lemma bind_run {x : CpuM α} (h : x s = .ok a t) (f : α → CpuM β) : (x >>= f) s = f a t := by
  simp only [bind, EStateM.bind, h]

@[simp] lemma get_bind (f : Machine → CpuM β) : ((get : CpuM Machine) >>= f) s = f s s :=
  bind_run rfl f

@[simp] lemma modify_run (g : Machine → Machine) : (modify g : CpuM Unit) s = .ok () (g s) := rfl

@[simp] lemma modify_bind (g : Machine → Machine) (f : Unit → CpuM β) :
    ((modify g : CpuM Unit) >>= f) s = f () (g s) :=
  bind_run rfl f

@[simp] lemma throw_run (e : Exc) : (throw e : CpuM α) s = .error e s := rfl

lemma reading_bind {x : MainMemory → Except Exc α} (h : x s.mem = .ok a) (f : α → CpuM β) :
    (reading x >>= f) s = f a s :=
  bind_run (by simp only [reading, h]) f

lemma changing_run {x : EStateM Exc MainMemory Unit} {m : MainMemory}
    (h : x s.mem = .ok () m) : changing x s = .ok () { s with mem := m } := by
  simp only [changing, h]

@[simp] lemma pcGet_bind (f : JInt → CpuM β) : (pcGet >>= f) s = f s.pc s := bind_run rfl f

@[simp] lemma pcSet_run : pcSet v s = .ok () { s with pc := v } := rfl

@[simp] lemma insOp0Get_bind (f : JInt → CpuM β) :
    (insOp0Get >>= f) s = f (s.insOp0.setWidth 32) s :=
  bind_run rfl f

@[simp] lemma insOp1Get_bind (f : JInt → CpuM β) :
    (insOp1Get >>= f) s = f (s.insOp1.setWidth 32) s :=
  bind_run rfl f

@[simp] lemma insOp2Get_bind (f : JInt → CpuM β) :
    (insOp2Get >>= f) s = f (s.insOp2.setWidth 32) s :=
  bind_run rfl f

@[simp] lemma insOpImmGet_bind (f : JInt → CpuM β) :
    (insOpImmGet >>= f) s = f (s.insOpImm.signExtend 32) s :=
  bind_run rfl f

@[simp] lemma insOpExtGet_bind (f : JInt → CpuM β) : (insOpExtGet >>= f) s = f s.insOpExt s :=
  bind_run rfl f

end Run

/-! ### The stages -/

/-- `fetch`. -/
def fetch : CpuM Unit := do
  let baseAddress ← pcGet
  let high ← reading (·.readIntegerUnaligned baseAddress)
  let low ← reading (·.readIntegerUnaligned (baseAddress + 2))
  modify fun s =>
    { s with instruction := ((high.signExtend 64 <<< 16) + low.signExtend 64).setWidth 48 }
  let insArr ← reading (·.readUnaliged baseAddress 6)
  let ins0 : BitVec 64 := (insArr.getD 0 0).setWidth 64
  let ins1 : BitVec 64 := (insArr.getD 1 0).setWidth 64
  let opcode := (ins0 &&& 0xf0) >>> 4
  modify fun s =>
    { s with
      insOpCode := opcode.setWidth 4
      insOp0 := (ins0 &&& 0x0f).setWidth 4
      insOp1 := ((ins1 &&& 0xf0) >>> 4).setWidth 4
      insOp2 := (ins1 &&& 0x0f).setWidth 4
      insOpImm := ins1.setWidth 8 }
  if opcode = 0 ∨ opcode = 0xb then
    let ext ← reading (·.readIntegerUnaligned (baseAddress + 2))
    modify fun s => { s with insOpExt := ext, pc := baseAddress + 6 }
  else
    pcSet (baseAddress + 2)

/-- The ALU instructions, the nested `switch` of opcode 6. -/
def executeAlu : CpuM Unit := do
  match (← get).insOp0.toNat with
  | 0x0 =>
    let rs ← insOp1Get
    let rd ← insOp2Get
    regSet rd (← regGet rs)
  | 0x1 =>
    let rs ← insOp1Get
    let rd ← insOp2Get
    regSet rd ((← regGet rs) + (← regGet rd))
  | 0x2 =>
    let rs ← insOp1Get
    let rd ← insOp2Get
    regSet rd ((← regGet rs) &&& (← regGet rd))
  | 0x3 =>
    let rd ← insOp2Get
    let v ← regGet rd
    regSet rd (v + 1)
  | 0x4 =>
    let rd ← insOp2Get
    let v ← regGet rd
    regSet rd (v + 4)
  | 0x5 =>
    let rd ← insOp2Get
    let v ← regGet rd
    regSet rd (v - 1)
  | 0x6 =>
    let rd ← insOp2Get
    let v ← regGet rd
    regSet rd (v - 4)
  | 0x7 =>
    let rd ← insOp2Get
    regSet rd (~~~(← regGet rd))
  | 0xf =>
    let v := 2 * (← insOp1Get)
    let rd ← insOp2Get
    regSet rd ((← pcGet) + v)
  | _ => pure ()

/-- `execute`. -/
def execute : CpuM Unit := do
  match (← get).insOpCode.toNat with
  | 0x0 =>
    let rd ← insOp0Get
    let v ← insOpExtGet
    regSet rd v
  | 0x1 =>
    let rs ← insOp1Get
    let rd ← insOp2Get
    let i ← insOp0Get
    let address := (i * 4) + (← regGet rs)
    let v ← reading (·.readIntegerUnaligned address)
    regSet rd v
  | 0x2 =>
    let rd ← insOp2Get
    let rs ← insOp0Get
    let i ← insOp1Get
    let address := (← regGet rs) + (← regGet i) * 4
    let v ← reading (·.readIntegerUnaligned address)
    regSet rd v
  | 0x3 =>
    let rs ← insOp0Get
    let rd ← insOp2Get
    let i ← insOp1Get
    let address := (i * 4) + (← regGet rd)
    changing (MainMemory.writeIntegerUnaligned address (← regGet rs))
  | 0x4 =>
    let rs ← insOp0Get
    let rd ← insOp1Get
    let i ← insOp2Get
    let v ← regGet rs
    let address := (← regGet rd) + ((← regGet i) * 4)
    changing (MainMemory.writeInteger address v)
  | 0x6 => executeAlu
  | 0x7 =>
    let rd ← insOp0Get
    let v ← insOpImmGet
    -- Java shifts an `int` by the low five bits of the distance
    if v.toInt < 0 then regSet rd (rd.sshiftRight (v &&& 31).toNat)
    else regSet rd (rd <<< (v &&& 31).toNat)
  | 0x8 =>
    let v := (← insOpImmGet) * 2
    pcSet ((← pcGet) + v)
  | 0x9 =>
    let rd ← regGet (← insOp0Get)
    if rd = 0 then
      let v := (← insOpImmGet) * 2
      pcSet ((← pcGet) + v)
  | 0xa =>
    let rd ← regGet (← insOp0Get)
    if rd.toInt > 0 then
      let v := (← insOpImmGet) * 2
      pcSet ((← pcGet) + v)
  | 0xb =>
    let v ← insOpExtGet
    pcSet v
  | 0xc =>
    let v := (← insOpImmGet) * 2
    let rs ← regGet (← insOp0Get)
    pcSet (rs + v)
  | 0xd =>
    let rd ← regGet (← insOp0Get)
    let rs := (← insOpImmGet) * 4
    let v ← reading (·.readInteger (rd + rs))
    pcSet v
  | 0xe =>
    let rd ← regGet (← insOp0Get)
    let rs := (← regGet (← insOp1Get)) * 4
    let v ← reading (·.readInteger (rd + rs))
    pcSet v
  | 0xf =>
    match (← get).insOp0.toNat with
    | 0x0 => throw .machineHalt
    | _ => pure ()
  | _ => throw .invalidInstruction

/-- A cycle. -/
def cycle : CpuM Unit := do
  fetch
  execute

end SM213
