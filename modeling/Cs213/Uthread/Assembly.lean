import Cs213.Uthread.Step

set_option relaxedAutoImplicit false
set_option autoImplicit false

/-!
# The assembly code of the context switch

`Uthread.step` saves a thread and runs another one in a single step. Here this step is the inline
assembly code of `uthread_switch`, executed one instruction at a time: it pushes the registers on
the stack of the running thread, stores the stack pointer in its control block, stores its new
state, loads the stack pointer of the other thread, and pops the registers of that one. Between any
two of these instructions the other processors move. `uthread_new_thread` lays out the stack of a
new thread in such a way that the same code starts it.

## Main definitions

* `Uthread.Assembly.Instr`, `Uthread.Assembly.exec` — the instructions.
* `Uthread.Assembly.Abi.uthreadSwitch`, `Uthread.Assembly.Abi.uthreadNewThread` — the code.
* `Uthread.Assembly.Sys`, `Uthread.Assembly.step` — the thread system with its registers and stacks.

## Implementation notes

The store of the new state is the instruction that the other processors can see, in the spin loop:
it is the step of `Uthread.step`. All other instructions leave the state of `Uthread.step` alone.

A stack is used in whole words, so the memory is a function of the addresses of words. The compiler
chooses the registers for the operands, and the place of the variable `from_thread` below the frame
pointer. `Sys.entry` records the registers with which a thread has entered the assembly code; no
step reads it.
-/

namespace Uthread

/-- The numbers of the states. -/
def ThreadState.number : ThreadState → ℕ
  | .nascent => 0
  | .running => 1
  | .runable => 8
  | .blocked => 3
  | .dying => 4
  | .dead => 5

namespace Assembly

/-- The registers, with their names in 64 bits. -/
inductive Reg
  | ax | bx | cx | dx | si | di | r8 | r9 | r10 | r11 | r12 | r13 | r14 | r15 | flags | bp | sp
  deriving DecidableEq, Repr

/-- The contents of the registers. -/
abbrev Registers := Reg → ℕ

/-! ## The instructions -/

/-- The instructions of the two blocks; the fields of a control block and the variable `from_thread`
are named instead of their addresses. -/
inductive Instr
  | push (src : Reg)
  | pushImm (v : ℕ)
  | pop (dst : Reg)
  | mov (src dst : Reg)
  | add (v : ℕ) (dst : Reg)
  | sub (v : ℕ) (dst : Reg)
  /-- store the stack pointer in `saved_sp` of the thread that a register points at -/
  | storeSp (thread : Reg)
  /-- load the stack pointer from there -/
  | loadSp (thread : Reg)
  /-- store a register in `state` of the thread -/
  | storeState (src thread : Reg)
  /-- store a register in `from_thread` -/
  | storeFromThread (src : Reg)
  deriving DecidableEq, Repr

/-- The two variants of the code, chosen by `__LP64__`. -/
inductive Abi
  | lp64
  | ia32
  deriving DecidableEq, Repr

/-- The size of a word. -/
def Abi.word : Abi → ℕ
  | .lp64 => 8
  | .ia32 => 4

/-- The registers that hold the operands `%1`, `%2` and `%3` of `uthread_switch`. -/
structure Operands where
  fromThread : Reg
  toThread : Reg
  state : Reg
  nodup : [fromThread, toThread, state, .bp, .sp].Nodup

/-- **The assembly code of `uthread_switch`.** -/
def Abi.uthreadSwitch (o : Operands) : Abi → List Instr
  | .lp64 => [
    .push .bx,
    .push .cx,
    .push .dx,
    .push .si,
    .push .di,
    .push .r8,
    .push .r9,
    .push .r10,
    .push .r11,
    .push .r12,
    .push .r13,
    .push .r14,
    .push .r15,
    .push .flags,
    .push .bp,
    .storeSp o.fromThread,
    .storeState o.state o.fromThread,
    .loadSp o.toThread,
    .pop .bp,
    .storeFromThread o.fromThread,
    .pop .flags,
    .pop .r15,
    .pop .r14,
    .pop .r13,
    .pop .r12,
    .pop .r11,
    .pop .r10,
    .pop .r9,
    .pop .r8,
    .pop .di,
    .pop .si,
    .pop .dx,
    .pop .cx,
    .pop .bx]
  | .ia32 => [
    .push .bx,
    .push .cx,
    .push .dx,
    .push .si,
    .push .di,
    .push .flags,
    .push .bp,
    .storeSp o.fromThread,
    .storeState o.state o.fromThread,
    .loadSp o.toThread,
    .pop .bp,
    .storeFromThread o.fromThread,
    .pop .flags,
    .pop .di,
    .pop .si,
    .pop .dx,
    .pop .cx,
    .pop .bx]

/-- **The assembly code of `uthread_new_thread`**, with the thread in a register. -/
def Abi.uthreadNewThread (thread : Reg) : Abi → List Instr
  | .lp64 => [
    .mov .sp .ax,
    .loadSp thread,
    .sub 512 .sp,
    .pushImm 0,
    .pushImm 0,
    .pushImm 0,
    .pushImm 0,
    .pushImm 0,
    .push .r8,
    .push .r9,
    .push .r10,
    .push .r11,
    .push .r12,
    .push .r13,
    .push .r14,
    .push .r15,
    .push .flags,
    .mov .sp .cx,
    .add 256 .cx,
    .push .cx,
    .storeSp thread,
    .mov .ax .sp]
  | .ia32 => [
    .mov .sp .ax,
    .loadSp thread,
    .sub 512 .sp,
    .pushImm 0,
    .pushImm 0,
    .pushImm 0,
    .pushImm 0,
    .pushImm 0,
    .push .flags,
    .mov .sp .cx,
    .add 256 .cx,
    .push .cx,
    .storeSp thread,
    .mov .ax .sp]

/-- What the compiler and the memory allocator have chosen. -/
structure Config where
  abi : Abi
  operands : Operands
  /-- the operand `%0` of `uthread_new_thread`; the block names `ax` and `cx` as clobbered -/
  thread : Reg
  thread_ne : thread ∉ [.ax, .cx, .sp]
  /-- `from_thread` is this far below the frame pointer -/
  offset : ℕ
  offset_le : offset ≤ 144
  /-- The stack of a thread goes from `bottom` to `top`; `uthread_new_thread` stores `top` in
  `saved_sp` before the assembly code. -/
  bottom : Tid → ℕ
  top : Tid → ℕ
  size_le : ∀ t, bottom t + 1024 ≤ top t

variable (cfg : Config)

/-- What an instruction has access to on one processor. -/
structure Cpu where
  regs : Registers
  mem : ℕ → ℕ
  savedSp : Tid → ℕ

/-- Write a register. -/
def Cpu.set (x : Cpu) (r : Reg) (v : ℕ) : Cpu := { x with regs := Function.update x.regs r v }

/-- Push a value. -/
def Cpu.push (x : Cpu) (v : ℕ) : Cpu :=
  let sp := x.regs .sp - cfg.abi.word
  { x.set .sp sp with mem := Function.update x.mem sp v }

/-- The effect of an instruction, except for the store in `state`. -/
def exec (x : Cpu) : Instr → Cpu
  | .push src => x.push cfg (x.regs src)
  | .pushImm v => x.push cfg v
  | .pop dst => (x.set dst (x.mem (x.regs .sp))).set .sp (x.regs .sp + cfg.abi.word)
  | .mov src dst => x.set dst (x.regs src)
  | .add v dst => x.set dst (x.regs dst + v)
  | .sub v dst => x.set dst (x.regs dst - v)
  | .storeSp thread =>
    { x with savedSp := Function.update x.savedSp (x.regs thread) (x.regs .sp) }
  | .loadSp thread => x.set .sp (x.savedSp (x.regs thread))
  | .storeState _ _ => x
  | .storeFromThread src =>
    { x with mem := Function.update x.mem (x.regs .bp - cfg.offset) (x.regs src) }

/-- `uthread_new_thread` of the thread `t`, from the store in `saved_sp` on. -/
def Cpu.newThread (x : Cpu) (t : Tid) : Cpu :=
  (cfg.abi.uthreadNewThread cfg.thread).foldl (exec cfg)
    { x.set cfg.thread t with savedSp := Function.update x.savedSp t (cfg.top t) }

/-! ## The system -/

/-- The thread system with the registers of the processors and the stacks of the threads. -/
structure Sys (N : ℕ) where
  core : State N
  regs : Fin N → Registers
  /-- The rest of the assembly code of `uthread_switch` that a processor executes. -/
  code : Fin N → Option (List Instr)
  mem : ℕ → ℕ
  savedSp : Tid → ℕ
  entry : Tid → Registers

variable {N : ℕ}

/-- What processor `p` has access to. -/
def Sys.cpu (s : Sys N) (p : Fin N) : Cpu := ⟨s.regs p, s.mem, s.savedSp⟩

/-- Processor `p` has done something. -/
def Sys.setCpu (s : Sys N) (p : Fin N) (x : Cpu) : Sys N :=
  { s with regs := Function.update s.regs p x.regs, mem := x.mem, savedSp := x.savedSp }

/-- The rest of the code. -/
def Sys.goto (s : Sys N) (p : Fin N) (code : Option (List Instr)) : Sys N :=
  { s with code := Function.update s.code p code }

/-- The registers with which a thread enters the code, or with which it is to start. -/
def Sys.enter (s : Sys N) (t : Tid) (R : Registers) : Sys N :=
  { s with entry := Function.update s.entry t R }

/-- The registers that the code pops for a thread that `uthread_new_thread` has created on a
processor with the registers `R`. -/
def freshRegisters (t : Tid) (R : Registers) (r : Reg) : ℕ :=
  if r = .sp then cfg.top t - 512
  else if r = .bp then
    match cfg.abi with
    | .lp64 => cfg.top t - 512 - 14 * 8 + 256
    | .ia32 => cfg.top t - 512 - 6 * 4 + 256
  else if r ∈ [Reg.bx, .cx, .dx, .si, .di] then 0
  else R r

/-- `uthread_new_thread` of the thread `t` on processor `p`. -/
def Sys.newThread (s : Sys N) (p : Fin N) (t : Tid) : Sys N :=
  (s.setCpu p ((s.cpu p).newThread cfg t)).enter t
    (freshRegisters cfg t (Function.update (s.regs p) cfg.thread t))

/-- A step: an action of the thread system, anything else that compiled code does, or the next
instruction of the assembly code. -/
inductive Act (N : ℕ)
  | lib (a : Uthread.Act N)
  | compute (p : Fin N) (regs : Registers) (mem : ℕ → ℕ)
  | asm (p : Fin N)

/-- Processor `p` enters the assembly code: the operands are loaded. -/
def Sys.load (s : Sys N) (p : Fin N) (c : Site) (toThread : Tid) : Sys N :=
  let self := (s.core.proc p).thread
  let x := (((s.cpu p).set cfg.operands.fromThread self).set cfg.operands.toThread toThread).set
    cfg.operands.state c.stoppingThreadState.number
  ((s.setCpu p x).enter self x.regs).goto p (some (cfg.abi.uthreadSwitch cfg.operands))

/-- **The step function.** -/
def step (s : Sys N) : Act N → Option (Sys N)
  | .lib a => match s.code a.proc, (s.core.proc a.proc).pc with
    | some _, _ => none
    | none, .switchSwap _ _ => none
    | none, _ => (Uthread.step s.core a).map fun c => match a with
      | .call p .create => { s.newThread cfg p s.core.fresh with core := c }
      | _ => { s with core := c }
  | .compute p R m => match s.code p with
    | some _ => none
    | none => some (s.setCpu p { s.cpu p with regs := R, mem := m })
  | .asm p => match s.code p with
    | none => match (s.core.proc p).pc with
      | .switchSwap c t => some (s.load cfg p c t)
      | _ => none
    | some [] => some (s.goto p none)
    | some (.storeState _ _ :: rest) =>
      (Uthread.step s.core (.run p)).map fun c => { s.goto p (some rest) with core := c }
    | some (i :: rest) => some ((s.setCpu p (exec cfg (s.cpu p) i)).goto p (some rest))

/-- The state in which `uthread_init` returns, from any contents of the memory, of the registers `R`
of the first processor, and of those of the others, `Rs`. Thread `1` has been created by the first
processor. -/
def init (R : Registers) (Rs : Fin N → Registers) (m : ℕ → ℕ) : Sys N :=
  let x : Cpu := Cpu.newThread cfg ⟨R, m, fun _ => 0⟩ 1
  { core := Uthread.init N
    regs := fun p => if p.val = 0 then x.regs else Rs p
    code := fun _ => none
    mem := x.mem
    savedSp := x.savedSp
    entry := fun _ => freshRegisters cfg 1 (Function.update R cfg.thread 1) }

end Assembly

end Uthread
