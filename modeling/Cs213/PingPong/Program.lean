import Mathlib.Data.Fin.VecNotation
import Cs213.Uthread.Lifetime

set_option relaxedAutoImplicit false
set_option autoImplicit false

/-!
# The program of `a8/ping_pong.c`

The initial thread computes `((1 + 2) - (3 + 4)) + 7` with four threads: it puts the arguments of
each operation into a block, creates a thread that is given the block, joins it, and loads the
result from the block whose address the thread has returned.

The program runs on top of the thread system. What a thread does next, at `Uthread.Pc.user`, is its
`Code`; a step is a step of a processor inside `uthread.c`, or a step of a thread's own code.

## Main definitions

* `PingPong.Config` — the constants of the program.
* `PingPong.Code` — what a thread does next.
* `PingPong.Sys` — the thread system, the code of each thread, the heap and the variables of `main`.
* `PingPong.step` — the step function.
* `PingPong.Correct` — what the program is to print.

## Implementation notes

The variables `t1` to `t4`, `t1_thread` to `t4_thread` and `r1` to `r4` are numbered from `0`. A
block of the heap has one address, and `malloc` does not hand out an address twice. `main` fills a
`struct Triple` before anybody else has its address, so the stores are part of the step that
allocates it. Memory that nobody has written has no content, and a load from it, or through the null
pointer, is a fault. The process ends when `main` returns; here the base threads may then still
yield.
-/

namespace PingPong

open Uthread

/-- `struct Triple`. -/
structure Triple where
  arg0 : BitVec 32
  arg1 : BitVec 32
  deriving DecidableEq, Repr

/-- The constants: the contents of `*t1` and `*t2`, and `t4->arg1`. -/
structure Config where
  t1 : Triple
  t2 : Triple
  last : BitVec 32

/-- The procedures of the threads. -/
inductive StartProc
  | add
  | sub
  deriving DecidableEq, Repr

/-- What a procedure computes. -/
def StartProc.apply : StartProc → Triple → BitVec 32
  | .add, x => x.arg0 + x.arg1
  | .sub, x => x.arg0 - x.arg1

/-- The content of a block of the heap. -/
inductive Block
  | triple (x : Triple)
  | int (v : BitVec 32)
  deriving DecidableEq, Repr

/-- The points of `add` and `sub`; the arguments are local variables and values that have been
loaded. -/
inductive Point
  | malloc
  | load0 (result : ℕ)
  | load1 (result : ℕ) (arg0 : BitVec 32)
  | store (result : ℕ) (v : BitVec 32)
  | ret (result : ℕ)
  | finished
  deriving DecidableEq, Repr

/-- The points of `main`. -/
inductive Main
  /-- allocate and fill the arguments of an operation -/
  | malloc (k : Fin 4)
  | create (k : Fin 4)
  | join (k : Fin 4)
  /-- load the result from the address that `uthread_join` has returned -/
  | load (k : Fin 4)
  | printf
  | done
  deriving DecidableEq, Repr

/-- The order of the points of `main`. -/
def Main.next : Main → Main
  | .malloc 0 => .malloc 1
  | .malloc 1 => .create 0
  | .create 0 => .create 1
  | .create 1 => .join 0
  | .load 0 => .join 1
  | .load 1 => .malloc 2
  | .malloc 2 => .create 2
  | .create 2 => .join 2
  | .load 2 => .malloc 3
  | .malloc 3 => .create 3
  | .create 3 => .join 3
  | .load 3 => .printf
  | .join k => .load k
  | .printf => .done
  | .done => .done

/-- What a thread does next in its own code. -/
inductive Code
  /-- `pthread_base` -/
  | base
  | main (m : Main)
  /-- `add` or `sub`, with the argument `x` -/
  | worker (proc : StartProc) (x : ℕ) (pt : Point)
  /-- a load has failed -/
  | fault
  deriving DecidableEq, Repr

/-- The state of the program. -/
structure Sys (N : ℕ) where
  core : State N
  code : Tid → Code
  heap : ℕ → Option Block
  /-- The next address that `malloc` returns. -/
  brk : ℕ
  t : Fin 4 → ℕ
  thread : Fin 4 → Tid
  r : Fin 4 → BitVec 32
  /-- What a thread's last call of `uthread_join` has returned. -/
  joined : Tid → Value
  output : List (BitVec 32)

/-- The arguments of an operation, when the results `r` have been loaded. -/
def args (cfg : Config) (r : Fin 4 → BitVec 32) : Fin 4 → Triple :=
  ![cfg.t1, cfg.t2, ⟨r 0, r 1⟩, ⟨r 2, cfg.last⟩]

/-- The procedures that `main` passes to `uthread_create`. -/
def proc : Fin 4 → StartProc := ![.add, .add, .sub, .add]

variable {N : ℕ}

/-- The thread on processor `p` goes on at `k`. -/
def Sys.goto (s : Sys N) (p : Fin N) (k : Code) : Sys N :=
  { s with code := Function.update s.code (s.core.proc p).thread k }

/-- The thread on processor `p` calls `op`, and goes on at `k` when the call returns. -/
def Sys.callThen (s : Sys N) (p : Fin N) (op : Op) (k : Code) : Option (Sys N) :=
  (Uthread.step s.core (.call p op)).map fun c => { s.goto p k with core := c }

/-- The `struct Triple` at an address. -/
def Sys.triple? (s : Sys N) (x : ℕ) : Option Triple :=
  match s.heap x with
  | some (.triple y) => some y
  | _ => none

/-- The `int` that a pointer points at. -/
def Sys.int? (s : Sys N) : Value → Option (BitVec 32)
  | some x => match s.heap x with
    | some (.int v) => some v
    | _ => none
  | none => none

/-- A step of a thread in `add` or `sub`. -/
def worker (s : Sys N) (p : Fin N) (proc : StartProc) (x : ℕ) : Point → Option (Sys N)
  | .malloc => some ({ s with brk := s.brk + 1 }.goto p (.worker proc x (.load0 s.brk)))
  | .load0 result =>
    some (s.goto p (match s.triple? x with
      | some y => .worker proc x (.load1 result y.arg0)
      | none => .fault))
  | .load1 result arg0 =>
    some (s.goto p (match s.triple? x with
      | some y => .worker proc x (.store result (proc.apply ⟨arg0, y.arg1⟩))
      | none => .fault))
  | .store result v =>
    some ({ s with heap := Function.update s.heap result (some (.int v)) }.goto p
      (.worker proc x (.ret result)))
  | .ret result => s.callThen p (.ret result) (.worker proc x .finished)
  | .finished => none

/-- A step of `main`. -/
def main (cfg : Config) (s : Sys N) (p : Fin N) (m : Main) : Option (Sys N) :=
  match m with
  | .malloc k =>
    some ({ s with
      heap := Function.update s.heap s.brk (some (.triple (args cfg s.r k)))
      brk := s.brk + 1
      t := Function.update s.t k s.brk }.goto p (.main m.next))
  | .create k =>
    let thread := s.core.fresh
    (s.callThen p .create (.main m.next)).map fun s' =>
      { s' with
        thread := Function.update s'.thread k thread
        code := Function.update s'.code thread (.worker (proc k) (s.t k) .malloc) }
  | .join k => s.callThen p (.join (s.thread k)) (.main m.next)
  | .load k =>
    some (match s.int? (s.joined (s.core.proc p).thread) with
      | some v => { s with r := Function.update s.r k v }.goto p (.main m.next)
      | none => s.goto p .fault)
  | .printf => some ({ s with output := s.output ++ [s.r 3] }.goto p (.main m.next))
  | .done => none

/-- A step of a thread in its own code. -/
def exec (cfg : Config) (s : Sys N) (p : Fin N) : Code → Option (Sys N)
  | .base => s.callThen p .yield .base
  | .main m => main cfg s p m
  | .worker proc x pt => worker s p proc x pt
  | .fault => none

/-- What the calls of `uthread_join` have returned, after a step of processor `p` inside
`uthread.c`. -/
def Sys.joinedAfter (s : Sys N) (p : Fin N) : Tid → Value :=
  match (s.core.proc p).pc with
  | .joinReturn _ _ v => Function.update s.joined (s.core.proc p).thread v
  | _ => s.joined

/-- A step: processor `p` goes on inside `uthread.c`, or in the code of the thread it executes. -/
inductive Act (N : ℕ)
  | lib (p : Fin N)
  | own (p : Fin N)
  deriving DecidableEq, Repr

/-- **The step function.** -/
def step (cfg : Config) (s : Sys N) : Act N → Option (Sys N)
  | .lib p => (Uthread.step s.core (.run p)).map fun c =>
      { s with core := c, joined := s.joinedAfter p }
  | .own p =>
    if (s.core.proc p).pc = .user then exec cfg s p (s.code (s.core.proc p).thread) else none

/-- The state in which `uthread_init` returns to `main`. -/
def init (N : ℕ) : Sys N where
  core := Uthread.init N
  code u := if u = 0 then .main (.malloc 0) else .base
  heap _ := none
  brk := 1
  t _ := 0
  thread _ := 0
  r _ := 0
  joined _ := none
  output := []

/-! ## What is claimed of the program -/

/-- What the program is to compute. -/
def result (cfg : Config) : BitVec 32 :=
  ((cfg.t1.arg0 + cfg.t1.arg1) - (cfg.t2.arg0 + cfg.t2.arg1)) + cfg.last

/-- **The program is correct** in a state: no load has failed, it prints nothing but the result, and
it has printed the result when `main` returns. -/
structure Correct (cfg : Config) (s : Sys N) : Prop where
  noFault : ∀ u, s.code u ≠ .fault
  output : s.output = [] ∨ s.output = [result cfg]
  done : s.code 0 = .main .done → s.output = [result cfg]

end PingPong
