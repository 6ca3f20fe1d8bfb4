import Cs213.Uthread.Calls

set_option relaxedAutoImplicit false
set_option autoImplicit false

/-!
# The reader/writer program in monitor mode

`a9/reader_writer_test.c` with `read_proc = read_mon` and `write_proc = write_mon`: the initial
thread creates reader and writer threads and joins them, and each of these enters and exits one
monitor around its accesses to the two counters.

The program runs on top of the thread system. What a thread does next, at `Uthread.Pc.user`, is its
`Code`; a step is a step of a processor inside `uthread.c`, or a step of a thread's own code, which
calls a function of the library or makes one access to a shared variable.

## Main definitions

* `ReaderWriter.Config` — the constants of the program and its argument.
* `ReaderWriter.Code` — what a thread does next.
* `ReaderWriter.Sys` — the thread system, the code of each thread and the shared variables.
* `ReaderWriter.step` — the step function.

## Implementation notes

The counters are natural numbers, that is, their total does not overflow; `count` is what `atoi`
has made of the argument, and may be negative. `do_some_work` accesses nothing shared and is left
out. The process ends when `main` returns; here the other threads may then still take steps.

An exit that is completed twice (`Uthread.Rewakes`) puts the initial thread on the ready queue a
second time. Up to there the list `Uthread.State.readyQueue` is what the linked queue of the source
holds (`Uthread.represents_of_run`). If the first entry is then still on the queue, the list has
both, while the source drops the threads behind the first one or links the initial thread to itself:
from this step on the runs here are those of a queue that can hold a thread twice.
-/

namespace ReaderWriter

open Uthread

/-- `NUM_READER_THREADS`, `NUM_WRITER_THREADS` and the argument `count`. -/
structure Config where
  numReaderThreads : ℕ
  numWriterThreads : ℕ
  count : ℤ

/-- The number of threads that `do_test` creates. -/
def Config.numThreads (cfg : Config) : ℕ := cfg.numReaderThreads + cfg.numWriterThreads

/-- What the counters are compared with at the end. -/
def Config.total (cfg : Config) : ℤ := cfg.numWriterThreads * cfg.count

/-- `struct drive_test_arg`. -/
structure DriveTestArg where
  write : Bool
  count : ℤ
  deriving DecidableEq, Repr

/-- The monitor `mon`. -/
def mon : Mid := 0

/-- The points of `drive_test` and of what it calls; the arguments are values that have been
loaded. -/
inductive Point
  /-- `drive_test`: the test of the loop, and the call of `uthread_monitor_enter` -/
  | loop
  /-- `write`: load `c0`, to increment it -/
  | load0
  | store0 (c0 : ℕ)
  /-- `write`: load `c1`, to increment it -/
  | load1
  | store1 (c1 : ℕ)
  /-- `read` or `write`: load `c0`, to compare -/
  | check0
  /-- `read` or `write`: load `c1`, and compare -/
  | check1 (c0 : ℕ)
  /-- the call of `uthread_monitor_exit` -/
  | leave
  /-- `drive_test` has returned -/
  | finished
  deriving DecidableEq, Repr

/-- What a thread does next in its own code. -/
inductive Code
  /-- `pthread_base` -/
  | base
  /-- `do_test`: the first loop, which creates the threads -/
  | create (i : ℕ)
  /-- `do_test`: the second loop, which joins them -/
  | join (i : ℕ)
  /-- `do_test`: load `c0`, for the first comparison at the end -/
  | end0
  | end1 (c0 : ℕ)
  /-- `do_test`: load `c0`, for the second comparison -/
  | end2
  /-- `do_test`: the message at the end -/
  | endPrint
  /-- `main` has returned -/
  | done
  | drive (dta : DriveTestArg) (i : ℕ) (pt : Point)
  deriving DecidableEq, Repr

/-- The lines that the program prints. -/
inductive Message
  | readerError
  | writerError
  | endError (c0 c1 : ℕ) (total : ℤ)
  deriving DecidableEq, Repr

/-- The state of the program: the thread system, the code of each thread, the array `t` of
`do_test`, and the shared variables. -/
structure Sys (N : ℕ) where
  core : State N
  code : Tid → Code
  t : ℕ → Tid
  c0 : ℕ
  c1 : ℕ
  output : List Message

variable {N : ℕ}

/-- The thread on processor `p` goes on at `k`. -/
def Sys.goto (s : Sys N) (p : Fin N) (k : Code) : Sys N :=
  { s with code := Function.update s.code (s.core.proc p).thread k }

/-- The thread on processor `p` calls `op`, and goes on at `k` when the call returns. -/
def Sys.callThen (s : Sys N) (p : Fin N) (op : Op) (k : Code) : Option (Sys N) :=
  (Uthread.step s.core (.call p op)).map fun c => { s.goto p k with core := c }

/-- A step of a thread in `drive_test`. The function has no `return` statement: `garbage` is the
value its caller finds in the return register. -/
def drive (s : Sys N) (p : Fin N) (garbage : ℕ) (dta : DriveTestArg) (i : ℕ) :
    Point → Option (Sys N)
  | .loop =>
    if (i : ℤ) < dta.count then
      s.callThen p (.enter mon) (.drive dta i (if dta.write then .load0 else .check0))
    else s.callThen p (.ret garbage) (.drive dta i .finished)
  | .load0 => some (s.goto p (.drive dta i (.store0 s.c0)))
  | .store0 x => some ({ s with c0 := x + 1 }.goto p (.drive dta i .load1))
  | .load1 => some (s.goto p (.drive dta i (.store1 s.c1)))
  | .store1 x => some ({ s with c1 := x + 1 }.goto p (.drive dta i .check0))
  | .check0 => some (s.goto p (.drive dta i (.check1 s.c0)))
  | .check1 x =>
    let message := if dta.write then Message.writerError else .readerError
    some ({ s with output := if x ≠ s.c1 then s.output ++ [message] else s.output }.goto p
      (.drive dta i .leave))
  | .leave => s.callThen p (.exit mon) (.drive dta (i + 1) .loop)
  | .finished => none

/-- `do_test`: create thread `i`. -/
def create (cfg : Config) (s : Sys N) (p : Fin N) (i : ℕ) : Option (Sys N) :=
  let thread := s.core.fresh
  let dta : DriveTestArg := ⟨cfg.numReaderThreads ≤ i, cfg.count⟩
  (s.callThen p .create (.create (i + 1))).map fun s' =>
    { s' with t := Function.update s'.t i thread,
              code := Function.update s'.code thread (.drive dta 0 .loop) }

/-- A step of a thread in its own code. -/
def exec (cfg : Config) (s : Sys N) (p : Fin N) (garbage : ℕ) : Code → Option (Sys N)
  | .base => s.callThen p .yield .base
  | .create i => if i < cfg.numThreads then create cfg s p i else some (s.goto p (.join 0))
  | .join i =>
    if i < cfg.numThreads then s.callThen p (.join (s.t i)) (.join (i + 1))
    else some (s.goto p .end0)
  | .end0 => some (s.goto p (.end1 s.c0))
  | .end1 x => some (s.goto p (if x ≠ s.c1 then .endPrint else .end2))
  | .end2 => some (s.goto p (if (s.c0 : ℤ) ≠ cfg.total then .endPrint else .done))
  | .endPrint =>
    some ({ s with output := s.output ++ [Message.endError s.c0 s.c1 cfg.total] }.goto p .done)
  | .done => none
  | .drive dta i pt => drive s p garbage dta i pt

/-- A step: processor `p` goes on inside `uthread.c`, or in the code of the thread it executes. -/
inductive Act (N : ℕ)
  | lib (p : Fin N)
  | own (p : Fin N) (garbage : ℕ)
  deriving DecidableEq, Repr

/-- **The step function.** -/
def step (cfg : Config) (s : Sys N) : Act N → Option (Sys N)
  | .lib p => (Uthread.step s.core (.run p)).map fun c => { s with core := c }
  | .own p garbage =>
    if (s.core.proc p).pc = .user then exec cfg s p garbage (s.code (s.core.proc p).thread)
    else none

/-- The state in which `main` calls `do_test`. -/
def init (N : ℕ) : Sys N where
  core := Uthread.init N
  code u := if u = 0 then .create 0 else .base
  t _ := 0
  c0 := 0
  c1 := 0
  output := []

/-! ## What is claimed of the program -/

/-- The points between the call of `uthread_monitor_enter` and that of `uthread_monitor_exit`. -/
@[grind] def Point.bracketed : Point → Prop
  | .load0 | .store0 _ | .load1 | .store1 _ | .check0 | .check1 _ | .leave => True
  | .loop | .finished => False

@[grind] def Code.bracketed : Code → Prop
  | .drive _ _ pt => pt.bracketed
  | .base | .create _ | .join _ | .end0 | .end1 _ | .end2 | .endPrint | .done => False

/-- The thread on processor `p` is between the return of `uthread_monitor_enter` and the store
`holder = 0` of `uthread_monitor_exit`. -/
def Inside (s : Sys N) (p : Fin N) : Prop :=
  (s.core.proc p).pc = .user ∧ (s.code (s.core.proc p).thread).bracketed ∨
    (s.core.proc p).pc = .exitLock mon

/-- All reader and writer threads have been created and have finished. -/
def Finished (cfg : Config) (s : Sys N) : Prop :=
  ∀ i < cfg.numThreads, ∃ dta k, s.code (s.t i) = .drive dta k .finished

/-- **Monitor mode is correct** in a state, with `total` for the counters at the end. -/
structure MonitorMode (cfg : Config) (total : ℤ) (s : Sys N) : Prop where
  /-- At most one thread is inside the monitor. -/
  alone : ∀ p q, Inside s p → Inside s q → p = q
  /-- `assert (monitor->holder == uthread_self ())` has not failed. -/
  asserted : ∀ p, (s.core.proc p).pc ≠ .aborted .holder
  /-- No reader or writer has seen `c0 != c1`. -/
  checked : .readerError ∉ s.output ∧ .writerError ∉ s.output
  /-- At the end both counters have counted all writes. -/
  counted : Finished cfg s → (s.c0 : ℤ) = total ∧ s.c1 = s.c0

end ReaderWriter
