import Mathlib.Data.Nat.Notation
import Mathlib.Logic.Function.Basic

set_option relaxedAutoImplicit false
set_option autoImplicit false

/-!
# The state of the thread system

The data of `a9/uthread.c`: thread control blocks, the ready queue, the monitors, and what each
processor (pthread) is executing.

A processor runs the code of one thread at a time; where it is in that code is its *program
counter* `Pc`, which names the next access to shared memory together with the local variables
that are live there. A thread that is not running is represented by what `saved_sp` points at, a
`Frame`: the frame that `uthread_new_thread` lays out, or the frame of the call of
`uthread_switch` in which the thread stopped.

## Main definitions

* `Uthread.TCB`, `Uthread.Monitor` — `struct uthread_TCB` and `struct uthread_monitor`.
* `Uthread.Site` — the calls of `uthread_stop`.
* `Uthread.Pc` — the program points of `uthread.c`.
* `Uthread.State` — the shared memory and the processors.
* `Uthread.init` — the state `uthread_init` leaves.

## Implementation notes

The address of a thread control block is a number, handed out in order and never reused. The
intrusive queues are lists. A list is what the linked queue holds as long as no thread is enqueued
that is on a queue already (`Uthread.represents_of_run`). An exit that is completed twice
(`Uthread.Rewakes`) can enqueue its joiner a second time: the list then has both entries, while the
source makes the queue loop, or cuts off the threads behind the first one.
`uthread_self` is the thread the processor executes. The two macros that choose how a pthread gets
its stack, and `pthread_base`'s table of stack bounds, only serve `uthread_self`; the stacks are
modelled in `Uthread.Stacks`.
-/

namespace Uthread

/-- The address of a thread control block. -/
abbrev Tid := ℕ

/-- The address of a monitor. -/
abbrev Mid := ℕ

/-- A `void*`; `none` is the content of memory nobody has written. -/
abbrev Value := Option ℕ

/-- The states of a thread, `TS_NASCENT` to `TS_DEAD`. -/
inductive ThreadState
  | nascent
  | running
  | runable
  | blocked
  | dying
  | dead
  deriving DecidableEq, Repr

/-- The field `joiner`: `0`, `(uthread_t*) -1`, or a thread. -/
inductive Joiner
  | null
  | detached
  | thread (t : Tid)
  deriving DecidableEq, Repr

/-- The procedures a thread can run: the initial thread runs `main`, the threads `uthread_init`
makes run `pthread_base`, and the others run a procedure of the program. -/
inductive StartProc
  | main
  | pthreadBase
  | client
  deriving DecidableEq, Repr

/-- The calls of `uthread_stop`: in `uthread_yield`, in `uthread_join` of a thread, in
`uthread_monitor_enter` of a monitor, and after the thread's `start_proc` has returned. -/
inductive Site
  | yield
  | join (thread : Tid)
  | enter (monitor : Mid)
  | exit
  deriving DecidableEq, Repr

/-- The argument of the call of `uthread_stop`. -/
def Site.stoppingThreadState : Site → ThreadState
  | yield => .runable
  | join _ => .blocked
  | enter _ => .blocked
  | exit => .dying

/-- What `saved_sp` points at: nothing, the frame `uthread_new_thread` lays out, or the frame of
`uthread_switch` as called from `uthread_stop` at a site. -/
inductive Frame
  | null
  | fresh
  | inside (c : Site)
  deriving DecidableEq, Repr

/-- `struct uthread_TCB`. The field `freed` counts the calls of `uthread_free` on the block. -/
structure TCB where
  state : ThreadState
  savedSp : Frame
  startProc : StartProc
  returnVal : Value
  joinSpinlock : Bool
  joiner : Joiner
  freed : ℕ
  deriving DecidableEq, Repr

/-- `uthread_alloc`. -/
def uthreadAlloc (proc : StartProc) : TCB where
  state := .nascent
  savedSp := .null
  startProc := proc
  returnVal := none
  joinSpinlock := false
  joiner := .null
  freed := 0

/-- `uthread_new_thread`. -/
def uthreadNewThread (proc : StartProc) : TCB :=
  { uthreadAlloc proc with savedSp := .fresh }

/-- `struct uthread_monitor`. -/
structure Monitor where
  holder : Option Tid
  spinlock : Bool
  waiterQueue : List Tid
  deriving DecidableEq, Repr

/-- `uthread_monitor_create`. -/
def uthreadMonitorCreate : Monitor := ⟨none, false, []⟩

/-- The callers of `uthread_start`: `uthread_switch` on behalf of a dying thread (and the frame
to which it returns), or `uthread_monitor_exit`. -/
inductive Starter
  | dying (fromThread : Tid) (frame : Frame)
  | exit (monitor : Mid)
  deriving DecidableEq, Repr

/-- The assertions of the code. -/
inductive Assertion
  | toThread
  | holder
  deriving DecidableEq, Repr

/-- The program points. Each is named after its function and what it does next; the arguments are
the live local variables. -/
inductive Pc
  /-- in the code of the program, outside `uthread.c` -/
  | user
  /-- `uthread_create`: put the new thread on the ready queue -/
  | createEnqueue (thread : Tid)
  /-- `uthread_yield`: put the running thread on the ready queue -/
  | yieldEnqueue
  /-- `uthread_stop`: take the next thread off the ready queue -/
  | stopDequeue (c : Site)
  /-- `uthread_switch`: test `to_thread->state` in the spin loop -/
  | switchSpin (c : Site) (toThread : Tid)
  /-- `uthread_switch`: save the running thread and load the other's stack pointer -/
  | switchSwap (c : Site) (toThread : Tid)
  /-- `uthread_switch`, on the new stack: test `from_thread->state` for `TS_DYING` -/
  | switchDying (fromThread : Tid) (frame : Frame)
  /-- lock the join spinlock of the dying thread -/
  | dyingLock (fromThread : Tid) (frame : Frame)
  /-- read the joiner of the dying thread, and free the thread if it is detached -/
  | dyingJoiner (fromThread : Tid) (frame : Frame)
  /-- store `TS_DEAD` -/
  | dyingDead (fromThread : Tid) (frame : Frame)
  /-- unlock the join spinlock of the dead thread -/
  | dyingUnlock (fromThread : Tid) (frame : Frame)
  /-- the end of `uthread_switch`: set the new thread running -/
  | switchResume (frame : Frame)
  /-- `uthread_start`: test whether the thread is still running -/
  | startTest (r : Starter) (thread : Tid)
  /-- `uthread_start`: store `TS_RUNABLE` -/
  | startRunable (r : Starter) (thread : Tid)
  /-- `uthread_start`: put the thread on the ready queue -/
  | startEnqueue (r : Starter) (thread : Tid)
  /-- `uthread_join`: test `joiner`, outside the lock -/
  | joinTest (thread : Tid)
  | joinLock (thread : Tid)
  /-- `uthread_join`: test `state`, under the lock -/
  | joinState (thread : Tid)
  /-- `uthread_join`: store the caller in `joiner` -/
  | joinSet (thread : Tid)
  | joinUnlock (thread : Tid)
  /-- `uthread_join`: read `return_val`; the flag says whether the call has stopped -/
  | joinValue (stopped : Bool) (thread : Tid)
  | joinFree (stopped : Bool) (thread : Tid) (returnVal : Value)
  | joinReturn (stopped : Bool) (thread : Tid) (returnVal : Value)
  /-- `uthread_detach`: test `joiner`, outside the lock -/
  | detachTest (thread : Tid)
  | detachLock (thread : Tid)
  | detachState (thread : Tid)
  | detachSet (thread : Tid)
  | detachUnlock (thread : Tid)
  | detachFree (thread : Tid)
  /-- `uthread_monitor_enter`: lock, test `holder` and take the monitor or join its queue -/
  | enterLock (monitor : Mid)
  /-- the same at the end of the loop body, after the call of `uthread_stop` -/
  | enterRelock (monitor : Mid)
  /-- `uthread_monitor_enter`: unlock, to stop -/
  | enterUnlockWait (monitor : Mid)
  /-- `uthread_monitor_enter`: unlock, to return -/
  | enterUnlock (monitor : Mid)
  /-- `uthread_monitor_exit`: lock, check and clear `holder`, take a thread off the queue -/
  | exitLock (monitor : Mid)
  | exitUnlock (monitor : Mid) (waiterThread : Option Tid)
  /-- an assertion has failed -/
  | aborted (a : Assertion)
  /-- control has left the code: `uthread_switch` has returned into a frame nobody called it from -/
  | wild
  deriving DecidableEq, Repr

/-- A processor: the thread it executes and where in the code it is. -/
structure Proc where
  thread : Tid
  pc : Pc
  deriving DecidableEq, Repr

/-- The state of the system on `N` processors. Addresses from `fresh` on are not allocated. -/
structure State (N : ℕ) where
  proc : Fin N → Proc
  tcb : Tid → TCB
  fresh : Tid
  readyQueue : List Tid
  monitor : Mid → Monitor

/-- The thread control blocks `uthread_init` makes for `N` processors: the initial thread, one
thread on the ready queue, and one thread for each pthread it creates. -/
def initTcb (N : ℕ) (t : Tid) : TCB :=
  if t = 0 then { uthreadAlloc .main with state := .running }
  else if t = 1 then uthreadNewThread .pthreadBase
  else if t ≤ N then { uthreadNewThread .pthreadBase with state := .running }
  else uthreadAlloc .client

/-- The state `uthread_init` leaves: processor `0` executes the initial thread, every other
processor its `pthread_base` thread, and one more of these is on the ready queue. -/
def init (N : ℕ) : State N where
  proc p := ⟨if p.val = 0 then 0 else p.val + 1, .user⟩
  tcb := initTcb N
  fresh := N + 1
  readyQueue := [1]
  monitor _ := uthreadMonitorCreate

end Uthread
