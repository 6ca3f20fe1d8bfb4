import Cs213.Library.Runs
import Cs213.Uthread.State
import Mathlib.Algebra.GroupWithZero.Nat

set_option relaxedAutoImplicit false
set_option autoImplicit false

/-!
# The steps of the thread system

One step is one access to shared memory by one processor. The operations on the ready queue, which
the code does under its spinlock, are one step each, and so are the sections that
`uthread_monitor_enter` and `uthread_monitor_exit` run under the monitor's spinlock; the release
of that spinlock is a step of its own. A processor that finds a spinlock held has no step;
`Uthread.Spinlock.refines_mutex` says that a spinlock is as good as a lock that is locked in one
step.

## Main definitions

* `Uthread.Op` — what the code of a thread can do next: call a function of the library, or
  return from its `start_proc`.
* `Uthread.Act` — a step: processor `p` calls `op`, or goes on in the code of `uthread.c`.
* `Uthread.call`, `Uthread.exec`, `Uthread.step` — the step function.
-/

namespace Uthread

variable {N : ℕ}

/-! ## Updates of the state -/

/-- Processor `p` goes on at `pc`, with the same thread. -/
def State.goto (s : State N) (p : Fin N) (pc : Pc) : State N :=
  { s with proc := Function.update s.proc p ⟨(s.proc p).thread, pc⟩ }

/-- Write the thread control block of `t`. -/
def State.setTcb (s : State N) (t : Tid) (b : TCB) : State N :=
  { s with tcb := Function.update s.tcb t b }

/-- Write the monitor `m`. -/
def State.setMonitor (s : State N) (m : Mid) (x : Monitor) : State N :=
  { s with monitor := Function.update s.monitor m x }

/-- `ready_queue_enqueue`. -/
def State.readyQueueEnqueue (s : State N) (t : Tid) : State N :=
  { s with readyQueue := s.readyQueue ++ [t] }

/-- `uthread_free`. -/
def State.uthreadFree (s : State N) (t : Tid) : State N :=
  s.setTcb t { s.tcb t with freed := (s.tcb t).freed + 1 }

/-- The store `lock` in the join spinlock of `t`. -/
def State.setJoinSpinlock (s : State N) (t : Tid) (lock : Bool) : State N :=
  s.setTcb t { s.tcb t with joinSpinlock := lock }

/-- The store `st` in the state of `t`. -/
def State.setState (s : State N) (t : Tid) (st : ThreadState) : State N :=
  s.setTcb t { s.tcb t with state := st }

/-- The store `j` in the joiner of `t`. -/
def State.setJoiner (s : State N) (t : Tid) (j : Joiner) : State N :=
  s.setTcb t { s.tcb t with joiner := j }

/-! ## The code of `uthread.c` -/

/-- Where a call of `uthread_stop` returns to. The call for a dying thread is the last thing
`uthread_switch` does on that thread's stack. -/
def Site.return : Site → Pc
  | .yield => .user
  | .join t => .joinValue true t
  | .enter m => .enterRelock m
  | .exit => .wild

/-- Where a call of `uthread_start` returns to. -/
def Starter.return : Starter → Pc
  | .dying fromThread f => .dyingDead fromThread f
  | .exit _ => .user

/-- The four points at which a call of `uthread_stop` returns. -/
lemma Site.return_cases (c : Site) : c.return = .user ∨ (∃ t, c.return = .joinValue true t) ∨
    (∃ m, c.return = .enterRelock m) ∨ c.return = .wild := by
  cases c <;> simp [Site.return]

/-- The two points at which a call of `uthread_start` returns. -/
lemma Starter.return_cases (r : Starter) :
    (∃ t f, r = .dying t f ∧ r.return = .dyingDead t f) ∨ ∃ m, r = .exit m ∧ r.return = .user := by
  cases r <;> simp [Starter.return]

/-- `uthread_stop`: dequeue, `assert (to_thread)`, and the first test of `uthread_switch`, which
returns at once when the dequeued thread is the running one. -/
def uthreadStop (s : State N) (p : Fin N) (c : Site) : State N :=
  match s.readyQueue with
  | [] => s.goto p (.aborted .toThread)
  | t :: rest =>
    { s with readyQueue := rest }.goto p
      (if t = (s.proc p).thread then c.return else .switchSpin c t)

/-- The context switch: save the running thread with its new state, and run `t`. -/
def uthreadSwap (s : State N) (p : Fin N) (c : Site) (t : Tid) : State N :=
  let fromThread := (s.proc p).thread
  let s' := s.setTcb fromThread
    { s.tcb fromThread with savedSp := .inside c, state := c.stoppingThreadState }
  { s' with proc := Function.update s.proc p ⟨t, .switchDying fromThread (s'.tcb t).savedSp⟩ }

/-- The end of `uthread_switch`: a nascent thread calls its `start_proc`, another one returns to
where it called `uthread_stop`. -/
def uthreadResume (s : State N) (p : Fin N) (f : Frame) : State N :=
  let toThread := (s.proc p).thread
  let pc : Pc :=
    if (s.tcb toThread).state = .nascent then .user
    else match f with
      | .inside c => c.return
      | .fresh | .null => .wild
  (s.setState toThread .running).goto p pc

/-- The part of `uthread_monitor_enter` between two operations on the spinlock. -/
def monitorEnter (s : State N) (p : Fin N) (m : Mid) : Option (State N) :=
  let x := s.monitor m
  if x.spinlock then none
  else match x.holder with
    | none =>
      some ((s.setMonitor m { x with holder := some (s.proc p).thread, spinlock := true }).goto p
        (.enterUnlock m))
    | some _ =>
      some ((s.setMonitor m { x with waiterQueue := x.waiterQueue ++ [(s.proc p).thread],
                                     spinlock := true }).goto p (.enterUnlockWait m))

/-- The part of `uthread_monitor_exit` between the operations on the spinlock. -/
def monitorExit (s : State N) (p : Fin N) (m : Mid) : Option (State N) :=
  let x := s.monitor m
  if x.spinlock then none
  else if x.holder = some (s.proc p).thread then
    some ((s.setMonitor m ⟨none, true, x.waiterQueue.tail⟩).goto p
      (.exitUnlock m x.waiterQueue.head?))
  else some ((s.setMonitor m { x with spinlock := true }).goto p (.aborted .holder))

/-- The step of processor `p` at the program point `pc`. -/
def exec (s : State N) (p : Fin N) : Pc → Option (State N)
  | .user => none
  | .createEnqueue t => some ((s.readyQueueEnqueue t).goto p .user)
  | .yieldEnqueue =>
    some ((s.readyQueueEnqueue (s.proc p).thread).goto p (.stopDequeue .yield))
  | .stopDequeue c => some (uthreadStop s p c)
  | .switchSpin c t =>
    if (s.tcb t).state = .running then some s else some (s.goto p (.switchSwap c t))
  | .switchSwap c t => some (uthreadSwap s p c t)
  | .switchDying t f =>
    some (s.goto p (if (s.tcb t).state = .dying then .dyingLock t f else .switchResume f))
  | .dyingLock t f =>
    if (s.tcb t).joinSpinlock then none
    else some ((s.setJoinSpinlock t true).goto p (.dyingJoiner t f))
  | .dyingJoiner t f =>
    match (s.tcb t).joiner with
    | .detached => some ((s.uthreadFree t).goto p (.switchResume f))
    | .null => some (s.goto p (.dyingDead t f))
    | .thread j => some (s.goto p (.startTest (.dying t f) j))
  | .dyingDead t f => some ((s.setState t .dead).goto p (.dyingUnlock t f))
  | .dyingUnlock t f => some ((s.setJoinSpinlock t false).goto p (.switchResume f))
  | .switchResume f => some (uthreadResume s p f)
  | .startTest r t =>
    some (s.goto p (if (s.tcb t).state = .running then .startEnqueue r t else .startRunable r t))
  | .startRunable r t => some ((s.setState t .runable).goto p (.startEnqueue r t))
  | .startEnqueue r t => some ((s.readyQueueEnqueue t).goto p r.return)
  | .joinTest t =>
    some (s.goto p
      (if (s.tcb t).joiner = .null then .joinLock t else .joinReturn false t (some 0)))
  | .joinLock t =>
    if (s.tcb t).joinSpinlock then none
    else some ((s.setJoinSpinlock t true).goto p (.joinState t))
  | .joinState t =>
    some (s.goto p (if (s.tcb t).state = .dead then .joinValue false t else .joinSet t))
  | .joinSet t => some ((s.setJoiner t (.thread (s.proc p).thread)).goto p (.joinUnlock t))
  | .joinUnlock t => some ((s.setJoinSpinlock t false).goto p (.stopDequeue (.join t)))
  | .joinValue b t => some (s.goto p (.joinFree b t (s.tcb t).returnVal))
  | .joinFree b t v => some ((s.uthreadFree t).goto p (.joinReturn b t v))
  | .joinReturn _ _ _ => some (s.goto p .user)
  | .detachTest t =>
    some (s.goto p (if (s.tcb t).joiner = .null then .detachLock t else .user))
  | .detachLock t =>
    if (s.tcb t).joinSpinlock then none
    else some ((s.setJoinSpinlock t true).goto p (.detachState t))
  | .detachState t =>
    some (s.goto p (if (s.tcb t).state = .dead then .detachFree t else .detachSet t))
  | .detachSet t => some ((s.setJoiner t .detached).goto p (.detachUnlock t))
  | .detachUnlock t => some ((s.setJoinSpinlock t false).goto p .user)
  | .detachFree t => some ((s.uthreadFree t).goto p .user)
  | .enterLock m => monitorEnter s p m
  | .enterRelock m => monitorEnter s p m
  | .enterUnlockWait m =>
    some ((s.setMonitor m { s.monitor m with spinlock := false }).goto p
      (.stopDequeue (.enter m)))
  | .enterUnlock m => some ((s.setMonitor m { s.monitor m with spinlock := false }).goto p .user)
  | .exitLock m => monitorExit s p m
  | .exitUnlock m w =>
    some ((s.setMonitor m { s.monitor m with spinlock := false }).goto p
      (match w with | some t => .startTest (.exit m) t | none => .user))
  | .aborted _ => none
  | .wild => none

/-! ## What a thread can do -/

/-- What the code of a thread does next, at `Pc.user`. -/
inductive Op
  | create
  | yield
  | join (thread : Tid)
  | detach (thread : Tid)
  | enter (monitor : Mid)
  | exit (monitor : Mid)
  /-- return from `start_proc` -/
  | ret (returnVal : ℕ)
  deriving DecidableEq, Repr

/-- Whether a thread that runs `proc` can do `op`: `pthread_base` only calls `uthread_yield`, and
the process ends when `main` returns. -/
def StartProc.can : StartProc → Op → Bool
  | .pthreadBase, .yield => true
  | .pthreadBase, _ => false
  | .main, .ret _ => false
  | .main, _ => true
  | .client, _ => true

/-- Whether the handle a call is given is that of a thread that has been created. -/
def Op.valid (s : State N) : Op → Bool
  | .join t => t < s.fresh
  | .detach t => t < s.fresh
  | _ => true

/-- The first step of `op` on processor `p`. -/
def call (s : State N) (p : Fin N) : Op → State N
  | .create =>
    { s.setTcb s.fresh (uthreadNewThread .client) with fresh := s.fresh + 1 }.goto p
      (.createEnqueue s.fresh)
  | .yield => s.goto p .yieldEnqueue
  | .join t => s.goto p (.joinTest t)
  | .detach t => s.goto p (.detachTest t)
  | .enter m => s.goto p (.enterLock m)
  | .exit m => s.goto p (.exitLock m)
  | .ret v =>
    let self := (s.proc p).thread
    (s.setTcb self { s.tcb self with returnVal := some v }).goto p (.stopDequeue .exit)

/-- A step: the thread on processor `p` does `op`, or `p` goes on inside `uthread.c`. -/
inductive Act (N : ℕ)
  | call (p : Fin N) (op : Op)
  | run (p : Fin N)
  deriving DecidableEq, Repr

/-- The instances of the numerals for one processor and for two. -/
instance neZero_processor : NeZero 1 := ⟨by decide⟩
instance neZero_processors : NeZero 2 := ⟨by decide⟩

/-- The processor that takes a step. -/
def Act.proc : Act N → Fin N
  | .call p _ => p
  | .run p => p

@[simp, grind =] lemma Act.proc_call (p : Fin N) (op : Op) : (Act.call p op).proc = p := rfl
@[simp, grind =] lemma Act.proc_run (p : Fin N) : (Act.run p).proc = p := rfl

/-- **The step function.** -/
def step (s : State N) : Act N → Option (State N)
  | .call p op =>
    if (s.proc p).pc = .user ∧ (s.tcb (s.proc p).thread).startProc.can op ∧ op.valid s then
      some (call s p op)
    else none
  | .run p => exec s p (s.proc p).pc

/-- Processor `p` takes `n` steps inside `uthread.c`. -/
def runs (p : Fin N) (n : ℕ) : List (Act N) := List.replicate n (.run p)

end Uthread
