import Cs213.Uthread.Idle
import Cs213.Uthread.Ownership

set_option relaxedAutoImplicit false
set_option autoImplicit false

/-!
# The scheduler over whole runs

What holds in every state that the thread system reaches: every thread is on at most one queue and
executed by at most one processor, and no processor ever finds the ready queue empty.

The first part fails in a run in which a processor that has switched away from a thread tests its
state after the thread has exited elsewhere: the thread's joiner is put on the ready queue twice.

## Main definitions

* `Uthread.Inv` — the invariants of the thread system together.
* `Uthread.Scheduled` — what the scheduler promises about a state.
* `Uthread.doubleWake` — a run in which a joiner is woken up twice.

## Main results

* `Uthread.inv_of_run` — the invariants along a run.
* `Uthread.scheduled_of_not_rewakes` — the promise holds throughout every run in which no exit of
  a dead thread finds a joiner.
* `Uthread.doubleWake_not_scheduled` — and not in all runs.
-/

namespace Uthread

open Runs Placement

variable {N : ℕ} {s t : State N} {a : Act N} {G : Tid → Prop}

/-! ## The invariants together -/

/-- The invariants of the thread system. -/
structure Inv (G : Tid → Prop) (s : State N) : Prop where
  allocated : Allocated s
  joinGuarded : JoinGuarded s
  monitorGuarded : MonitorGuarded s
  owned : Owned G s
  idle : Idle s

/-- The invariants are kept by every step that does not wake a joiner in `G` twice. -/
lemma Inv.step (hG : ∀ v, v ≠ 0 → G v) (h : Inv G s) (hC : ¬ Rewakes G s a)
    (ht : Uthread.step s a = some t) : Inv G t :=
  have ht := trans_of_step ht
  { allocated := h.allocated.step ht
    joinGuarded := h.joinGuarded.step h.allocated ht
    monitorGuarded := h.monitorGuarded.step ht
    owned := h.owned.step h.allocated h.joinGuarded ht hG hC
    idle := h.idle.step ht }

/-- The invariants hold in the first state. -/
lemma inv_init (hN : 0 < N) (G : Tid → Prop) : Inv G (init N) where
  allocated := allocated_init hN
  joinGuarded := joinGuarded_init
  monitorGuarded := monitorGuarded_init
  owned := owned_init G
  idle := idle_init

/-- **The invariants hold along every run** in which no joiner in `G` is woken up twice. -/
theorem inv_of_run (hN : 0 < N) (hG : ∀ v, v ≠ 0 → G v) {acts : List (Act N)}
    (h : AllSteps step (fun s a => ¬ Rewakes G s a) (init N) acts) :
    Throughout step (Inv G) (init N) acts :=
  throughout_of_invariant (fun _ _ _ hi hC ht => hi.step hG hC ht) (inv_init hN G) h

/-! ## What the scheduler promises -/

/-- The queues: the ready queue and the waiter queue of each monitor. -/
def State.queues (s : State N) : Option Mid → List Tid
  | none => s.readyQueue
  | some m => (s.monitor m).waiterQueue

/-- The thread that a processor has dequeued and still has to switch to. -/
def Pc.dequeued : Pc → Option Tid
  | .switchSpin _ t | .switchSwap _ t => some t
  | _ => none

/-- **The promise of the scheduler** about a state. -/
structure Scheduled (s : State N) : Prop where
  /-- Every thread is on at most one queue, at most once. -/
  queued : ∀ t, Exclusive s.queues t
  /-- No thread is executed by two processors. -/
  alone : ∀ p q, (s.proc p).thread = (s.proc q).thread → p = q
  /-- No thread has been dequeued by two processors that still have to switch to it. -/
  dequeued : ∀ p q t, (s.proc p).pc.dequeued = some t → (s.proc q).pc.dequeued = some t → p = q
  /-- The ready queue is not empty when `uthread_stop` takes a thread off it. -/
  nonempty : ∀ p c, (s.proc p).pc = .stopDequeue c → s.readyQueue ≠ []
  /-- `assert (to_thread)` has not failed. -/
  asserted : ∀ p, (s.proc p).pc ≠ .aborted .toThread

lemma Pc.mem_carries_of_dequeued {pc : Pc} (self : Tid) {v : Tid} (h : pc.dequeued = some v) :
    v ∈ pc.carries self := by
  cases pc <;> simp_all [Pc.dequeued, Pc.carries]

/-- The invariants imply the promise. -/
lemma Inv.scheduled (h : Inv (fun _ => True) s) : Scheduled s where
  queued v := by
    have hex := h.owned.exclusive v trivial
    constructor
    · rintro (_ | m)
      · exact hex.count_le .ready
      · exact hex.count_le (.waiter m)
    · rintro (_ | m) (_ | k) hl hk
      · rfl
      · cases hex.unique .ready (.waiter k) hl hk
      · cases hex.unique (.waiter m) .ready hl hk
      · cases hex.unique (.waiter m) (.waiter k) hl hk
        rfl
  alone p q := h.owned.alone p q trivial
  dequeued p q v hp hq := by
    have hp : v ∈ s.contents (.proc p) := Pc.mem_carries_of_dequeued _ hp
    have hq : v ∈ s.contents (.proc q) := Pc.mem_carries_of_dequeued _ hq
    exact Place.proc.inj ((h.owned.exclusive v trivial).unique _ _ hp hq)
  nonempty _ _ := h.idle.readyQueue_ne_nil
  asserted := h.idle.asserted

/-- **Ownership.** In every run on `N` processors in which no exit of a thread takes the join
spinlock when the thread is already dead and has a joiner, the scheduler keeps its promise in
every state. -/
theorem scheduled_of_not_rewakes (hN : 0 < N) (acts : List (Act N))
    (h : AllSteps step (fun s a => ¬ Rewakes (fun _ => True) s a) (init N) acts) :
    Throughout step Scheduled (init N) acts :=
  fun pre suf e t ht => (inv_of_run hN (fun _ _ => trivial) h pre suf e t ht).scheduled

/-- On two processors: thread `0` creates thread `3` and joins it, and thread `3` is executed on
processor `1`. -/
def forkJoin : List (Act 2) :=
  [.call 0 .create, .run 0, .call 0 (.join 3)] ++ runs 0 10 ++ [.call 1 .yield] ++ runs 1 6 ++
  [.call 1 (.ret 7)] ++ runs 1 12

theorem scheduled_joinsAcross :
    (run step (init 2) forkJoin).map (fun s => ((s.proc 0).thread, (s.proc 1).thread,
      s.readyQueue)) = some (1, 2, [0]) ∧
      Throughout step Scheduled (init 2) forkJoin :=
  ⟨by decide +kernel, scheduled_of_not_rewakes (by decide) forkJoin (by decide +kernel)⟩

/-- On one processor thread `0` creates thread `2` and joins it; thread `2` returns, and its exit
wakes up thread `0`. -/
def joinAndExit : List (Act 1) :=
  [.call 0 .create, .run 0, .call 0 (.join 2)] ++ runs 0 10 ++ [.call 0 .yield] ++ runs 0 6 ++
  [.call 0 (.ret 7)] ++ runs 0 12

/-! ## A joiner that is woken up twice -/

/-- The thread that a call joins. -/
def Act.joins : Act N → Option Tid
  | .call _ (.join t) => some t
  | _ => none

/-- Thread `0` creates thread `3` and joins it; processor `0` gets to run thread `3`, which yields.
Before processor `0` has tested whether thread `3` is dying, thread `3` is resumed on processor `1`
and returns. Both processors now complete its exit. -/
def doubleWake : List (Act 2) :=
  [.call 0 .create, .run 0, .call 0 (.join 3)] ++ runs 0 10 ++
  [.call 0 .yield] ++ runs 0 6 ++ [.call 0 .yield] ++ runs 0 4 ++
  [.call 1 .yield] ++ runs 1 6 ++ [.call 1 (.ret 7)] ++ runs 1 4 ++
  runs 0 1 ++ runs 1 7 ++ runs 0 5

/-- In the last state of the run the joiner is on the ready queue twice. -/
lemma doubleWake_readyQueue :
    (run step (init 2) doubleWake).map State.readyQueue = some [0, 0] := by
  decide +kernel

/-- **The promise is broken** in some run in which every thread is joined once at most. -/
theorem doubleWake_not_scheduled :
    ¬ ∀ N, 0 < N → ∀ acts : List (Act N), (acts.filterMap Act.joins).Nodup →
      Throughout step Scheduled (init N) acts := by
  intro h
  have h := h 2 (by decide) doubleWake (by decide)
  obtain ⟨s, hs, hq⟩ := Option.map_eq_some_iff.mp doubleWake_readyQueue
  have hle := ((h doubleWake [] (List.append_nil _).symm s hs).queued 0).count_le none
  simp [State.queues, hq] at hle

end Uthread
