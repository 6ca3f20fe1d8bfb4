import Cs213.Uthread.Queues
import Cs213.Uthread.Scheduler

set_option relaxedAutoImplicit false
set_option autoImplicit false

/-!
# The queues of the thread system

The thread system has lists in place of the linked queues. The calls of `enqueue` and `dequeue` that
it makes put a thread on a queue only when it is on none, as long as no joiner is woken up twice; so
the linked queues hold what the lists say.

## Main definitions

* `Uthread.State.queueCall` — the call of `enqueue` or `dequeue` in a step.
* `Uthread.queueCalls` — the calls in a run.

## Main results

* `Uthread.queues_of_step` — a step changes the lists as its call does.
* `Uthread.represents_readyQueueEnqueue`, `Uthread.represents_readyQueueDequeue` — the calls on the
  ready queue.
* `Uthread.Owned.mayCall` — a thread that is enqueued is on no queue.
* `Uthread.represents_of_run` — the linked queues after the calls of a run represent the lists.
-/

namespace Uthread

open Runs Placement Queues

variable {N : ℕ} {s t : State N} {a : Act N}

/-- The call of `enqueue` or `dequeue` in a step: `none` is the ready queue, and `some m` the waiter
queue of a monitor. -/
def State.queueCall (s : State N) : Act N → Option (Queues.Call (Option Mid))
  | .call _ _ => none
  | .run p => match (s.proc p).pc with
    | .createEnqueue t | .startEnqueue _ t => some (.enqueue none t)
    | .yieldEnqueue => some (.enqueue none (s.proc p).thread)
    | .stopDequeue _ => some (.dequeue none)
    | .enterLock m | .enterRelock m =>
      if (s.monitor m).holder = none then none else some (.enqueue (some m) (s.proc p).thread)
    | .exitLock m =>
      if (s.monitor m).holder = some (s.proc p).thread then some (.dequeue (some m)) else none
    | _ => none

/-- The queues after a call, if any. -/
def afterCall (l : Option Mid → List Tid) :
    Option (Queues.Call (Option Mid)) → Option Mid → List Tid
  | some c => listCall l c
  | none => l

/-- The calls in a run. -/
def queueCalls : State N → List (Act N) → List (Queues.Call (Option Mid))
  | _, [] => []
  | s, a :: as => (s.queueCall a).toList ++ (step s a).elim [] fun t => queueCalls t as

/-! ### The lists after an update -/

section Update

variable (p : Fin N) (pc : Pc) (u : Tid) (b : TCB) (m : Mid) (x : Monitor) (c : Site)

@[simp] lemma queues_none : s.queues none = s.readyQueue := rfl
@[simp] lemma queues_some : s.queues (some m) = (s.monitor m).waiterQueue := rfl

@[simp] lemma queues_goto : (s.goto p pc).queues = s.queues := by
  funext q
  cases q <;> rfl

@[simp] lemma queues_setTcb : (s.setTcb u b).queues = s.queues := by
  funext q
  cases q <;> rfl

@[simp] lemma queues_uthreadSwap : (uthreadSwap s p c u).queues = s.queues := by
  funext q
  cases q <;> rfl

@[simp] lemma queues_readyQueue (l : List Tid) :
    ({ s with readyQueue := l }).queues = Function.update s.queues none l := by
  funext q
  cases q <;> rfl

@[simp] lemma queues_readyQueueEnqueue :
    (s.readyQueueEnqueue u).queues = Function.update s.queues none (s.readyQueue ++ [u]) :=
  queues_readyQueue _

@[simp] lemma queues_setMonitor :
    (s.setMonitor m x).queues = Function.update s.queues (some m) x.waiterQueue := by
  funext q
  cases q with
  | none => rfl
  | some k =>
    by_cases hk : k = m
    · subst hk
      simp
    · simp [hk]

end Update

/-- **A step changes the lists** as its call does. -/
theorem queues_of_step (h : step s a = some t) : t.queues = afterCall s.queues (s.queueCall a) := by
  cases trans_of_step h with
  | callCreate =>
    funext q
    cases q <;> rfl
  | enterTake p self m pc hp hpc hl hh =>
    rcases hpc with rfl | rfl <;> simp [State.queueCall, afterCall, hp, hh]
  | enterWait p self m pc u hp hpc hl hh =>
    rcases hpc with rfl | rfl <;> simp [State.queueCall, afterCall, listCall, hp, hh]
  | _ => simp_all [State.queueCall, afterCall, listCall]

/-! ### The ready queue -/

section Ready

variable {store : Store (Option Mid)} (h : Represents store s.queues)

include h

/-- `ready_queue_enqueue` does what the thread system does with its list. -/
theorem represents_readyQueueEnqueue {u : Tid} (hu : ∀ q, u ∉ s.queues q) :
    Represents (readyQueueEnqueue u store) (s.readyQueueEnqueue u).queues := by
  rw [queues_readyQueueEnqueue]
  exact h.enqueue hu

/-- `ready_queue_dequeue` returns the first thread of the list, if any. -/
theorem readyQueueDequeue_fst : (readyQueueDequeue store).1 = s.readyQueue.head? := h.dequeue_fst

/-- `ready_queue_dequeue` takes the first thread off the list. -/
theorem represents_readyQueueDequeue : Represents (readyQueueDequeue store).2
    ({ s with readyQueue := s.readyQueue.tail }).queues := by
  rw [queues_readyQueue]
  exact h.dequeue

end Ready

/-! ### The calls are admissible -/

/-- A thread that a processor enqueues is in its hands. -/
lemma mem_contents_of_queueCall {q : Option Mid} {v : Tid}
    (h : s.queueCall a = some (.enqueue q v)) : v ∈ s.contents (.proc a.proc) := by
  cases a with
  | call p op => cases h
  | run p =>
    show v ∈ (s.proc p).pc.carries (s.proc p).thread
    unfold State.queueCall at h
    cases hpc : (s.proc p).pc <;> simp_all [Pc.carries]

/-- What is in the hands of a processor is on no queue. -/
lemma Owned.not_mem_queues (h : Owned (fun _ => True) s) {p : Fin N} {v : Tid}
    (hv : v ∈ s.contents (.proc p)) (q : Option Mid) : v ∉ s.queues q := by
  intro hq
  cases q with
  | none => cases (h.exclusive v trivial).unique .ready (.proc p) hq hv
  | some m => cases (h.exclusive v trivial).unique (.waiter m) (.proc p) hq hv

/-- **A thread that is enqueued is on no queue.** -/
theorem Owned.mayCall (h : Owned (fun _ => True) s) {c : Queues.Call (Option Mid)}
    (hc : s.queueCall a = some c) : MayCall s.queues c := by
  cases c with
  | enqueue q v => exact h.not_mem_queues (mem_contents_of_queueCall hc)
  | dequeue q => trivial

/-! ### Runs -/

/-- The calls in a run that is extended by one step. -/
lemma queueCalls_concat {as : List (Act N)} (h : run step s as = some t) :
    queueCalls s (as ++ [a]) = queueCalls s as ++ (t.queueCall a).toList := by
  induction as generalizing s with
  | nil =>
    cases h
    cases hs : step t a <;> simp [queueCalls, hs]
  | cons b as ih =>
    obtain ⟨u, hu, hr⟩ := Option.bind_eq_some_iff.mp h
    simp [queueCalls, hu, ih hr]

/-- `uthread_init` puts the thread that runs `pthread_base` on the ready queue. -/
def initCalls : List (Queues.Call (Option Mid)) := [.enqueue none 1]

lemma lists_initCalls : lists initCalls = (init N).queues := by
  funext q
  cases q <;> rfl

/-- **The calls of a run** are admissible, and the lists are what they stand for. -/
theorem admissible_of_run (hN : 0 < N) {acts : List (Act N)}
    (hC : AllSteps step (fun s a => ¬ Rewakes (fun _ => True) s a) (init N) acts)
    (h : run step (init N) acts = some t) :
    Admissible (initCalls ++ queueCalls (init N) acts) ∧
      lists (initCalls ++ queueCalls (init N) acts) = t.queues := by
  have hrun : Inv (fun _ => True) t ∧ Admissible (initCalls ++ queueCalls (init N) acts) ∧
      lists (initCalls ++ queueCalls (init N) acts) = t.queues := by
    refine induct_of_allSteps (motive := fun as t => Inv (fun _ => True) t ∧
      Admissible (initCalls ++ queueCalls (init N) as) ∧
        lists (initCalls ++ queueCalls (init N) as) = t.queues) ?_ ?_ hC h
    · refine ⟨inv_init hN _, ?_, lists_initCalls⟩
      exact admissible_nil.concat fun _ => List.not_mem_nil
    · rintro as a t u ht ⟨hinv, hadm, hlists⟩ ha hu
      refine ⟨hinv.step (fun _ _ => trivial) ha hu, ?_⟩
      rw [queueCalls_concat ht, ← List.append_assoc, queues_of_step hu]
      cases hcall : t.queueCall a with
      | none =>
        rw [Option.toList_none, List.append_nil]
        exact ⟨hadm, hlists⟩
      | some c =>
        rw [Option.toList_some, lists_concat, hlists]
        refine ⟨hadm.concat ?_, rfl⟩
        rw [hlists]
        exact hinv.owned.mayCall hcall
  exact hrun.2

/-- **The linked queues hold what the lists say**, in every run in which no joiner is woken up
twice. -/
theorem represents_of_run (hN : 0 < N) (next : Tid → Option Tid) {acts : List (Act N)}
    (hC : AllSteps step (fun s a => ¬ Rewakes (fun _ => True) s a) (init N) acts)
    (h : run step (init N) acts = some t) :
    Represents (after next (initCalls ++ queueCalls (init N) acts)) t.queues := by
  obtain ⟨hadm, hlists⟩ := admissible_of_run hN hC h
  rw [← hlists]
  exact represents_after hadm

theorem represents_joinAndExit : (run step (init 1) joinAndExit).isSome ∧
    ∀ t, run step (init 1) joinAndExit = some t →
      Represents (after (fun _ => some 7) (initCalls ++ queueCalls (init 1) joinAndExit))
        t.queues :=
  ⟨by decide +kernel, fun _ =>
    represents_of_run (by decide) (fun _ => some 7) (by decide +kernel)⟩

end Uthread
