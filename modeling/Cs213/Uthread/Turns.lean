import Cs213.Uthread.QueueLists

set_option relaxedAutoImplicit false
set_option autoImplicit false

/-!
# Whose turn it is

The order in which the threads are switched to, as the linked ready queue of the source gives it.
`uthread_stop` never finds the queue empty, because the base threads keep it filled; so every
dequeue returns a thread, and the threads are returned in the order in which they have been put
there. A thread that is on the ready queue is overtaken by nobody, and no thread waits there for
ever.

All this is about the runs in which no joiner is woken up twice. A thread that is enqueued while it
is on the queue is linked to itself, or the threads behind it are lost; the list keeps them all.

## Main definitions

* `Uthread.State.puts`, `Uthread.State.takes` — the threads that a step puts on the ready queue,
  and takes off it.
* `Uthread.Dequeues` — a step of `uthread_stop` that takes a thread off the ready queue.
* `Uthread.linked`, `Uthread.dispatched` — the linked queues after a run, and what
  `ready_queue_dequeue` returns in it.

## Main results

* `Uthread.asserted_of_run` — `assert (to_thread)` never fails.
* `Uthread.order_of_run` — first come, first served.
* `Uthread.turn_of_run` — the thread at place `k` of the ready queue is what dequeue number `k` from
  then on returns, and there are no more places than threads that have been created.
-/

namespace Uthread

open Runs Placement Queues

variable {N : ℕ} {s t : State N} {a : Act N}

/-! ## The ready queue in a step -/

/-- The thread that a step puts on the ready queue, if any. -/
def State.puts (s : State N) (a : Act N) : List Tid :=
  match s.queueCall a with
  | some (.enqueue none t) => [t]
  | _ => []

/-- The thread that a step takes off the ready queue, if any. -/
def State.takes (s : State N) (a : Act N) : List Tid :=
  match s.queueCall a with
  | some (.dequeue none) => s.readyQueue.head?.toList
  | _ => []

/-- A step of `uthread_stop` that dequeues. -/
def Dequeues (s : State N) (a : Act N) : Prop := s.queueCall a = some (.dequeue none)

instance (s : State N) (a : Act N) : Decidable (Dequeues s a) :=
  inferInstanceAs (Decidable (_ = _))

/-- A processor that dequeues is in `uthread_stop`. -/
lemma Dequeues.pc (h : Dequeues s a) : ∃ p c, a = .run p ∧ (s.proc p).pc = .stopDequeue c := by
  cases a with
  | call p op => cases h
  | run p =>
    unfold Dequeues State.queueCall at h
    cases hpc : (s.proc p).pc with
    | stopDequeue c => exact ⟨p, c, rfl, hpc⟩
    | enterLock m | enterRelock m | exitLock m =>
      simp only [hpc] at h
      split_ifs at h
      simp at h
    | _ => simp [hpc] at h

/-- **A step adds to the end** of the ready queue and takes from its front. -/
lemma readyQueue_step (h : Uthread.step s a = some t) :
    s.readyQueue ++ s.puts a = s.takes a ++ t.readyQueue := by
  have hq : t.readyQueue = afterCall s.queues (s.queueCall a) none :=
    congrFun (queues_of_step h) none
  rw [hq, State.puts, State.takes]
  rcases s.queueCall a with _ | ⟨_ | m, v⟩ | ⟨_ | m⟩
  · simp [afterCall]
  · simp [afterCall, listCall]
  · simp [afterCall, listCall]
  · cases hr : s.readyQueue <;> simp [afterCall, listCall, hr]
  · simp [afterCall, listCall]

/-! ## Every run -/

/-- The ready queue is a queue along every run. -/
lemma trace_readyQueue {acts : List (Act N)} (h : run step s acts = some t) :
    s.readyQueue ++ trace step State.puts s acts =
      trace step State.takes s acts ++ t.readyQueue :=
  trace_queue (fun _ _ _ => readyQueue_step) h

/-- The base threads are idle in every state of every run. -/
lemma idle_of_run (acts : List (Act N)) : Throughout step Idle (init N) acts :=
  throughout_of_invariant (C := fun _ _ => True) (fun _ _ _ h _ ht => h.step (trans_of_step ht))
    idle_init (allSteps_true _ _)

/-- A dequeue takes a thread, and no other step does. -/
lemma Idle.length_takes (h : Idle s) (a : Act N) :
    (s.takes a).length = if Dequeues s a then 1 else 0 := by
  by_cases hd : Dequeues s a
  · obtain ⟨p, c, -, hpc⟩ := hd.pc
    obtain ⟨v, l, hr⟩ := List.exists_cons_of_ne_nil (h.readyQueue_ne_nil hpc)
    have hcall : s.queueCall a = some (.dequeue none) := hd
    simp [State.takes, hcall, hr, hd]
  · rw [if_neg hd, State.takes, List.length_eq_zero_iff]
    unfold Dequeues at hd
    split <;> simp_all

/-- Every dequeue of a run that goes on from a reachable state takes a thread. -/
lemma length_takes_of_run {acts more : List (Act N)} (hs : run step (init N) acts = some s) :
    (trace step State.takes s more).length = count step Dequeues s more := by
  refine length_trace <| allSteps_of_prefix fun pre a suf _ u hu => ?_
  have hrun : run step (init N) (acts ++ pre) = some u := by rw [run_append, hs]; exact hu
  exact (idle_of_run _ (acts ++ pre) [] (List.append_nil _).symm u hrun).length_takes a

/-- The thread at place `k` of the ready queue is what dequeue number `k` from now on takes. -/
lemma getElem?_takes {acts more : List (Act N)} (hs : run step (init N) acts = some s)
    (ht : run step s more = some t) {k : ℕ} {v : Tid} (hk : s.readyQueue[k]? = some v)
    (hcount : k < count step Dequeues s more) : (trace step State.takes s more)[k]? = some v := by
  have hqueue : s.readyQueue ++ trace step State.puts s more =
      trace step State.takes s more ++ t.readyQueue :=
    trace_readyQueue ht
  rw [← length_takes_of_run hs] at hcount
  rw [← List.getElem?_append_left hcount, ← hqueue,
    List.getElem?_append_left (List.getElem?_eq_some_iff.mp hk).1]
  exact hk

/-- There are no more threads on the ready queue than have been created. -/
lemma Inv.length_readyQueue_le (h : Inv (fun _ => True) s) : s.readyQueue.length ≤ s.fresh := by
  have hnodup : s.readyQueue.Nodup :=
    List.nodup_iff_count_le_one.mpr fun v => (h.owned.exclusive v trivial).count_le .ready
  have hsub : s.readyQueue ⊆ List.range s.fresh := fun v hv =>
    List.mem_range.mpr (h.allocated.ready v hv)
  simpa using (hnodup.subperm hsub).length_le

/-! ## The linked queue -/

/-- The linked queues after the calls of a run; `next` is what the field holds at first. -/
def linked (next : Tid → Option Tid) (acts : List (Act N)) : Store (Option Mid) :=
  after next (initCalls ++ queueCalls (init N) acts)

/-- What `ready_queue_dequeue` returns in a run from `s`, with the linked queues as they are
there. -/
def dispatched (store : Store (Option Mid)) (s : State N) (acts : List (Act N)) :
    List (Option Tid) :=
  answers none store (queueCalls s acts)

lemma linked_concat (next : Tid → Option Tid) {acts : List (Act N)}
    (hs : run step (init N) acts = some s) :
    linked next (acts ++ [a]) = (s.queueCall a).toList.foldl Queues.call (linked next acts) := by
  rw [linked, queueCalls_concat hs, ← List.append_assoc, after, List.foldl_append]
  rfl

section Linked

variable (hN : 0 < N) (next : Tid → Option Tid) {acts more : List (Act N)}

include hN

/-- The linked ready queue returns the thread that the step takes off the list. -/
lemma answers_queueCall
    (hC : AllSteps step (fun s a => ¬ Rewakes (fun _ => True) s a) (init N) acts)
    (hs : run step (init N) acts = some s) :
    answers none (linked next acts) (s.queueCall a).toList = (s.takes a).map some := by
  have hrep : Represents (linked next acts) s.queues := represents_of_run hN next hC hs
  by_cases hd : Dequeues s a
  · obtain ⟨p, c, -, hpc⟩ := hd.pc
    have hidle := idle_of_run acts acts [] (List.append_nil _).symm s hs
    obtain ⟨v, l, hr⟩ := List.exists_cons_of_ne_nil (hidle.readyQueue_ne_nil hpc)
    have hcall : s.queueCall a = some (.dequeue none) := hd
    simp [answers, State.takes, hcall, hr, hrep.dequeue_fst]
  · unfold Dequeues at hd
    rw [State.takes]
    rcases hcall : s.queueCall a with _ | ⟨_ | m, v⟩ | ⟨_ | m⟩ <;> simp_all [answers]

/-- **The linked ready queue returns the threads that the lists say.** -/
lemma dispatched_eq
    (hC : AllSteps step (fun s a => ¬ Rewakes (fun _ => True) s a) (init N) (acts ++ more))
    (hs : run step (init N) acts = some s) (ht : run step s more = some t) :
    dispatched (linked next acts) s more = (trace step State.takes s more).map some := by
  induction more generalizing acts s with
  | nil => rfl
  | cons a more ih =>
    obtain ⟨u, hu, hr⟩ := Option.bind_eq_some_iff.mp ht
    have hrun : run step (init N) (acts ++ [a]) = some u := run_concat.mpr ⟨s, hs, hu⟩
    have hcalls : queueCalls s (a :: more) = (s.queueCall a).toList ++ queueCalls u more := by
      rw [queueCalls, hu, Option.elim_some]
    have hrest := @ih u (acts ++ [a]) (by simpa using hC) hrun hr
    rw [dispatched, linked_concat next hs] at hrest
    rw [dispatched, hcalls, answers_append, hrest, answers_queueCall hN next hC.left hs, trace, hu,
      Option.elim_some, List.map_append]

end Linked

/-! ## Runs -/

/-- **No assertion of `uthread_stop` fails.** At the end of every run on `N` processors in which no
joiner is woken up twice, the linked ready queue returns a thread to every processor that is about
to dequeue, and `assert (to_thread)` has not failed. -/
theorem asserted_of_run (hN : 0 < N) (next : Tid → Option Tid) {acts : List (Act N)}
    (hC : AllSteps step (fun s a => ¬ Rewakes (fun _ => True) s a) (init N) acts)
    (hs : run step (init N) acts = some s) :
    (∀ p c, (s.proc p).pc = .stopDequeue c → (readyQueueDequeue (linked next acts)).1 ≠ none) ∧
      ∀ p, (s.proc p).pc ≠ .aborted .toThread := by
  have hidle := idle_of_run acts acts [] (List.append_nil _).symm s hs
  refine ⟨fun p c hpc => ?_, hidle.asserted⟩
  have hrep : Represents (linked next acts) s.queues := represents_of_run hN next hC hs
  rw [readyQueueDequeue_fst hrep]
  simpa using hidle.readyQueue_ne_nil hpc

/-- **First come, first served.** In every run on `N` processors in which no joiner is woken up
twice, the threads that the linked ready queue has returned and then those that it still holds are
the threads put on it, in this order; every dequeue has returned one. -/
theorem order_of_run (hN : 0 < N) (next : Tid → Option Tid) {acts : List (Act N)}
    (hC : AllSteps step (fun s a => ¬ Rewakes (fun _ => True) s a) (init N) acts)
    (h : run step (init N) acts = some t) :
    (1 :: trace step State.puts (init N) acts).map some =
        dispatched (after next initCalls) (init N) acts ++ t.readyQueue.map some ∧
      (dispatched (after next initCalls) (init N) acts).length =
        count step Dequeues (init N) acts ∧
      Represents (linked next acts) t.queues := by
  have hd : dispatched (after next initCalls) (init N) acts =
      (trace step State.takes (init N) acts).map some :=
    @dispatched_eq _ _ _ hN next [] _ hC (run_nil _) h
  have hq : 1 :: trace step State.puts (init N) acts =
      trace step State.takes (init N) acts ++ t.readyQueue :=
    trace_readyQueue h
  refine ⟨by rw [hd, hq, List.map_append], ?_, represents_of_run hN next hC h⟩
  rw [hd, List.length_map]
  exact length_takes_of_run (s := init N) (run_nil _)

/-- **No thread waits for ever.** If no joiner is woken up twice, the thread at place `k` of the
ready queue is what the linked ready queue returns to dequeue number `k` from then on, and `k` is
less than the number of threads that have been created. -/
theorem turn_of_run (hN : 0 < N) (next : Tid → Option Tid) {acts more : List (Act N)}
    (hC : AllSteps step (fun s a => ¬ Rewakes (fun _ => True) s a) (init N) (acts ++ more))
    (hs : run step (init N) acts = some s) (ht : run step s more = some t) {k : ℕ} {v : Tid}
    (hk : s.readyQueue[k]? = some v) :
    k < s.fresh ∧ (k < count step Dequeues s more →
      (dispatched (linked next acts) s more)[k]? = some (some v)) := by
  have hinv := (inv_of_run hN (fun _ _ => trivial) hC.left).last hs
  have hlt := (List.getElem?_eq_some_iff.mp hk).1
  refine ⟨hlt.trans_le hinv.length_readyQueue_le, fun hcount => ?_⟩
  rw [dispatched_eq hN next hC hs ht, List.getElem?_map, getElem?_takes hs ht hk hcount]
  rfl

/-! ### Two processors that yield -/

/-- Thread `0` creates thread `3`. -/
def creates : List (Act 2) := [.call 0 .create, .run 0]

/-- Then the two processors yield in turn, twice each. -/
def yields : List (Act 2) :=
  (List.replicate 2 (.call 0 .yield :: runs 0 6 ++ .call 1 .yield :: runs 1 6)).flatten

theorem asserted_yields :
    (run step (init 2) (creates ++ [.call 0 .yield, .run 0])).map (fun s => (s.proc 0).pc) =
      some (.stopDequeue .yield) ∧
    ∀ s, run step (init 2) (creates ++ [.call 0 .yield, .run 0]) = some s →
      (∀ p c, (s.proc p).pc = .stopDequeue c → (readyQueueDequeue (linked (fun _ => some 7)
        (creates ++ [.call 0 .yield, .run 0]))).1 ≠ none) ∧
      ∀ p, (s.proc p).pc ≠ .aborted .toThread :=
  ⟨by decide +kernel, fun _ =>
    asserted_of_run (by decide) (fun _ => some 7) (by decide +kernel)⟩

theorem order_yields :
    dispatched (after (fun _ => some 7) initCalls) (init 2) (creates ++ yields) =
      [some 1, some 3, some 0, some 2] ∧
    (run step (init 2) (creates ++ yields)).isSome ∧
    ∀ t, run step (init 2) (creates ++ yields) = some t →
      (1 :: trace step State.puts (init 2) (creates ++ yields)).map some =
          dispatched (after (fun _ => some 7) initCalls) (init 2) (creates ++ yields) ++
            t.readyQueue.map some ∧
        (dispatched (after (fun _ => some 7) initCalls) (init 2) (creates ++ yields)).length =
          count step Dequeues (init 2) (creates ++ yields) ∧
        Represents (linked (fun _ => some 7) (creates ++ yields)) t.queues :=
  ⟨by decide +kernel, by decide +kernel, fun _ =>
    order_of_run (by decide) (fun _ => some 7) (by decide +kernel)⟩

theorem turn_yields :
    (run step (init 2) (creates ++ yields)).isSome ∧
    ∀ s t, run step (init 2) creates = some s → run step s yields = some t →
      1 < s.fresh ∧ (1 < count step Dequeues s yields →
        (dispatched (linked (fun _ => some 7) creates) s yields)[1]? = some (some 3)) := by
  refine ⟨by decide +kernel, fun s t hs ht => ?_⟩
  have hqueue : (run step (init 2) creates).map State.readyQueue = some [1, 3] := by
    decide +kernel
  rw [hs, Option.map_some, Option.some.injEq] at hqueue
  exact turn_of_run (by decide) (fun _ => some 7) (by decide +kernel) hs ht (by rw [hqueue]; rfl)

end Uthread
