import Cs213.Library.WaitGraph
import Cs213.Uthread.Trans

set_option relaxedAutoImplicit false
set_option autoImplicit false

/-!
# Cycles of spinning processors

A thread that yields is on the ready queue before it has stopped, so another processor can dequeue
it and has to spin until it is no longer `TS_RUNNING`. When three processors yield at the same time,
two of them can dequeue each other's threads, and then spin for ever; the third one gets the thread
that nobody executes. Which threads are on the ready queue, and in what order, does not matter for
this, only who executes the thread that is dequeued.

## Main definitions

* `Uthread.Waits` — a processor spins for the thread that another one executes.
* `Uthread.SpinCycle` — a cycle of processors each of which waits for the next.
* `Uthread.ClosesCycle` — a processor dequeues the thread of one that already waits for it.
* `Uthread.TakesWaiting` — a processor dequeues the thread of one that waits for a third, or for it.

## Main results

* `Uthread.not_spinCycle_iff` — a run has no cycle exactly if no dequeue closes one.
* `Uthread.not_spinCycle_of_run` — a run has no cycle if no dequeue takes the thread of a processor
  that waits in the spin loop.
* `Uthread.spin_spinCycle` — a run that has a cycle.
-/

namespace Uthread

open Runs Relation

variable {N : ℕ} {s t : State N} {a : Act N}

/-- Processor `p` is in the spin loop of `uthread_switch`, for the thread that `q` executes. -/
def Waits (s : State N) (p q : Fin N) : Prop :=
  p ≠ q ∧ ∃ c, (s.proc p).pc = .switchSpin c (s.proc q).thread

/-- The thread for which a processor spins. -/
def Pc.spinsFor : Pc → Option Tid
  | .switchSpin _ v => some v
  | _ => none

lemma Pc.spinsFor_eq_some {pc : Pc} {v : Tid} :
    pc.spinsFor = some v ↔ ∃ c, pc = .switchSpin c v := by
  cases pc <;> simp [spinsFor]

instance (s : State N) (p q : Fin N) : Decidable (Waits s p q) :=
  decidable_of_iff (p ≠ q ∧ (s.proc p).pc.spinsFor = some (s.proc q).thread)
    (and_congr_right' Pc.spinsFor_eq_some)

/-- A cycle of processors in the spin loop, each waiting for the next. -/
def SpinCycle (s : State N) : Prop := ∃ p, TransGen (Waits s) p p

/-- The thread that `uthread_stop` takes off the ready queue and switches to. -/
def dequeues (s : State N) (p : Fin N) : Option Tid :=
  match (s.proc p).pc with
  | .stopDequeue _ => s.readyQueue.head?.filter (· ≠ (s.proc p).thread)
  | _ => none

/-- A processor dequeues a thread that is being executed by a processor which waits, perhaps by
way of others, for the first one. -/
def ClosesCycle (s : State N) (a : Act N) : Prop :=
  ∃ p, a = .run p ∧ ∃ q, dequeues s p = some (s.proc q).thread ∧ ReflTransGen (Waits s) q p

/-- A processor dequeues a thread that is being executed by a processor which itself waits in the
spin loop. -/
def TakesWaiting (s : State N) (a : Act N) : Prop :=
  ∃ p, a = .run p ∧ ∃ q, dequeues s p = some (s.proc q).thread ∧ ∃ r, Waits s q r

instance (s : State N) (a : Act N) : Decidable (TakesWaiting s a) :=
  inferInstanceAs (Decidable (∃ p, a = .run p ∧ ∃ q, dequeues s p = some (s.proc q).thread ∧
    ∃ r, Waits s q r))

/-- A processor gets into the spin loop by a dequeue. -/
lemma Trans.spin_cases (h : Trans s a t) {c : Site} {v : Tid}
    (hpc : (t.proc a.proc).pc = .switchSpin c v) :
    (t.proc a.proc).thread = (s.proc a.proc).thread ∧ ((s.proc a.proc).pc = .switchSpin c v ∨
      a = .run a.proc ∧ dequeues s a.proc = some v) := by
  cases h <;> grind [dequeues, Site.return_cases, Starter.return_cases]

/-- A processor that did not move and waits for one that waits too did so before. -/
lemma Waits.of_step (h : Trans s a t) {u v w : Fin N} (hu : u ≠ a.proc) (huv : Waits t u v)
    (hvw : Waits t v w) : Waits s u v := by
  obtain ⟨hne, c, hpc⟩ := huv
  obtain ⟨-, d, hpd⟩ := hvw
  refine ⟨hne, c, ?_⟩
  rw [h.proc_of_ne hu] at hpc
  by_cases hv : v = a.proc
  · subst hv
    rw [hpc, (h.spin_cases hpd).1]
  · rw [hpc, h.proc_of_ne hv]

/-- **A cycle is closed by a dequeue.** -/
lemma SpinCycle.of_step (h : Trans s a t) (hc : SpinCycle t) : SpinCycle s ∨ ClosesCycle s a := by
  obtain ⟨p, hp⟩ := hc
  rcases WaitGraph.cycle_cases (fun _ _ _ => Waits.of_step h) hp with hs | ⟨q, ⟨hne, c, hpc⟩, hq⟩
  · exact .inl ⟨p, hs⟩
  · rw [h.proc_of_ne hne.symm] at hpc
    rcases (h.spin_cases hpc).2 with hs | ⟨ha, hd⟩
    · exact .inl ⟨a.proc, .head' ⟨hne, c, hs⟩ hq⟩
    · exact .inr ⟨a.proc, ha, q, hd, hq⟩

/-- The dequeue of a thread, and the first test of `uthread_switch`. -/
lemma step_of_dequeues {p : Fin N} {v : Tid} (h : dequeues s p = some v) :
    ∃ c rest, (s.proc p).pc = .stopDequeue c ∧ v ≠ (s.proc p).thread ∧
      step s (.run p) = some ({ s with readyQueue := rest }.goto p (.switchSpin c v)) := by
  unfold dequeues at h
  split at h
  · rename_i c hpc
    obtain ⟨hv, hne⟩ := Option.filter_eq_some_iff.mp h
    obtain ⟨rest, hr⟩ := List.head?_eq_some_iff.mp hv
    have hne := of_decide_eq_true hne
    exact ⟨c, rest, hpc, hne, by simp [step, exec, hpc, uthreadStop, hr, hne]⟩
  · cases h

/-- **A dequeue that closes a cycle** ends in one. -/
lemma ClosesCycle.spinCycle (h : ClosesCycle s a) : ∃ t, step s a = some t ∧ SpinCycle t := by
  obtain ⟨p, rfl, q, hd, hq⟩ := h
  obtain ⟨c, rest, hpc, hne, hstep⟩ := step_of_dequeues hd
  have hth : ∀ x, (({ s with readyQueue := rest }.goto p
      (.switchSpin c (s.proc q).thread)).proc x).thread = (s.proc x).thread := by
    intro x
    rw [goto_proc]
    split_ifs with e
    · rw [e]
    · rfl
  refine ⟨_, hstep, p, .head' ⟨fun e => hne (e ▸ rfl), c, ?_⟩ (ReflTransGen.mono ?_ _ _ hq)⟩
  · rw [hth, goto_proc, if_pos rfl]
  · rintro x y ⟨hxy, d, hx⟩
    have hxp : x ≠ p := by
      rintro rfl
      simp [hpc] at hx
    exact ⟨hxy, d, by rw [hth, goto_proc, if_neg hxp, hx]⟩

/-- On any number of processors, no state of a run has a cycle of spinning processors if and only if
no processor dequeues the thread of a processor that already waits for it. -/
theorem not_spinCycle_iff (acts : List (Act N)) :
    Throughout step (fun s => ¬ SpinCycle s) (init N) acts ↔
      AllSteps step (fun s a => ¬ ClosesCycle s a) (init N) acts := by
  constructor
  · refine allSteps_of_throughout fun s a _ hC => ?_
    obtain ⟨t, ht, hc⟩ := (not_not.mp hC).spinCycle
    exact ⟨t, ht, not_not.mpr hc⟩
  · refine throughout_of_invariant (fun s a t hs hC ht hc => ?_) fun ⟨p, hp⟩ => ?_
    · exact (hc.of_step (trans_of_step ht)).elim hs hC
    · obtain ⟨q, ⟨-, c, hpc⟩, -⟩ := TransGen.head'_iff.mp hp
      simp [init] at hpc

/-- A dequeue that closes a cycle takes the thread of a processor that waits. -/
lemma ClosesCycle.takesWaiting (h : ClosesCycle s a) : TakesWaiting s a := by
  obtain ⟨p, rfl, q, hd, hq⟩ := h
  obtain ⟨-, -, -, hne, -⟩ := step_of_dequeues hd
  -- a processor does not dequeue its own thread, so the path from `q` to `p` has a first edge
  rcases hq.cases_head with rfl | ⟨r, hr, -⟩
  · exact absurd rfl hne
  · exact ⟨p, rfl, q, hd, r, hr⟩

/-- **No deadlock in the switch.** On any number of processors, no state of a run has a cycle of
spinning processors if no processor dequeues the thread of a processor that itself waits in the spin
loop. -/
theorem not_spinCycle_of_run {acts : List (Act N)}
    (hC : AllSteps step (fun s a => ¬ TakesWaiting s a) (init N) acts) :
    Throughout step (fun s => ¬ SpinCycle s) (init N) acts :=
  (not_spinCycle_iff acts).mpr (hC.mono fun _ _ h hc => h hc.takesWaiting)

/-- Two processors yield. Processor `1` dequeues the thread of processor `0`, and waits until it
has been saved. -/
def yielding : List (Act 2) :=
  [.call 0 .yield, .run 0, .call 1 .yield, .run 1, .run 0, .run 1, .run 0, .run 0, .run 1, .run 1]

theorem not_spinCycle_yielding :
    (run step (init 2) (yielding.take 6)).map (fun s => (s.proc 0, s.proc 1)) =
      some (⟨0, .switchSpin .yield 1⟩, ⟨2, .switchSpin .yield 0⟩) ∧
    (run step (init 2) yielding).map (fun s => ((s.proc 0).thread, (s.proc 1).thread)) =
      some (1, 0) ∧
    Throughout step (fun s => ¬ SpinCycle s) (init 2) yielding :=
  ⟨by decide +kernel, by decide +kernel, not_spinCycle_of_run (by decide +kernel)⟩

/-- On three processors every thread yields, and then each processor dequeues: processor `2` gets
thread `1`, which nobody executes, and the other two get each other's threads. -/
def spin : List (Act 3) :=
  [.call 0 .yield, .run 0, .call 1 .yield, .run 1, .call 2 .yield, .run 2,
    .run 2, .run 1, .run 0]

/-- Processors `0` and `1` execute running threads, and each waits for the other. -/
lemma spin_last : (run step (init 3) spin).map
    (fun s => (s.proc 0, s.proc 1, (s.tcb 0).state, (s.tcb 2).state)) =
      some (⟨0, .switchSpin .yield 2⟩, ⟨2, .switchSpin .yield 0⟩, .running, .running) := by
  decide +kernel

/-- **A deadlock in the switch** is reached in some run. -/
theorem spin_spinCycle :
    ¬ ∀ N, ∀ acts : List (Act N), Throughout step (fun s => ¬ SpinCycle s) (init N) acts := by
  intro h
  obtain ⟨s, hs, he⟩ := Option.map_eq_some_iff.mp spin_last
  simp only [Prod.mk.injEq] at he
  obtain ⟨h0, h1, -⟩ := he
  have h01 : Waits s 0 1 := ⟨by decide, .yield, by rw [h0, h1]⟩
  have h10 : Waits s 1 0 := ⟨by decide, .yield, by rw [h0, h1]⟩
  exact h 3 spin spin [] (List.append_nil _).symm s hs ⟨0, .head h01 (.single h10)⟩

end Uthread
