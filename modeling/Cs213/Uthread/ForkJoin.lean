import Cs213.Uthread.Calls
import Cs213.Uthread.Exits

set_option relaxedAutoImplicit false
set_option autoImplicit false

/-!
# Threads that run to completion

The scheduler fails when a joiner is woken up twice, and for that two processors have to complete
the exit of one thread: one that has switched away from it when it exited, and one that has done so
earlier. A thread that calls nothing that stops it is switched away from when it exits and not
before. So a program whose joined threads all run to completion is safe on any number of
processors.

## Main definitions

* `Uthread.ForkJoin` — the calls of a program in which the threads that are joined do not stop.
* `Uthread.RunsToEnd` — the invariants of such a program.

## Main results

* `Uthread.not_rewakes_of_forkJoin` — in such a program no joiner is woken up twice.
* `Uthread.scheduled_of_forkJoin` — hence the scheduler keeps its promise, too.
-/

namespace Uthread

open Runs Placement

variable {N : ℕ} {s t : State N} {a : Act N} {W : Tid → Prop}

/-! ## The programs -/

/-- The calls that a thread `u` may make in a program in which only threads in `W` are joined, and
these do not stop before they exit. -/
@[grind] def ForkJoin (W : Tid → Prop) (u : Tid) : Op → Prop
  | .join t => W t ∧ ¬ W u
  | .yield | .enter _ => ¬ W u
  | .create | .detach _ | .exit _ | .ret _ => True

/-- The calls that a step begins are permitted. -/
def Permits (P : Tid → Op → Prop) (s : State N) (a : Act N) : Prop :=
  ∀ op ∈ a.begins, P (s.proc a.proc).thread op

instance (P : Tid → Op → Prop) [∀ u, DecidablePred (P u)] (s : State N) (a : Act N) :
    Decidable (Permits P s a) :=
  inferInstanceAs (Decidable (∀ _ ∈ _, _))

instance [DecidablePred W] (u : Tid) : DecidablePred (ForkJoin W u)
  | .join t => inferInstanceAs (Decidable (W t ∧ ¬ W u))
  | .yield | .enter _ => inferInstanceAs (Decidable (¬ W u))
  | .create | .detach _ | .exit _ | .ret _ => inferInstanceAs (Decidable True)

/-- A thread in `W` calls `uthread_stop` only to exit. -/
lemma Calls.eq_exit (h : Calls (ForkJoin W) s) {p : Fin N} {c : Site}
    (hc : (s.proc p).pc.site = some c) (hw : W (s.proc p).thread) : c = .exit := by
  have hop : (s.proc p).pc.op = c.op := by cases hpc : (s.proc p).pc <;> simp_all [Pc.site, Pc.op]
  cases c with
  | exit => rfl
  | yield => exact absurd hw (h.pc p _ hop)
  | join t => exact absurd hw (h.pc p _ hop).2
  | enter m => exact absurd hw (h.pc p _ hop)

/-! ## The invariant -/

/-- The invariants of such a program. -/
structure RunsToEnd (W : Tid → Prop) (s : State N) : Prop where
  inv : Inv (fun _ => True) s
  calls : Calls (ForkJoin W) s
  reaped : Reaped W s
  /-- A thread in `W` that a processor leaves has exited. -/
  exited : ∀ p v, W v → (s.proc p).pc.leaves = some v → s.exited v

namespace RunsToEnd

variable (h : RunsToEnd W s)

include h

/-- No thread in `W` exits early. -/
lemma not_exitsEarly : ¬ ExitsEarly W s a := by
  rintro ⟨hw, -, q, -, hq⟩
  exact h.inv.owned.off _ (h.exited q _ hw (Pc.leaves_of_tests hq)) a.proc rfl

/-- The exit of a dead thread does not find a joiner. -/
lemma not_rewakes : ¬ Rewakes (fun _ => True) s a := by
  refine h.reaped.not_rewakes h.inv.owned fun v hv => ?_
  cases hj : (s.tcb v).joiner with
  | thread j => exact (h.calls.joiner v j hj).1
  | null | detached => simp [hj, Joiner.thread?] at hv

lemma exited_step (ht : Trans s a t) (p : Fin N) (v : Tid) (hw : W v)
    (hv : (t.proc p).pc.leaves = some v) : t.exited v := by
  have hmono : s.exited v → t.exited v := h.inv.owned.exited_mono h.inv.allocated ht
  by_cases hp : p = a.proc
  · subst hp
    rcases ht.leaves_cases hv with hv | ⟨rfl, c, u, hpc, e⟩
    · exact hmono (h.exited _ v hw hv)
    · obtain rfl := h.calls.eq_exit (by rw [hpc, Pc.site]) hw
      exact .inl e
  · exact hmono (h.exited p v hw (ht.proc_of_ne hp ▸ hv))

/-- **The invariants are kept** by the steps of such a program. -/
theorem step (hP : Permits (ForkJoin W) s a) (ht : Uthread.step s a = some t) : RunsToEnd W t where
  inv := h.inv.step (fun _ _ => trivial) h.not_rewakes ht
  calls := h.calls.step (trans_of_step ht) hP
  reaped := h.reaped.step h.inv.owned (trans_of_step ht) h.not_exitsEarly
  exited := h.exited_step (trans_of_step ht)

end RunsToEnd

lemma runsToEnd_init (hN : 0 < N) : RunsToEnd W (init N) where
  inv := inv_init hN _
  calls := calls_init
  reaped := reaped_init
  exited p v _ h := by simp [init, Pc.leaves, Pc.reaps] at h

/-! ## Runs -/

/-- **No joiner is woken up twice** in a run in which the threads that are joined do not yield, join
or enter a monitor. -/
theorem not_rewakes_of_forkJoin (hN : 0 < N) {acts : List (Act N)}
    (hP : AllSteps step (Permits (ForkJoin W)) (init N) acts) :
    AllSteps step (fun s a => ¬ Rewakes (fun _ => True) s a) (init N) acts := by
  refine allSteps_of_prefix fun pre a suf e t ht => ?_
  subst e
  exact (invariant (I := RunsToEnd W) (fun _ _ _ h hP hs => h.step hP hs) (runsToEnd_init hN)
    hP.left ht).not_rewakes

/-- **Programs whose joined threads run to completion** are safe on any number of processors: no
joiner is woken up twice, and the scheduler keeps its promise. -/
theorem scheduled_of_forkJoin (hN : 0 < N) (acts : List (Act N))
    (hP : AllSteps step (Permits (ForkJoin W)) (init N) acts) :
    AllSteps step (fun s a => ¬ Rewakes (fun _ => True) s a) (init N) acts ∧
      Throughout step Scheduled (init N) acts := by
  have hC := not_rewakes_of_forkJoin hN hP
  exact ⟨hC, fun pre suf e t ht =>
    (inv_of_run hN (fun _ _ => trivial) hC pre suf e t ht).scheduled⟩

theorem scheduled_forkJoin :
    (run step (init 2) forkJoin).map (fun s => (s.readyQueue, (s.tcb 3).state)) =
        some ([0], .dead) ∧
      AllSteps step (fun s a => ¬ Rewakes (fun _ => True) s a) (init 2) forkJoin ∧
      Throughout step Scheduled (init 2) forkJoin :=
  ⟨by decide +kernel, scheduled_of_forkJoin (W := (· = 3)) (by decide) forkJoin
    (by decide +kernel)⟩

end Uthread
