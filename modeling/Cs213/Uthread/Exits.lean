import Cs213.Uthread.Scheduler

set_option relaxedAutoImplicit false
set_option autoImplicit false

/-!
# Exits that are completed once

A processor that has switched away from a thread *leaves* it until it has tested whether the thread
is dying and, if so, has completed the exit. While it leaves the thread, the thread can be resumed
elsewhere, and exit there; two processors then leave a thread that has exited, and both may complete
the exit. If no thread exits while another processor has still to make that test, this does not
happen.

## Main definitions

* `Uthread.Pc.leaves` — the thread that a processor leaves.
* `Uthread.ExitsEarly` — a thread exits while another processor has still to test its state.
* `Uthread.Reaped` — one processor at most leaves a thread that has exited.

## Main results

* `Uthread.Reaped.step`, `Uthread.reaped_init`.
* `Uthread.Reaped.not_rewakes` — no joiner is woken up twice.
* `Uthread.reaped_of_run` — the invariants along a run in which no thread exits early.
-/

namespace Uthread

open Runs

variable {N : ℕ} {s t : State N} {a : Act N} {W : Tid → Prop}

/-! ## Leaving a thread -/

/-- The thread that the processor has switched away from, until its exit is completed. -/
@[grind] def Pc.leaves : Pc → Option Tid
  | .switchDying t _ => some t
  | pc => pc.reaps

/-- The thread whose exit a processor has still to complete: it has not stored `TS_DEAD`. -/
@[grind] def Pc.finds : Pc → Option Tid
  | .dyingUnlock _ _ => none
  | pc => pc.leaves

/-- The thread whose state `uthread_switch` tests for `TS_DYING`. -/
def Pc.tests : Pc → Option Tid
  | .switchDying t _ => some t
  | _ => none

/-- The context switch away from a thread that exits. -/
def Pc.swapsDying : Pc → Bool
  | .switchSwap .exit _ => true
  | _ => false

section Return

variable (c : Site) (r : Starter)

@[simp, grind =] lemma Site.leaves_return : c.return.leaves = none := by cases c <;> rfl
@[simp, grind =] lemma Site.finds_return : c.return.finds = none := by cases c <;> rfl
@[simp, grind =] lemma Starter.leaves_return : r.return.leaves = r.wakes := by cases r <;> rfl
@[simp, grind =] lemma Starter.finds_return : r.return.finds = r.wakes := by cases r <;> rfl

end Return

lemma Pc.leaves_of_finds {pc : Pc} {v : Tid} (h : pc.finds = some v) : pc.leaves = some v := by
  cases pc <;> simp_all [Pc.finds]

lemma Pc.leaves_of_tests {pc : Pc} {v : Tid} (h : pc.tests = some v) : pc.leaves = some v := by
  cases pc <;> simp_all [Pc.tests, Pc.leaves]

/-- A processor leaves a thread that it has still to test, or whose exit it completes. -/
lemma Pc.leaves_cases {pc : Pc} {v : Tid} (h : pc.leaves = some v) :
    pc.tests = some v ∨ pc.reaps = some v := by
  cases pc <;> simp_all [Pc.leaves, Pc.tests]

/-- A processor that has stored `TS_DEAD` and leaves the thread holds its join spinlock. -/
lemma Pc.finds_or_joinHeld {pc : Pc} {v : Tid} (h : pc.leaves = some v) :
    pc.finds = some v ∨ pc.joinHeld = some v := by
  cases pc <;> simp_all [Pc.leaves, Pc.finds, Pc.reaps, Pc.joinHeld]

/-- An exit that is about to lock the join spinlock has still to store `TS_DEAD`. -/
lemma Pc.finds_of_locksDying {pc : Pc} {v : Tid} (h : pc.locksDying = some v) :
    pc.reaps = some v ∧ pc.finds = some v := by
  cases pc <;> simp_all [Pc.locksDying, Pc.finds, Pc.leaves, Pc.reaps]

/-- A processor leaves a thread when it switches away from it, until the exit is complete. -/
lemma Trans.leaves_cases (h : Trans s a t) {v : Tid} (hv : (t.proc a.proc).pc.leaves = some v) :
    (s.proc a.proc).pc.leaves = some v ∨
      v = (s.proc a.proc).thread ∧ ∃ c u, (s.proc a.proc).pc = .switchSwap c u ∧
        (t.tcb v).state = c.stoppingThreadState := by
  cases h <;> grind

/-- The same for an exit in which `TS_DEAD` has still to be stored. -/
lemma Trans.finds_cases (h : Trans s a t) {v : Tid} (hv : (t.proc a.proc).pc.finds = some v) :
    (s.proc a.proc).pc.finds = some v ∧ (t.tcb v).state = (s.tcb v).state ∨
      (s.proc a.proc).pc.finds = some v ∧ (t.tcb v).state = .runable ∨
      v = (s.proc a.proc).thread ∧ ∃ c u, (s.proc a.proc).pc = .switchSwap c u ∧
        (t.tcb v).state = c.stoppingThreadState := by
  cases h <;> grind

/-- A processor that switches away from a thread sets its state. -/
lemma Trans.state_of_switchSwap (h : Trans s a t) {c : Site} {u : Tid}
    (hpc : (s.proc a.proc).pc = .switchSwap c u) :
    (t.tcb (s.proc a.proc).thread).state = c.stoppingThreadState := by
  cases h <;> simp_all

/-! ## The invariant -/

/-- A thread in `W` switches away with `TS_DYING` while another processor, which has switched away
from it before, has still to test its state. -/
def ExitsEarly (W : Tid → Prop) (s : State N) (a : Act N) : Prop :=
  W (s.proc a.proc).thread ∧ (s.proc a.proc).pc.swapsDying ∧
    ∃ q, q ≠ a.proc ∧ (s.proc q).pc.tests = some (s.proc a.proc).thread

instance [DecidablePred W] (s : State N) (a : Act N) : Decidable (ExitsEarly W s a) :=
  inferInstanceAs (Decidable (_ ∧ _ ∧ ∃ _, _ ∧ _))

/-- **An exit is completed once**, for the threads in `W`. -/
structure Reaped (W : Tid → Prop) (s : State N) : Prop where
  /-- One processor at most leaves a thread that has exited. -/
  unique : ∀ p q v, W v → s.exited v → (s.proc p).pc.leaves = some v →
    (s.proc q).pc.leaves = some v → p = q
  /-- The thread is not dead before this processor has stored `TS_DEAD`. -/
  undead : ∀ p v, W v → s.exited v → (s.proc p).pc.finds = some v → (s.tcb v).state ≠ .dead

/-- Nobody begins to leave a thread that has exited. -/
lemma Owned.leaves_of_exited (ho : Owned (fun _ => True) s) (ht : Trans s a t) {v : Tid}
    (hx : s.exited v) {p : Fin N} (hp : (t.proc p).pc.leaves = some v) :
    (s.proc p).pc.leaves = some v := by
  by_cases hpa : p = a.proc
  · subst hpa
    exact (ht.leaves_cases hp).resolve_right fun e => ho.off v hx _ e.1.symm
  · exact ht.proc_of_ne hpa ▸ hp

namespace Reaped

variable (h : Reaped W s) (ho : Owned (fun _ => True) s) (ht : Trans s a t)

include h ho

/-- The exit of a dead thread does not find a joiner, if only threads in `W` are joined. -/
lemma not_rewakes (hW : ∀ v, (s.tcb v).joiner.thread? ≠ none → W v) :
    ¬ Rewakes (fun _ => True) s a := by
  rintro ⟨v, hv, hd, j, hj, -⟩
  obtain ⟨hreaps, hfinds⟩ := Pc.finds_of_locksDying hv
  exact h.undead _ v (hW v (by simp [Option.mem_def.mp hj])) (ho.reaps _ v hreaps) hfinds hd

omit h in
/-- Nobody leaves a thread that exits at the right time, but the processor that it exits on. -/
lemma eq_of_swapsDying (hC : ¬ ExitsEarly W s a) (hw : W (s.proc a.proc).thread)
    (he : (s.proc a.proc).pc.swapsDying) {q : Fin N}
    (hq : (s.proc q).pc.leaves = some (s.proc a.proc).thread) : q = a.proc := by
  by_contra hne
  rcases Pc.leaves_cases hq with hq | hq
  · exact hC ⟨hw, he, q, hne, hq⟩
  · exact ho.off _ (ho.reaps q _ hq) a.proc rfl

include ht

lemma unique_step (hC : ¬ ExitsEarly W s a) (p q : Fin N) (v : Tid) (hw : W v)
    (hv : t.exited v) (hp : (t.proc p).pc.leaves = some v) (hq : (t.proc q).pc.leaves = some v) :
    p = q := by
  rcases ho.exited_cases ht hv with hx | ⟨rfl, u, hpc⟩
  · exact h.unique p q v hw hx (ho.leaves_of_exited ht hx hp) (ho.leaves_of_exited ht hx hq)
  · -- the thread exits in this step
    have hold : ∀ r, (t.proc r).pc.leaves = some (s.proc a.proc).thread → r = a.proc := by
      intro r hr
      by_contra hra
      rw [ht.proc_of_ne hra] at hr
      exact hra (eq_of_swapsDying ho hC hw (by rw [hpc, Pc.swapsDying]) hr)
    rw [hold p hp, hold q hq]

lemma undead_step (p : Fin N) (v : Tid) (hw : W v) (hv : t.exited v)
    (hp : (t.proc p).pc.finds = some v) : (t.tcb v).state ≠ .dead := by
  rcases ho.exited_cases ht hv with hx | ⟨rfl, u, hpc⟩
  · by_cases hpa : p = a.proc
    · subst hpa
      rcases ht.finds_cases hp with ⟨hp, e⟩ | ⟨-, e⟩ | ⟨e, -⟩
      · exact e ▸ h.undead _ v hw hx hp
      · simp [e]
      · exact absurd e.symm (ho.off v hx _)
    · rw [ht.proc_of_ne hpa] at hp
      intro hd
      have hne := h.undead p v hw hx hp
      rcases ht.state_cases v with e | ⟨-, e⟩ | ⟨e, -⟩ | ⟨e, -⟩ | ⟨-, e⟩ | ⟨⟨f, hpc⟩, -⟩
      · exact hne (e ▸ hd)
      · simp [e] at hd
      · exact ho.off v hx _ e.symm
      · exact ho.off v hx _ e.symm
      · simp [e] at hd
      · -- only the processor that completes the exit stores `TS_DEAD`
        have hleaves : (s.proc a.proc).pc.leaves = some v := by rw [hpc]; rfl
        exact hpa (h.unique p a.proc v hw hx (Pc.leaves_of_finds hp) hleaves)
  · simp [ht.state_of_switchSwap hpc, Site.stoppingThreadState]

/-- **An exit stays completed once** if no thread exits early. -/
theorem step (hC : ¬ ExitsEarly W s a) : Reaped W t where
  unique := h.unique_step ho ht hC
  undead := h.undead_step ho ht

end Reaped

/-- At the start nobody exits. -/
lemma reaped_init : Reaped W (init N) where
  unique _ _ v _ hv := absurd hv (not_exited_init v)
  undead _ v _ hv := absurd hv (not_exited_init v)

/-! ## Runs -/

/-- **Exits that are completed once.** In a run in which no thread exits early, no joiner is woken
up twice. -/
theorem reaped_of_run (hN : 0 < N) {acts : List (Act N)}
    (h : AllSteps step (fun s a => ¬ ExitsEarly (fun _ => True) s a) (init N) acts)
    (hr : run step (init N) acts = some s) :
    Inv (fun _ => True) s ∧ Reaped (fun _ => True) s := by
  refine invariant (I := fun s => Inv (fun _ => True) s ∧ Reaped (fun _ => True) s) ?_
    ⟨inv_init hN _, reaped_init⟩ h hr
  rintro s a t ⟨hi, hp⟩ hC hs
  have ht := trans_of_step hs
  exact ⟨hi.step (fun _ _ => trivial) (hp.not_rewakes hi.owned fun _ _ => trivial) hs,
    hp.step hi.owned ht hC⟩

lemma not_rewakes_of_not_exitsEarly (hN : 0 < N) {acts : List (Act N)}
    (h : AllSteps step (fun s a => ¬ ExitsEarly (fun _ => True) s a) (init N) acts) :
    AllSteps step (fun s a => ¬ Rewakes (fun _ => True) s a) (init N) acts := by
  refine allSteps_of_prefix fun pre a suf e t ht => ?_
  subst e
  obtain ⟨hi, hp⟩ := reaped_of_run hN h.left ht
  exact hp.not_rewakes hi.owned fun _ _ => trivial

end Uthread
