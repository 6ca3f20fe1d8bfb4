import Cs213.Uthread.Places

set_option relaxedAutoImplicit false
set_option autoImplicit false

/-!
# What a step changes

One lemma for each part of the state that invariants speak about: which branches of the code write
it, and what they write. Together with `Uthread.Trans.proc_of_ne` they replace the case analysis on
the branches in most of the proofs that follow.

## Main definitions

* `Uthread.Pc.site` — the call of `uthread_stop` a processor is in, before the switch.
* `Uthread.Pc.frame` — the frame it will return to, after the switch.
* `Uthread.Pc.reaps` — the thread whose exit it completes.
* `Uthread.Pc.target` — the thread it has found not to be running.

## Main results

* `Uthread.Trans.state_cases`, `Uthread.Trans.joiner_cases`, `Uthread.Trans.savedSp_cases` — the
  stores to these fields.
* `Uthread.Trans.site_cases`, `Uthread.Trans.frame_cases`, `Uthread.Trans.reaps_cases`,
  `Uthread.Trans.target_cases` — how a processor gets to these program points.
* `Uthread.Trans.move_cases` — how threads move between places.
-/

namespace Uthread

open Placement

variable {N : ℕ} {s t : State N} {a : Act N}

/-! ## Program points -/

/-- The call of `uthread_stop` that a program point is inside of, on the old stack. -/
@[grind] def Pc.site : Pc → Option Site
  | .stopDequeue c | .switchSpin c _ | .switchSwap c _ => some c
  | .user | .createEnqueue _ | .yieldEnqueue | .switchDying _ _ | .dyingLock _ _
  | .dyingJoiner _ _ | .dyingDead _ _ | .dyingUnlock _ _ | .switchResume _ | .startTest _ _
  | .startRunable _ _ | .startEnqueue _ _ | .joinTest _ | .joinLock _ | .joinState _ | .joinSet _
  | .joinUnlock _ | .joinValue _ _ | .joinFree _ _ _ | .joinReturn _ _ _ | .detachTest _
  | .detachLock _ | .detachState _ | .detachSet _ | .detachUnlock _ | .detachFree _
  | .enterLock _ | .enterRelock _ | .enterUnlockWait _ | .enterUnlock _ | .exitLock _
  | .exitUnlock _ _ | .aborted _ | .wild => none

/-- The frame to which a call of `uthread_start` returns in the end. -/
@[grind] def Starter.frame : Starter → Option Frame
  | .dying _ f => some f
  | .exit _ => none

/-- On the new stack of `uthread_switch`, the frame to which it returns. At all other program
points the processor executes the thread's own code. -/
@[grind] def Pc.frame : Pc → Option Frame
  | .switchDying _ f | .dyingLock _ f | .dyingJoiner _ f | .dyingDead _ f | .dyingUnlock _ f
  | .switchResume f => some f
  | .startTest r _ | .startRunable r _ | .startEnqueue r _ => r.frame
  | .user | .createEnqueue _ | .yieldEnqueue | .stopDequeue _ | .switchSpin _ _ | .switchSwap _ _
  | .joinTest _ | .joinLock _ | .joinState _ | .joinSet _ | .joinUnlock _ | .joinValue _ _
  | .joinFree _ _ _ | .joinReturn _ _ _ | .detachTest _ | .detachLock _ | .detachState _
  | .detachSet _ | .detachUnlock _ | .detachFree _ | .enterLock _ | .enterRelock _
  | .enterUnlockWait _ | .enterUnlock _ | .exitLock _ | .exitUnlock _ _ | .aborted _
  | .wild => none

/-- The thread whose exit a program point is in the middle of. -/
@[grind] def Pc.reaps : Pc → Option Tid
  | .dyingLock t _ | .dyingJoiner t _ | .dyingDead t _ | .dyingUnlock t _ => some t
  | .startTest r _ | .startRunable r _ | .startEnqueue r _ => r.wakes
  | .user | .createEnqueue _ | .yieldEnqueue | .stopDequeue _ | .switchSpin _ _ | .switchSwap _ _
  | .switchDying _ _ | .switchResume _ | .joinTest _ | .joinLock _ | .joinState _ | .joinSet _
  | .joinUnlock _ | .joinValue _ _ | .joinFree _ _ _ | .joinReturn _ _ _ | .detachTest _
  | .detachLock _ | .detachState _ | .detachSet _ | .detachUnlock _ | .detachFree _
  | .enterLock _ | .enterRelock _ | .enterUnlockWait _ | .enterUnlock _ | .exitLock _
  | .exitUnlock _ _ | .aborted _ | .wild => none

/-- The thread that has been found not to be running, and is about to be written. -/
@[grind] def Pc.target : Pc → Option Tid
  | .switchSwap _ t | .startRunable _ t => some t
  | .user | .createEnqueue _ | .yieldEnqueue | .stopDequeue _ | .switchSpin _ _
  | .switchDying _ _ | .dyingLock _ _ | .dyingJoiner _ _ | .dyingDead _ _ | .dyingUnlock _ _
  | .switchResume _ | .startTest _ _ | .startEnqueue _ _ | .joinTest _ | .joinLock _
  | .joinState _ | .joinSet _ | .joinUnlock _ | .joinValue _ _ | .joinFree _ _ _
  | .joinReturn _ _ _ | .detachTest _ | .detachLock _ | .detachState _ | .detachSet _
  | .detachUnlock _ | .detachFree _ | .enterLock _ | .enterRelock _ | .enterUnlockWait _
  | .enterUnlock _ | .exitLock _ | .exitUnlock _ _ | .aborted _ | .wild => none

section Return

variable (c : Site) (r : Starter)

@[simp, grind =] lemma Site.site_return : c.return.site = none := by cases c <;> rfl
@[simp, grind =] lemma Site.frame_return : c.return.frame = none := by cases c <;> rfl
@[simp, grind =] lemma Site.reaps_return : c.return.reaps = none := by cases c <;> rfl
@[simp, grind =] lemma Site.target_return : c.return.target = none := by cases c <;> rfl
@[simp, grind =] lemma Starter.site_return : r.return.site = none := by cases r <;> rfl
@[simp, grind =] lemma Starter.frame_return : r.return.frame = r.frame := by cases r <;> rfl
@[simp, grind =] lemma Starter.reaps_return : r.return.reaps = r.wakes := by cases r <;> rfl
@[simp, grind =] lemma Starter.target_return : r.return.target = none := by cases r <;> rfl

end Return

/-- The exit of a thread includes the part in which its joiner has been picked up. -/
lemma Pc.reaps_of_wakes {pc : Pc} {v : Tid} (h : pc.wakes = some v) : pc.reaps = some v := by
  cases pc <;> grind

/-! ## Stores -/

/-- The stores to the state of a thread: by its creation, by the two ends of `uthread_switch`, by
`uthread_start` and by an exit. -/
lemma Trans.state_cases (h : Trans s a t) (v : Tid) :
    (t.tcb v).state = (s.tcb v).state ∨
    (v = s.fresh ∧ (t.tcb v).state = .nascent) ∨
    (v = (s.proc a.proc).thread ∧ ∃ c u, (s.proc a.proc).pc = .switchSwap c u ∧
      (t.tcb v).state = c.stoppingThreadState) ∨
    (v = (s.proc a.proc).thread ∧ (∃ f, (s.proc a.proc).pc = .switchResume f) ∧
      (t.tcb v).state = .running) ∨
    ((∃ r, (s.proc a.proc).pc = .startRunable r v) ∧ (t.tcb v).state = .runable) ∨
    ((∃ f, (s.proc a.proc).pc = .dyingDead v f) ∧ (t.tcb v).state = .dead) := by
  cases h <;> grind [uthreadNewThread, uthreadAlloc]

/-- The stores to the joiner of a thread. -/
lemma Trans.joiner_cases (h : Trans s a t) (v : Tid) :
    (t.tcb v).joiner = (s.tcb v).joiner ∨
    (v = s.fresh ∧ (t.tcb v).joiner = .null) ∨
    ((s.proc a.proc).pc = .joinSet v ∧
      (t.tcb v).joiner = .thread (s.proc a.proc).thread) ∨
    ((s.proc a.proc).pc = .detachSet v ∧ (t.tcb v).joiner = .detached) := by
  cases h <;> grind [uthreadNewThread, uthreadAlloc]

/-- The stores to a saved stack pointer: by the creation of the thread, and by a context switch. -/
lemma Trans.savedSp_cases (h : Trans s a t) (v : Tid) :
    (t.tcb v).savedSp = (s.tcb v).savedSp ∨
    (v = s.fresh ∧ (t.tcb v).savedSp = .fresh) ∨
    (v = (s.proc a.proc).thread ∧ ∃ c u, (s.proc a.proc).pc = .switchSwap c u ∧
      (t.tcb v).savedSp = .inside c ∧ (t.tcb v).state = c.stoppingThreadState) := by
  cases h <;> grind [uthreadNewThread, uthreadAlloc]

/-- The procedure a thread runs is fixed when it is created. -/
lemma Trans.startProc (h : Trans s a t) {v : Tid} (hv : v ≠ s.fresh) :
    (t.tcb v).startProc = (s.tcb v).startProc := by
  cases h <;> grind

/-- While a processor holds the join spinlock of a thread, no other one writes its joiner. -/
lemma JoinGuarded.joiner_eq (hl : JoinGuarded s) (ha : Allocated s) (h : Trans s a t) {p : Fin N}
    (hp : p ≠ a.proc) {v : Tid} (hv : (s.proc p).pc.joinHeld = some v) :
    (t.tcb v).joiner = (s.tcb v).joiner := by
  have hmove : (s.proc a.proc).pc.joinHeld ≠ some v := fun e => hp (hl.unique p a.proc v hv e)
  rcases h.joiner_cases v with e | ⟨e, -⟩ | ⟨e, -⟩ | ⟨e, -⟩
  · exact e
  · exact absurd (ha.pc p v (Pc.joinHeld_mem_tids hv)) (e ▸ Nat.lt_irrefl _)
  · exact absurd (by rw [e, Pc.joinHeld]) hmove
  · exact absurd (by rw [e, Pc.joinHeld]) hmove

/-- While a processor holds the join spinlock of a thread, no other one makes it `TS_DEAD`. -/
lemma JoinGuarded.ne_dead (hl : JoinGuarded s) (h : Trans s a t) {p : Fin N} (hp : p ≠ a.proc)
    {v : Tid} (hv : (s.proc p).pc.joinHeld = some v) (hd : (s.tcb v).state ≠ .dead) :
    (t.tcb v).state ≠ .dead := by
  rcases h.state_cases v with e | ⟨-, e⟩ | ⟨-, c, u, -, e⟩ | ⟨-, -, e⟩ | ⟨-, e⟩ | ⟨⟨f, e⟩, -⟩
  · rwa [e]
  · simp [e]
  · cases c <;> simp [e, Site.stoppingThreadState]
  · simp [e]
  · simp [e]
  · exact absurd (hl.unique p a.proc v hv (by rw [e, Pc.joinHeld])) hp

/-! ## Control -/

/-- After the context switch the processor executes the other thread. -/
lemma Trans.thread_of_switchSwap (h : Trans s a t) {c : Site} {u : Tid}
    (hpc : (s.proc a.proc).pc = .switchSwap c u) : (t.proc a.proc).thread = u := by
  cases h <;> simp_all

/-- At a context switch the running thread is saved in its call of `uthread_stop`. -/
lemma Trans.savedSp_of_switchSwap (h : Trans s a t) {c : Site} {u : Tid}
    (hpc : (s.proc a.proc).pc = .switchSwap c u) :
    (t.tcb (s.proc a.proc).thread).savedSp = .inside c := by
  cases h <;> simp_all

/-- A processor enters `uthread_stop` from one of its four callers. -/
lemma Trans.site_cases (h : Trans s a t) {c : Site} (hc : (t.proc a.proc).pc.site = some c) :
    (t.proc a.proc).thread = (s.proc a.proc).thread ∧
    ((s.proc a.proc).pc.site = some c ∨
      (c = .yield ∧ (s.proc a.proc).pc = .yieldEnqueue) ∨
      (∃ v, c = .join v ∧ (s.proc a.proc).pc = .joinUnlock v) ∨
      (∃ m, c = .enter m ∧ (s.proc a.proc).pc = .enterUnlockWait m) ∨
      (c = .exit ∧ ∃ p v, a = .call p (.ret v) ∧ (s.proc a.proc).pc = .user ∧
        (s.tcb (s.proc a.proc).thread).startProc.can (.ret v))) := by
  cases h <;> grind

/-- A processor that executes a thread's own code did so before, or has just set it running. -/
lemma Trans.frame_cases (h : Trans s a t) (hf : (t.proc a.proc).pc.frame = none) :
    (t.proc a.proc).thread = (s.proc a.proc).thread ∧
    ((s.proc a.proc).pc.frame = none ∨
      ((∃ f, (s.proc a.proc).pc = .switchResume f) ∧
        (t.tcb (t.proc a.proc).thread).state = .running)) := by
  cases h <;> grind

/-- A processor starts the exit of a thread that it has found dying. -/
lemma Trans.reaps_cases (h : Trans s a t) {v : Tid} (hv : (t.proc a.proc).pc.reaps = some v) :
    (s.proc a.proc).pc.reaps = some v ∨ (s.tcb v).state = .dying := by
  cases h <;> grind

/-- A processor reads the joiner of a dying thread after it has locked the join spinlock. -/
lemma Trans.dyingJoiner_cases (h : Trans s a t) {v : Tid} {f : Frame}
    (hv : (t.proc a.proc).pc = .dyingJoiner v f) :
    (s.proc a.proc).pc = .dyingLock v f ∧
      (t.tcb v).state = (s.tcb v).state ∧ (t.tcb v).joiner = (s.tcb v).joiner := by
  cases h <;> grind [Site.return_cases, Starter.return_cases]

/-- The two tests of a state for `TS_RUNNING`. -/
lemma Trans.target_cases (h : Trans s a t) {v : Tid}
    (hv : (t.proc a.proc).pc.target = some v) :
    (t.proc a.proc).thread = (s.proc a.proc).thread ∧ (s.tcb v).state ≠ .running ∧
    ((∃ c, (s.proc a.proc).pc = .switchSpin c v) ∨ ∃ r, (s.proc a.proc).pc = .startTest r v) := by
  cases h <;> grind

/-- A processor that has picked up the joiner of a thread goes on until the thread is dead. -/
lemma Trans.wakes_cases (h : Trans s a t) {q : Fin N} {v : Tid}
    (hv : (s.proc q).pc.wakes = some v) :
    (t.proc q).pc.wakes = some v ∨ (t.tcb v).state = .dead := by
  rcases eq_or_ne q a.proc with rfl | hq
  · cases h <;> grind
  · exact .inl (h.proc_of_ne hq ▸ hv)

/-! ## Moves -/

/-- Taking the first thread off a queue leaves the other copies. -/
lemma count_tail_add_count_head? (l : List Tid) (u : Tid) :
    l.tail.count u + l.head?.toList.count u = l.count u := by
  cases l <;> simp [List.count_cons]

/-- **The moves of a step.** The processor that moves exchanges threads with the ready queue, with
the waiter queue of one monitor, or with the joiner field of one thread. -/
lemma Trans.move_cases (h : Trans s a t) {u : Tid}
    (hu : u = s.fresh → ∀ p, a ≠ .call p .create) :
    ((t.proc a.proc).carries.count u + t.readyQueue.count u ≤
        (s.proc a.proc).carries.count u + s.readyQueue.count u ∧
      (∀ m, (t.monitor m).waiterQueue = (s.monitor m).waiterQueue) ∧
      ∀ v, (s.proc a.proc).pc ≠ .joinSet v) ∨
    (t.readyQueue = s.readyQueue ∧ (∀ v, (s.proc a.proc).pc ≠ .joinSet v) ∧
      ∃ m, (t.proc a.proc).carries.count u + (t.monitor m).waiterQueue.count u ≤
          (s.proc a.proc).carries.count u + (s.monitor m).waiterQueue.count u ∧
        ∀ k, k ≠ m → t.monitor k = s.monitor k) ∨
    (t.readyQueue = s.readyQueue ∧ t.monitor = s.monitor ∧
      ∃ v, (s.proc a.proc).pc = .joinSet v ∧ (t.proc a.proc).carries = []) ∨
    (t.readyQueue = s.readyQueue ∧ t.monitor = s.monitor ∧
      ∃ v f j, (s.proc a.proc).pc = .dyingJoiner v f ∧ (s.tcb v).joiner = .thread j ∧
        (t.proc a.proc).carries = [(s.proc a.proc).thread, j] ∧
        (t.proc a.proc).pc.wakes = some v) := by
  cases h with
  | enterWait p self m pc w hp hpc hl hh =>
    refine .inr (.inl ⟨rfl, ?_, m, ?_, ?_⟩)
    · rcases hpc with rfl | rfl <;> simp [hp]
    · rcases hpc with rfl | rfl <;>
        simp [Proc.carries, Pc.carries, hp, Nat.add_comm (List.count u [self])]
    · intro k hk
      simp [hk]
  | exitTake p self m hp hl hh =>
    refine .inr (.inl ⟨rfl, by simp [hp], m, ?_, ?_⟩)
    · have := count_tail_add_count_head? (s.monitor m).waiterQueue u
      simp only [Proc.carries, Pc.carries, hp, goto_proc, goto_monitor, setMonitor_monitor,
        Act.proc_run, if_true, List.count_cons, List.count_nil]
      grind
    · intro k hk
      simp [hk]
  | joinSet p self v hp =>
    exact .inr (.inr (.inl ⟨rfl, rfl, v, by simp [hp], by simp [Pc.carries]⟩))
  | dyingThread p v f j hpc hj =>
    exact .inr (.inr (.inr ⟨rfl, rfl, v, f, j, hpc, hj, by simp [Pc.carries],
      by simp [Pc.wakes, Starter.wakes]⟩))
  | _ => exact .inl (by grind [Proc.carries])

end Uthread
