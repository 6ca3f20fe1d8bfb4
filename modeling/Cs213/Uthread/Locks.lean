import Cs213.Library.Mutex
import Cs213.Uthread.Trans
import Mathlib.Order.Nat

set_option relaxedAutoImplicit false
set_option autoImplicit false

/-!
# Handles and spinlocks

Invariants of every run. Every thread that is mentioned anywhere has been created, and the
spinlocks of threads and monitors exclude: at most one processor is between locking and unlocking
one. The calls that free a thread leave its spinlock locked for good.

## Main definitions

* `Uthread.Allocated` — every thread mentioned in the state has been created.
* `Uthread.Pc.joinHeld`, `Uthread.Pc.monitorHeld` — the spinlock held at a program point.
* `Uthread.JoinGuarded`, `Uthread.MonitorGuarded` — mutual exclusion by the spinlocks.

## Main results

* `Uthread.Allocated.step`, `Uthread.JoinGuarded.step`, `Uthread.MonitorGuarded.step`.
-/

namespace Uthread

variable {N : ℕ} {s t : State N} {a : Act N}

/-! ## The threads a program point mentions -/

/-- The thread a call site of `uthread_stop` mentions. -/
@[grind] def Site.tids : Site → List Tid
  | .join t => [t]
  | .yield | .enter _ | .exit => []

/-- The threads a frame mentions. -/
@[grind] def Frame.tids : Frame → List Tid
  | .inside c => c.tids
  | .null | .fresh => []

/-- The threads a call of `uthread_start` has on its stack. -/
@[grind] def Starter.tids : Starter → List Tid
  | .dying t f => t :: f.tids
  | .exit _ => []

/-- The threads among the local variables at a program point. -/
@[grind] def Pc.tids : Pc → List Tid
  | .createEnqueue t | .joinTest t | .joinLock t | .joinState t | .joinSet t | .joinUnlock t
  | .joinValue _ t | .joinFree _ t _ | .joinReturn _ t _ | .detachTest t | .detachLock t
  | .detachState t | .detachSet t | .detachUnlock t | .detachFree t => [t]
  | .stopDequeue c => c.tids
  | .switchSpin c t | .switchSwap c t => t :: c.tids
  | .switchDying t f | .dyingLock t f | .dyingJoiner t f | .dyingDead t f | .dyingUnlock t f =>
    t :: f.tids
  | .switchResume f => f.tids
  | .startTest r t | .startRunable r t | .startEnqueue r t => t :: r.tids
  | .exitUnlock _ w => w.toList
  | .user | .yieldEnqueue | .enterLock _ | .enterRelock _ | .enterUnlockWait _ | .enterUnlock _
  | .exitLock _ | .aborted _ | .wild => []

/-- The point `uthread_stop` returns to mentions what its caller does. -/
@[simp, grind =] lemma Site.tids_return (c : Site) : c.return.tids = c.tids := by
  cases c <;> rfl

/-- The point `uthread_start` returns to mentions what its caller does. -/
@[simp, grind =] lemma Starter.tids_return (r : Starter) : r.return.tids = r.tids := by
  cases r <;> rfl

/-! ## Handles -/

/-- Every thread mentioned in the state has been created. -/
structure Allocated (s : State N) : Prop where
  base : N < s.fresh
  thread : ∀ p, (s.proc p).thread < s.fresh
  pc : ∀ p, ∀ t ∈ (s.proc p).pc.tids, t < s.fresh
  ready : ∀ t ∈ s.readyQueue, t < s.fresh
  waiter : ∀ m, ∀ t ∈ (s.monitor m).waiterQueue, t < s.fresh
  joiner : ∀ t j, (s.tcb t).joiner = .thread j → j < s.fresh
  frame : ∀ t, ∀ u ∈ (s.tcb t).savedSp.tids, u < s.fresh
  unused : ∀ t, s.fresh ≤ t → s.tcb t = uthreadAlloc .client

/-- In the first state nobody waits for a thread. -/
lemma joiner_init (v : Tid) : ((init N).tcb v).joiner = .null := by
  simp only [init, initTcb]
  grind [uthreadNewThread, uthreadAlloc]

/-- In the first state every thread mentioned has been created. -/
lemma allocated_init (hN : 0 < N) : Allocated (init N) where
  base := Nat.lt_succ_self N
  thread p := by
    have := p.isLt
    change (if p.val = 0 then 0 else p.val + 1) < N + 1
    split_ifs <;> omega
  pc := by simp [init, Pc.tids]
  ready := by
    simp only [init, List.mem_singleton]
    rintro _ rfl
    exact Nat.succ_lt_succ hN
  waiter := by simp [init, uthreadMonitorCreate]
  joiner t j h := by simp [joiner_init] at h
  frame t u h := by
    simp only [init, initTcb] at h
    split_ifs at h <;> simp [uthreadNewThread, uthreadAlloc, Frame.tids] at h
  unused t h := by
    have h : N < t := h
    simp only [init, initTcb]
    grind

/-- No step takes back an allocation. -/
lemma Trans.fresh_le (h : Trans s a t) : s.fresh ≤ t.fresh := by
  cases h <;> simp

/-- The thread a processor executes changes at a context switch only. -/
lemma Trans.thread (h : Trans s a t) : (t.proc a.proc).thread = (s.proc a.proc).thread ∨
    ∃ c, (s.proc a.proc).pc = .switchSwap c (t.proc a.proc).thread := by
  cases h <;> simp_all

/-- A step writes the thread control blocks of the thread it executes, of threads mentioned at
the program point, and of a thread it allocates. -/
lemma Trans.tcb_of_not_mem (h : Trans s a t) {v : Tid} (hf : v = s.fresh → t.fresh ≤ v)
    (hth : v ≠ (s.proc a.proc).thread) (hv : v ∉ (s.proc a.proc).pc.tids) :
    t.tcb v = s.tcb v := by
  cases h <;> grind

section Step

variable (h : Allocated s) (ht : Trans s a t)

include h ht

namespace Allocated

lemma thread_step (q : Fin N) : (t.proc q).thread < t.fresh := by
  rcases eq_or_ne q a.proc with rfl | hq
  · rcases ht.thread with e | ⟨c, e⟩
    · exact e ▸ (h.thread a.proc).trans_le ht.fresh_le
    · exact (h.pc a.proc _ (by rw [e]; simp [Pc.tids])).trans_le ht.fresh_le
  · exact ht.proc_of_ne hq ▸ (h.thread q).trans_le ht.fresh_le

/-- What a program point mentions was mentioned before, is in a queue, a joiner or a frame, or has
just been created. -/
lemma pc_step (q : Fin N) : ∀ u ∈ (t.proc q).pc.tids, u < t.fresh := by
  intro u hu
  rcases eq_or_ne q a.proc with rfl | hq
  · have hpc := h.pc a.proc
    have hth := h.thread a.proc
    have hr := h.ready
    have hw := h.waiter
    have hj := h.joiner
    have hf := h.frame
    cases ht <;> grind [List.mem_of_mem_head?]
  · exact (h.pc q u (ht.proc_of_ne hq ▸ hu)).trans_le ht.fresh_le

lemma ready_step : ∀ u ∈ t.readyQueue, u < t.fresh := by
  have hpc := h.pc a.proc
  have hth := h.thread a.proc
  have hr := h.ready
  cases ht <;> grind

lemma waiter_step (m : Mid) : ∀ u ∈ (t.monitor m).waiterQueue, u < t.fresh := by
  have hth := h.thread a.proc
  have hw := h.waiter
  have htail := fun m u (h : u ∈ (s.monitor m).waiterQueue.tail) =>
    hw m u (List.mem_of_mem_tail h)
  cases ht <;> grind

lemma joiner_step (v j : Tid) : (t.tcb v).joiner = .thread j → j < t.fresh := by
  have hth := h.thread a.proc
  have hj := h.joiner
  cases ht <;> grind [uthreadNewThread, uthreadAlloc]

lemma frame_step (v : Tid) : ∀ u ∈ (t.tcb v).savedSp.tids, u < t.fresh := by
  have hpc := h.pc a.proc
  have hf := h.frame
  cases ht <;> grind [uthreadNewThread, uthreadAlloc]

/-- A block that has not been allocated is not written. -/
lemma unused_step (v : Tid) (hv : t.fresh ≤ v) : t.tcb v = uthreadAlloc .client := by
  have hv' := ht.fresh_le.trans hv
  rw [ht.tcb_of_not_mem (fun _ => hv) (fun e => ?_) fun e => ?_]
  · exact h.unused v hv'
  · exact (h.thread a.proc).not_ge (e ▸ hv')
  · exact (h.pc a.proc v e).not_ge hv'

end Allocated

/-- **Handles stay allocated.** -/
theorem Allocated.step : Allocated t where
  base := h.base.trans_le ht.fresh_le
  thread := h.thread_step ht
  pc := h.pc_step ht
  ready := h.ready_step ht
  waiter := h.waiter_step ht
  joiner := h.joiner_step ht
  frame := h.frame_step ht
  unused := h.unused_step ht

end Step

/-! ## Spinlocks -/

/-- The thread on whose behalf `uthread_start` is called with a join spinlock held. -/
@[grind] def Starter.joinHeld : Starter → Option Tid
  | .dying t _ => some t
  | .exit _ => none

/-- The thread whose join spinlock is held at a program point. The paths that free a thread leave
its spinlock locked, and are not between lock and unlock. -/
@[grind] def Pc.joinHeld : Pc → Option Tid
  | .dyingJoiner t _ | .dyingDead t _ | .dyingUnlock t _ | .joinState t | .joinSet t
  | .joinUnlock t | .detachState t | .detachSet t | .detachUnlock t => some t
  | .startTest r _ | .startRunable r _ | .startEnqueue r _ => r.joinHeld
  | .user | .createEnqueue _ | .yieldEnqueue | .stopDequeue _ | .switchSpin _ _ | .switchSwap _ _
  | .switchDying _ _ | .dyingLock _ _ | .switchResume _ | .joinTest _ | .joinLock _
  | .joinValue _ _ | .joinFree _ _ _ | .joinReturn _ _ _ | .detachTest _ | .detachLock _
  | .detachFree _ | .enterLock _ | .enterRelock _ | .enterUnlockWait _ | .enterUnlock _
  | .exitLock _ | .exitUnlock _ _ | .aborted _ | .wild => none

/-- The monitor whose spinlock is held at a program point. -/
@[grind] def Pc.monitorHeld : Pc → Option Mid
  | .enterUnlockWait m | .enterUnlock m | .exitUnlock m _ => some m
  | .user | .createEnqueue _ | .yieldEnqueue | .stopDequeue _ | .switchSpin _ _ | .switchSwap _ _
  | .switchDying _ _ | .dyingLock _ _ | .dyingJoiner _ _ | .dyingDead _ _ | .dyingUnlock _ _
  | .switchResume _ | .startTest _ _ | .startRunable _ _ | .startEnqueue _ _ | .joinTest _
  | .joinLock _ | .joinState _ | .joinSet _ | .joinUnlock _ | .joinValue _ _ | .joinFree _ _ _
  | .joinReturn _ _ _ | .detachTest _ | .detachLock _ | .detachState _ | .detachSet _
  | .detachUnlock _ | .detachFree _ | .enterLock _ | .enterRelock _ | .exitLock _ | .aborted _
  | .wild => none

/-- `uthread_stop` returns with no join spinlock held. -/
@[simp, grind =] lemma Site.joinHeld_return (c : Site) : c.return.joinHeld = none := by
  cases c <;> rfl

/-- `uthread_start` returns with the join spinlock held that its caller holds. -/
@[simp, grind =] lemma Starter.joinHeld_return (r : Starter) : r.return.joinHeld = r.joinHeld := by
  cases r <;> rfl

/-- `uthread_stop` returns with no monitor's spinlock held. -/
@[simp, grind =] lemma Site.monitorHeld_return (c : Site) : c.return.monitorHeld = none := by
  cases c <;> rfl

/-- `uthread_start` returns with no monitor's spinlock held. -/
@[simp, grind =] lemma Starter.monitorHeld_return (r : Starter) : r.return.monitorHeld = none := by
  cases r <;> rfl

lemma Starter.joinHeld_mem_tids {r : Starter} {t : Tid} (h : r.joinHeld = some t) :
    t ∈ r.tids := by
  cases r <;> grind

/-- A thread whose join spinlock is held is mentioned at that program point. -/
lemma Pc.joinHeld_mem_tids {pc : Pc} {t : Tid} (h : pc.joinHeld = some t) : t ∈ pc.tids := by
  cases pc <;> grind [Starter.joinHeld_mem_tids]

/-- Mutual exclusion by the join spinlocks. -/
def JoinGuarded (s : State N) : Prop :=
  Mutex.Guarded (fun p => (s.proc p).pc.joinHeld) fun t => (s.tcb t).joinSpinlock

/-- Mutual exclusion by the spinlocks of the monitors. -/
def MonitorGuarded (s : State N) : Prop :=
  Mutex.Guarded (fun p => (s.proc p).pc.monitorHeld) fun m => (s.monitor m).spinlock

lemma joinGuarded_init : JoinGuarded (init N) := by
  constructor <;> simp [init, Pc.joinHeld]

lemma monitorGuarded_init : MonitorGuarded (init N) := by
  constructor <;> simp [init, Pc.monitorHeld]

/-- **Join spinlocks exclude.** -/
theorem JoinGuarded.step (h : JoinGuarded s) (ha : Allocated s) (ht : Trans s a t) :
    JoinGuarded t := by
  refine Mutex.Guarded.step h a.proc (fun q hq => by rw [ht.proc_of_ne hq]) ?_ ?_
  · intro u hu
    have hl := h.locked a.proc u
    cases ht <;> grind
  · intro q u hq hu hl
    have hlq := h.locked q u hu
    have huf := ha.pc q u (Pc.joinHeld_mem_tids hu)
    cases ht <;> grind

/-- **The spinlocks of monitors exclude.** -/
theorem MonitorGuarded.step (h : MonitorGuarded s) (ht : Trans s a t) : MonitorGuarded t := by
  refine Mutex.Guarded.step h a.proc (fun q hq => by rw [ht.proc_of_ne hq]) ?_ ?_
  · intro m hm
    have hl := h.locked a.proc m
    cases ht <;> grind
  · intro q m hq hm hl
    have hlq := h.locked q m hm
    cases ht <;> grind

end Uthread
