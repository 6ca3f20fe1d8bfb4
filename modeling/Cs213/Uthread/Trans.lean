import Mathlib.Data.List.Basic
import Mathlib.Tactic.SplitIfs
import Cs213.Uthread.Step

set_option relaxedAutoImplicit false
set_option autoImplicit false

/-!
# What a step can do

The step function, read backwards: `Uthread.Trans s a t` lists the ways in which the action `a` can
lead from `s` to `t`, one for each branch of the code, with what the branch has tested. Every
invariant of the later files is proved by cases on it.

## Main definitions

* `Uthread.Trans` — the branches of a step.

## Main results

* `Uthread.trans_of_step` — every step takes one of the branches.
* `Uthread.Trans.proc_of_ne` — a step of one processor leaves the others where they are.
-/

namespace Uthread

variable {N : ℕ} (s : State N)

/-! ## Reading an updated state -/

section Update

variable (p q : Fin N) (pc : Pc) (t u : Tid) (b : TCB) (m k : Mid) (x : Monitor) (l : Bool)
  (st : ThreadState) (j : Joiner) (c : Site)

@[simp, grind =] lemma goto_proc :
    (s.goto p pc).proc q = if q = p then ⟨(s.proc p).thread, pc⟩ else s.proc q :=
  Function.update_apply ..
@[simp, grind =] lemma goto_tcb : (s.goto p pc).tcb u = s.tcb u := rfl
@[simp, grind =] lemma goto_fresh : (s.goto p pc).fresh = s.fresh := rfl
@[simp, grind =] lemma goto_readyQueue : (s.goto p pc).readyQueue = s.readyQueue := rfl
@[simp, grind =] lemma goto_monitor : (s.goto p pc).monitor k = s.monitor k := rfl

@[simp, grind =] lemma setTcb_proc : (s.setTcb t b).proc q = s.proc q := rfl
@[simp, grind =] lemma setTcb_tcb :
    (s.setTcb t b).tcb u = if u = t then b else s.tcb u := Function.update_apply ..
@[simp, grind =] lemma setTcb_fresh : (s.setTcb t b).fresh = s.fresh := rfl
@[simp, grind =] lemma setTcb_readyQueue : (s.setTcb t b).readyQueue = s.readyQueue := rfl
@[simp, grind =] lemma setTcb_monitor : (s.setTcb t b).monitor k = s.monitor k := rfl

@[simp, grind =] lemma setMonitor_proc : (s.setMonitor m x).proc q = s.proc q := rfl
@[simp, grind =] lemma setMonitor_tcb : (s.setMonitor m x).tcb u = s.tcb u := rfl
@[simp, grind =] lemma setMonitor_fresh : (s.setMonitor m x).fresh = s.fresh := rfl
@[simp, grind =] lemma setMonitor_readyQueue :
    (s.setMonitor m x).readyQueue = s.readyQueue := rfl
@[simp, grind =] lemma setMonitor_monitor :
    (s.setMonitor m x).monitor k = if k = m then x else s.monitor k := Function.update_apply ..

@[simp, grind =] lemma readyQueueEnqueue_proc : (s.readyQueueEnqueue t).proc q = s.proc q := rfl
@[simp, grind =] lemma readyQueueEnqueue_tcb : (s.readyQueueEnqueue t).tcb u = s.tcb u := rfl
@[simp, grind =] lemma readyQueueEnqueue_fresh : (s.readyQueueEnqueue t).fresh = s.fresh := rfl
@[simp, grind =] lemma readyQueueEnqueue_readyQueue :
    (s.readyQueueEnqueue t).readyQueue = s.readyQueue ++ [t] := rfl
@[simp, grind =] lemma readyQueueEnqueue_monitor :
    (s.readyQueueEnqueue t).monitor k = s.monitor k := rfl

@[simp, grind =] lemma uthreadFree_eq : s.uthreadFree t =
    s.setTcb t { s.tcb t with freed := (s.tcb t).freed + 1 } := rfl
@[simp, grind =] lemma setJoinSpinlock_eq : s.setJoinSpinlock t l =
    s.setTcb t { s.tcb t with joinSpinlock := l } := rfl
@[simp, grind =] lemma setState_eq : s.setState t st =
    s.setTcb t { s.tcb t with state := st } := rfl
@[simp, grind =] lemma setJoiner_eq : s.setJoiner t j =
    s.setTcb t { s.tcb t with joiner := j } := rfl

@[simp, grind =] lemma uthreadSwap_proc : (uthreadSwap s p c t).proc q =
    if q = p then ⟨t, .switchDying (s.proc p).thread
      (if t = (s.proc p).thread then .inside c else (s.tcb t).savedSp)⟩ else s.proc q := by
  by_cases ht : t = (s.proc p).thread <;> simp [uthreadSwap, Function.update_apply, ht]
@[simp, grind =] lemma uthreadSwap_tcb : (uthreadSwap s p c t).tcb u =
    if u = (s.proc p).thread then
      { s.tcb u with savedSp := .inside c, state := c.stoppingThreadState }
    else s.tcb u := by
  by_cases hu : u = (s.proc p).thread <;> simp [uthreadSwap, hu]
@[simp, grind =] lemma uthreadSwap_fresh : (uthreadSwap s p c t).fresh = s.fresh := rfl
@[simp, grind =] lemma uthreadSwap_readyQueue :
    (uthreadSwap s p c t).readyQueue = s.readyQueue := rfl
@[simp, grind =] lemma uthreadSwap_monitor : (uthreadSwap s p c t).monitor k = s.monitor k := rfl

end Update

/-! ## The branches -/

/-- **The branches of a step.** Each constructor is one path through the code between two accesses
to shared memory; `self` is the thread the processor executes. -/
inductive Trans : Act N → State N → Prop
  | callCreate (p : Fin N) (hpc : (s.proc p).pc = .user)
      (hc : (s.tcb (s.proc p).thread).startProc.can .create) :
      Trans (.call p .create)
        ({ s.setTcb s.fresh (uthreadNewThread .client) with fresh := s.fresh + 1 }.goto p
          (.createEnqueue s.fresh))
  | callYield (p : Fin N) (hpc : (s.proc p).pc = .user) :
      Trans (.call p .yield) (s.goto p .yieldEnqueue)
  | callJoin (p : Fin N) (t : Tid) (hpc : (s.proc p).pc = .user) (ht : t < s.fresh)
      (hc : (s.tcb (s.proc p).thread).startProc.can (.join t)) :
      Trans (.call p (.join t)) (s.goto p (.joinTest t))
  | callDetach (p : Fin N) (t : Tid) (hpc : (s.proc p).pc = .user) (ht : t < s.fresh)
      (hc : (s.tcb (s.proc p).thread).startProc.can (.detach t)) :
      Trans (.call p (.detach t)) (s.goto p (.detachTest t))
  | callEnter (p : Fin N) (m : Mid) (hpc : (s.proc p).pc = .user)
      (hc : (s.tcb (s.proc p).thread).startProc.can (.enter m)) :
      Trans (.call p (.enter m)) (s.goto p (.enterLock m))
  | callExit (p : Fin N) (m : Mid) (hpc : (s.proc p).pc = .user)
      (hc : (s.tcb (s.proc p).thread).startProc.can (.exit m)) :
      Trans (.call p (.exit m)) (s.goto p (.exitLock m))
  | callRet (p : Fin N) (self : Tid) (v : ℕ) (hp : s.proc p = ⟨self, .user⟩)
      (hc : (s.tcb self).startProc.can (.ret v)) :
      Trans (.call p (.ret v))
        ((s.setTcb self { s.tcb self with returnVal := some v }).goto p (.stopDequeue .exit))
  | createEnqueue (p : Fin N) (t : Tid) (hpc : (s.proc p).pc = .createEnqueue t) :
      Trans (.run p) ((s.readyQueueEnqueue t).goto p .user)
  | yieldEnqueue (p : Fin N) (self : Tid) (hp : s.proc p = ⟨self, .yieldEnqueue⟩) :
      Trans (.run p) ((s.readyQueueEnqueue self).goto p (.stopDequeue .yield))
  | dequeueNone (p : Fin N) (c : Site) (hpc : (s.proc p).pc = .stopDequeue c)
      (h : s.readyQueue = []) : Trans (.run p) (s.goto p (.aborted .toThread))
  | dequeueSelf (p : Fin N) (self : Tid) (c : Site) (rest : List Tid)
      (hp : s.proc p = ⟨self, .stopDequeue c⟩) (h : s.readyQueue = self :: rest) :
      Trans (.run p) ({ s with readyQueue := rest }.goto p c.return)
  | dequeue (p : Fin N) (self : Tid) (c : Site) (t : Tid) (rest : List Tid)
      (hp : s.proc p = ⟨self, .stopDequeue c⟩) (h : s.readyQueue = t :: rest) (ht : t ≠ self) :
      Trans (.run p) ({ s with readyQueue := rest }.goto p (.switchSpin c t))
  | spin (p : Fin N) (c : Site) (t : Tid) (hpc : (s.proc p).pc = .switchSpin c t)
      (h : (s.tcb t).state = .running) : Trans (.run p) s
  | spinDone (p : Fin N) (c : Site) (t : Tid) (hpc : (s.proc p).pc = .switchSpin c t)
      (h : (s.tcb t).state ≠ .running) : Trans (.run p) (s.goto p (.switchSwap c t))
  | swap (p : Fin N) (self : Tid) (c : Site) (t : Tid)
      (hp : s.proc p = ⟨self, .switchSwap c t⟩) : Trans (.run p) (uthreadSwap s p c t)
  | isDying (p : Fin N) (t : Tid) (f : Frame) (hpc : (s.proc p).pc = .switchDying t f)
      (h : (s.tcb t).state = .dying) : Trans (.run p) (s.goto p (.dyingLock t f))
  | notDying (p : Fin N) (t : Tid) (f : Frame) (hpc : (s.proc p).pc = .switchDying t f)
      (h : (s.tcb t).state ≠ .dying) : Trans (.run p) (s.goto p (.switchResume f))
  | dyingLock (p : Fin N) (t : Tid) (f : Frame) (hpc : (s.proc p).pc = .dyingLock t f)
      (h : (s.tcb t).joinSpinlock = false) :
      Trans (.run p) ((s.setJoinSpinlock t true).goto p (.dyingJoiner t f))
  | dyingDetached (p : Fin N) (t : Tid) (f : Frame) (hpc : (s.proc p).pc = .dyingJoiner t f)
      (h : (s.tcb t).joiner = .detached) :
      Trans (.run p) ((s.uthreadFree t).goto p (.switchResume f))
  | dyingNull (p : Fin N) (t : Tid) (f : Frame) (hpc : (s.proc p).pc = .dyingJoiner t f)
      (h : (s.tcb t).joiner = .null) : Trans (.run p) (s.goto p (.dyingDead t f))
  | dyingThread (p : Fin N) (t : Tid) (f : Frame) (j : Tid)
      (hpc : (s.proc p).pc = .dyingJoiner t f) (h : (s.tcb t).joiner = .thread j) :
      Trans (.run p) (s.goto p (.startTest (.dying t f) j))
  | dyingDead (p : Fin N) (t : Tid) (f : Frame) (hpc : (s.proc p).pc = .dyingDead t f) :
      Trans (.run p) ((s.setState t .dead).goto p (.dyingUnlock t f))
  | dyingUnlock (p : Fin N) (t : Tid) (f : Frame) (hpc : (s.proc p).pc = .dyingUnlock t f) :
      Trans (.run p) ((s.setJoinSpinlock t false).goto p (.switchResume f))
  | resumeNascent (p : Fin N) (self : Tid) (f : Frame) (hp : s.proc p = ⟨self, .switchResume f⟩)
      (h : (s.tcb self).state = .nascent) :
      Trans (.run p) ((s.setState self .running).goto p .user)
  | resumeInside (p : Fin N) (self : Tid) (c : Site)
      (hp : s.proc p = ⟨self, .switchResume (.inside c)⟩) (h : (s.tcb self).state ≠ .nascent) :
      Trans (.run p) ((s.setState self .running).goto p c.return)
  | resumeWild (p : Fin N) (self : Tid) (f : Frame) (hp : s.proc p = ⟨self, .switchResume f⟩)
      (h : (s.tcb self).state ≠ .nascent) (hf : ∀ c, f ≠ .inside c) :
      Trans (.run p) ((s.setState self .running).goto p .wild)
  | startRunning (p : Fin N) (r : Starter) (t : Tid) (hpc : (s.proc p).pc = .startTest r t)
      (h : (s.tcb t).state = .running) : Trans (.run p) (s.goto p (.startEnqueue r t))
  | startStopped (p : Fin N) (r : Starter) (t : Tid) (hpc : (s.proc p).pc = .startTest r t)
      (h : (s.tcb t).state ≠ .running) : Trans (.run p) (s.goto p (.startRunable r t))
  | startRunable (p : Fin N) (r : Starter) (t : Tid) (hpc : (s.proc p).pc = .startRunable r t) :
      Trans (.run p) ((s.setState t .runable).goto p (.startEnqueue r t))
  | startEnqueue (p : Fin N) (r : Starter) (t : Tid) (hpc : (s.proc p).pc = .startEnqueue r t) :
      Trans (.run p) ((s.readyQueueEnqueue t).goto p r.return)
  | joinNull (p : Fin N) (t : Tid) (hpc : (s.proc p).pc = .joinTest t)
      (h : (s.tcb t).joiner = .null) : Trans (.run p) (s.goto p (.joinLock t))
  | joinBusy (p : Fin N) (t : Tid) (hpc : (s.proc p).pc = .joinTest t)
      (h : (s.tcb t).joiner ≠ .null) :
      Trans (.run p) (s.goto p (.joinReturn false t (some 0)))
  | joinLock (p : Fin N) (t : Tid) (hpc : (s.proc p).pc = .joinLock t)
      (h : (s.tcb t).joinSpinlock = false) :
      Trans (.run p) ((s.setJoinSpinlock t true).goto p (.joinState t))
  | joinDead (p : Fin N) (t : Tid) (hpc : (s.proc p).pc = .joinState t)
      (h : (s.tcb t).state = .dead) : Trans (.run p) (s.goto p (.joinValue false t))
  | joinAlive (p : Fin N) (t : Tid) (hpc : (s.proc p).pc = .joinState t)
      (h : (s.tcb t).state ≠ .dead) : Trans (.run p) (s.goto p (.joinSet t))
  | joinSet (p : Fin N) (self t : Tid) (hp : s.proc p = ⟨self, .joinSet t⟩) :
      Trans (.run p) ((s.setJoiner t (.thread self)).goto p (.joinUnlock t))
  | joinUnlock (p : Fin N) (t : Tid) (hpc : (s.proc p).pc = .joinUnlock t) :
      Trans (.run p) ((s.setJoinSpinlock t false).goto p (.stopDequeue (.join t)))
  | joinValue (p : Fin N) (b : Bool) (t : Tid) (hpc : (s.proc p).pc = .joinValue b t) :
      Trans (.run p) (s.goto p (.joinFree b t (s.tcb t).returnVal))
  | joinFree (p : Fin N) (b : Bool) (t : Tid) (v : Value) (hpc : (s.proc p).pc = .joinFree b t v) :
      Trans (.run p) ((s.uthreadFree t).goto p (.joinReturn b t v))
  | joinReturn (p : Fin N) (b : Bool) (t : Tid) (v : Value)
      (hpc : (s.proc p).pc = .joinReturn b t v) : Trans (.run p) (s.goto p .user)
  | detachNull (p : Fin N) (t : Tid) (hpc : (s.proc p).pc = .detachTest t)
      (h : (s.tcb t).joiner = .null) : Trans (.run p) (s.goto p (.detachLock t))
  | detachBusy (p : Fin N) (t : Tid) (hpc : (s.proc p).pc = .detachTest t)
      (h : (s.tcb t).joiner ≠ .null) : Trans (.run p) (s.goto p .user)
  | detachLock (p : Fin N) (t : Tid) (hpc : (s.proc p).pc = .detachLock t)
      (h : (s.tcb t).joinSpinlock = false) :
      Trans (.run p) ((s.setJoinSpinlock t true).goto p (.detachState t))
  | detachDead (p : Fin N) (t : Tid) (hpc : (s.proc p).pc = .detachState t)
      (h : (s.tcb t).state = .dead) : Trans (.run p) (s.goto p (.detachFree t))
  | detachAlive (p : Fin N) (t : Tid) (hpc : (s.proc p).pc = .detachState t)
      (h : (s.tcb t).state ≠ .dead) : Trans (.run p) (s.goto p (.detachSet t))
  | detachSet (p : Fin N) (t : Tid) (hpc : (s.proc p).pc = .detachSet t) :
      Trans (.run p) ((s.setJoiner t .detached).goto p (.detachUnlock t))
  | detachUnlock (p : Fin N) (t : Tid) (hpc : (s.proc p).pc = .detachUnlock t) :
      Trans (.run p) ((s.setJoinSpinlock t false).goto p .user)
  | detachFree (p : Fin N) (t : Tid) (hpc : (s.proc p).pc = .detachFree t) :
      Trans (.run p) ((s.uthreadFree t).goto p .user)
  | enterTake (p : Fin N) (self : Tid) (m : Mid) (pc : Pc) (hp : s.proc p = ⟨self, pc⟩)
      (hpc : pc = .enterLock m ∨ pc = .enterRelock m) (hl : (s.monitor m).spinlock = false)
      (hh : (s.monitor m).holder = none) :
      Trans (.run p) ((s.setMonitor m ⟨some self, true, (s.monitor m).waiterQueue⟩).goto p
        (.enterUnlock m))
  | enterWait (p : Fin N) (self : Tid) (m : Mid) (pc : Pc) (h : Tid)
      (hp : s.proc p = ⟨self, pc⟩) (hpc : pc = .enterLock m ∨ pc = .enterRelock m)
      (hl : (s.monitor m).spinlock = false) (hh : (s.monitor m).holder = some h) :
      Trans (.run p) ((s.setMonitor m
        ⟨some h, true, (s.monitor m).waiterQueue ++ [self]⟩).goto p (.enterUnlockWait m))
  | enterUnlockWait (p : Fin N) (m : Mid) (hpc : (s.proc p).pc = .enterUnlockWait m) :
      Trans (.run p) ((s.setMonitor m { s.monitor m with spinlock := false }).goto p
        (.stopDequeue (.enter m)))
  | enterUnlock (p : Fin N) (m : Mid) (hpc : (s.proc p).pc = .enterUnlock m) :
      Trans (.run p) ((s.setMonitor m { s.monitor m with spinlock := false }).goto p .user)
  | exitTake (p : Fin N) (self : Tid) (m : Mid) (hp : s.proc p = ⟨self, .exitLock m⟩)
      (hl : (s.monitor m).spinlock = false) (hh : (s.monitor m).holder = some self) :
      Trans (.run p) ((s.setMonitor m ⟨none, true, (s.monitor m).waiterQueue.tail⟩).goto p
        (.exitUnlock m (s.monitor m).waiterQueue.head?))
  | exitAssert (p : Fin N) (self : Tid) (m : Mid) (hp : s.proc p = ⟨self, .exitLock m⟩)
      (hl : (s.monitor m).spinlock = false) (hh : (s.monitor m).holder ≠ some self) :
      Trans (.run p) ((s.setMonitor m { s.monitor m with spinlock := true }).goto p
        (.aborted .holder))
  | exitNone (p : Fin N) (m : Mid) (hpc : (s.proc p).pc = .exitUnlock m none) :
      Trans (.run p) ((s.setMonitor m { s.monitor m with spinlock := false }).goto p .user)
  | exitSome (p : Fin N) (m : Mid) (t : Tid) (hpc : (s.proc p).pc = .exitUnlock m (some t)) :
      Trans (.run p) ((s.setMonitor m { s.monitor m with spinlock := false }).goto p
        (.startTest (.exit m) t))

variable {s} {t : State N} {p : Fin N}

/-- A call takes one of the branches. -/
lemma trans_of_call {op : Op} (h : step s (.call p op) = some t) : Trans s (.call p op) t := by
  obtain ⟨⟨hpc, hc, hv⟩, h⟩ := Option.ite_none_right_eq_some.mp h
  cases Option.some.inj h
  cases op with
  | create => exact .callCreate p hpc hc
  | yield => exact .callYield p hpc
  | join t => exact .callJoin p t hpc (by simpa [Op.valid] using hv) hc
  | detach t => exact .callDetach p t hpc (by simpa [Op.valid] using hv) hc
  | enter m => exact .callEnter p m hpc hc
  | exit m => exact .callExit p m hpc hc
  | ret v => exact .callRet p _ v (by rw [← hpc]) hc

/-- The section of `uthread_monitor_enter` takes one of two branches. -/
lemma trans_of_monitorEnter {m : Mid}
    (hpc : (s.proc p).pc = .enterLock m ∨ (s.proc p).pc = .enterRelock m)
    (h : monitorEnter s p m = some t) : Trans s (.run p) t := by
  simp only [monitorEnter] at h
  split at h
  · cases h
  · rename_i hl
    have hl := Bool.eq_false_iff.mpr hl
    split at h <;> cases h
    · rename_i hh
      exact .enterTake p _ m _ rfl hpc hl hh
    · rename_i x hh
      rw [hh]
      exact .enterWait p _ m _ x rfl hpc hl hh

/-- The section of `uthread_monitor_exit` takes one of two branches. -/
lemma trans_of_monitorExit {m : Mid} (hpc : (s.proc p).pc = .exitLock m)
    (h : monitorExit s p m = some t) : Trans s (.run p) t := by
  have hp : s.proc p = ⟨(s.proc p).thread, .exitLock m⟩ := by rw [← hpc]
  simp only [monitorExit] at h
  split at h
  · cases h
  · rename_i hl
    have hl := Bool.eq_false_iff.mpr hl
    split at h <;> cases h
    · rename_i hh
      exact .exitTake p _ m hp hl hh
    · rename_i hh
      exact .exitAssert p _ m hp hl hh

/-- The dequeue of `uthread_stop` takes one of three branches. -/
lemma trans_of_uthreadStop {c : Site} (hpc : (s.proc p).pc = .stopDequeue c) :
    Trans s (.run p) (uthreadStop s p c) := by
  have hp : s.proc p = ⟨(s.proc p).thread, .stopDequeue c⟩ := by rw [← hpc]
  unfold uthreadStop
  split
  · rename_i h
    exact .dequeueNone p c hpc h
  · rename_i u rest h
    split_ifs with hu
    · exact .dequeueSelf p _ c rest hp (hu ▸ h)
    · exact .dequeue p _ c u rest hp h hu

/-- The end of `uthread_switch` takes one of three branches. -/
lemma trans_of_uthreadResume {f : Frame} (hpc : (s.proc p).pc = .switchResume f) :
    Trans s (.run p) (uthreadResume s p f) := by
  have hp : s.proc p = ⟨(s.proc p).thread, .switchResume f⟩ := by rw [← hpc]
  unfold uthreadResume
  dsimp only
  split_ifs with h
  · exact .resumeNascent p _ f hp h
  · cases f with
    | inside c => exact .resumeInside p _ c hp h
    | fresh => exact .resumeWild p _ _ hp h (by simp)
    | null => exact .resumeWild p _ _ hp h (by simp)

/-- A step inside `uthread.c` takes one of the branches. -/
lemma trans_of_exec (h : exec s p (s.proc p).pc = some t) : Trans s (.run p) t := by
  generalize hpc : (s.proc p).pc = pc at h
  have hp : s.proc p = ⟨(s.proc p).thread, pc⟩ := by rw [← hpc]
  cases pc with
  | user | aborted | wild => cases h
  | createEnqueue u => cases h; exact .createEnqueue p u hpc
  | yieldEnqueue => cases h; exact .yieldEnqueue p _ hp
  | stopDequeue c => cases h; exact trans_of_uthreadStop hpc
  | switchSpin c u =>
    simp only [exec] at h
    split_ifs at h with hu <;> cases h
    · exact .spin p c u hpc hu
    · exact .spinDone p c u hpc hu
  | switchSwap c u => cases h; exact .swap p _ c u hp
  | switchDying u f =>
    cases h
    split_ifs with hu
    · exact .isDying p u f hpc hu
    · exact .notDying p u f hpc hu
  | dyingLock u f =>
    simp only [exec] at h
    split_ifs at h with hu
    cases h
    exact .dyingLock p u f hpc (Bool.eq_false_iff.mpr hu)
  | dyingJoiner u f =>
    simp only [exec] at h
    split at h <;> cases h
    · rename_i hj; exact .dyingDetached p u f hpc hj
    · rename_i hj; exact .dyingNull p u f hpc hj
    · rename_i j hj; exact .dyingThread p u f j hpc hj
  | dyingDead u f => cases h; exact .dyingDead p u f hpc
  | dyingUnlock u f => cases h; exact .dyingUnlock p u f hpc
  | switchResume f => cases h; exact trans_of_uthreadResume hpc
  | startTest r u =>
    cases h
    split_ifs with hu
    · exact .startRunning p r u hpc hu
    · exact .startStopped p r u hpc hu
  | startRunable r u => cases h; exact .startRunable p r u hpc
  | startEnqueue r u => cases h; exact .startEnqueue p r u hpc
  | joinTest u =>
    cases h
    split_ifs with hu
    · exact .joinNull p u hpc hu
    · exact .joinBusy p u hpc hu
  | joinLock u =>
    simp only [exec] at h
    split_ifs at h with hu
    cases h
    exact .joinLock p u hpc (Bool.eq_false_iff.mpr hu)
  | joinState u =>
    cases h
    split_ifs with hu
    · exact .joinDead p u hpc hu
    · exact .joinAlive p u hpc hu
  | joinSet u => cases h; exact .joinSet p _ u hp
  | joinUnlock u => cases h; exact .joinUnlock p u hpc
  | joinValue b u => cases h; exact .joinValue p b u hpc
  | joinFree b u v => cases h; exact .joinFree p b u v hpc
  | joinReturn b u v => cases h; exact .joinReturn p b u v hpc
  | detachTest u =>
    cases h
    split_ifs with hu
    · exact .detachNull p u hpc hu
    · exact .detachBusy p u hpc hu
  | detachLock u =>
    simp only [exec] at h
    split_ifs at h with hu
    cases h
    exact .detachLock p u hpc (Bool.eq_false_iff.mpr hu)
  | detachState u =>
    cases h
    split_ifs with hu
    · exact .detachDead p u hpc hu
    · exact .detachAlive p u hpc hu
  | detachSet u => cases h; exact .detachSet p u hpc
  | detachUnlock u => cases h; exact .detachUnlock p u hpc
  | detachFree u => cases h; exact .detachFree p u hpc
  | enterLock m => exact trans_of_monitorEnter (.inl hpc) h
  | enterRelock m => exact trans_of_monitorEnter (.inr hpc) h
  | enterUnlockWait m => cases h; exact .enterUnlockWait p m hpc
  | enterUnlock m => cases h; exact .enterUnlock p m hpc
  | exitLock m => exact trans_of_monitorExit hpc h
  | exitUnlock m w =>
    cases w with
    | none => cases h; exact .exitNone p m hpc
    | some u => cases h; exact .exitSome p m u hpc

/-- **Every step takes one of the branches.** -/
theorem trans_of_step {a : Act N} (h : step s a = some t) : Trans s a t := by
  cases a with
  | call p op => exact trans_of_call h
  | run p => exact trans_of_exec h

/-- A step of one processor leaves the others where they are. -/
lemma Trans.proc_of_ne {a : Act N} (h : Trans s a t) {q : Fin N} (hq : q ≠ a.proc) :
    t.proc q = s.proc q := by
  cases h <;> simp_all

end Uthread
