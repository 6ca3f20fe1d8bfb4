import Cs213.Uthread.Scheduler

set_option relaxedAutoImplicit false
set_option autoImplicit false

/-!
# The joiner of a thread

A call of `uthread_join` stores its caller in the field `joiner` of the thread, under the join
spinlock, and stops. The exit of the thread reads the field under the same lock, and puts the thread
that it finds on the ready queue before it stores `TS_DEAD`.

## Main definitions

* `Uthread.Pc.joined` — the part of `uthread_join` after the caller has stored itself.
* `Uthread.WakesUp` — the exit of a thread puts another one on the ready queue.
* `Uthread.ExitLaw` — the exit of a thread and a call of `uthread_join` exclude each other.

## Main results

* `Uthread.exitLaw_of_run` — the exit law holds at the end of every run.
-/

namespace Uthread

open Runs

variable {N : ℕ} {s t : State N} {a : Act N}

/-! ## Inside `uthread_join` -/

/-- The thread a call of `uthread_join` stops for. -/
@[grind] def Site.joined : Site → Option Tid
  | .join t => some t
  | .yield | .enter _ | .exit => none

/-- The thread that a caller of `uthread_join` has stopped for, whose frame this is. -/
@[grind] def Frame.joined : Frame → Option Tid
  | .inside c => c.joined
  | .null | .fresh => none

/-- The same for the frame to which a call of `uthread_start` returns in the end. -/
@[grind] def Starter.joined : Starter → Option Tid
  | .dying _ f => f.joined
  | .exit _ => none

/-- The thread that a program point is in a call of `uthread_join` of, after the caller has been
stored in its joiner field. -/
@[grind] def Pc.joined : Pc → Option Tid
  | .joinUnlock t => some t
  | .joinValue b t | .joinFree b t _ | .joinReturn b t _ => if b then some t else none
  | .stopDequeue c | .switchSpin c _ | .switchSwap c _ => c.joined
  | .switchDying _ f | .dyingLock _ f | .dyingJoiner _ f | .dyingDead _ f | .dyingUnlock _ f
  | .switchResume f => f.joined
  | .startTest r _ | .startRunable r _ | .startEnqueue r _ => r.joined
  | .user | .createEnqueue _ | .yieldEnqueue | .joinTest _ | .joinLock _ | .joinState _
  | .joinSet _ | .detachTest _ | .detachLock _ | .detachState _ | .detachSet _
  | .detachUnlock _ | .detachFree _ | .enterLock _ | .enterRelock _ | .enterUnlockWait _
  | .enterUnlock _ | .exitLock _ | .exitUnlock _ _ | .aborted _ | .wild => none

@[simp, grind =] lemma Site.joined_return (c : Site) : c.return.joined = c.joined := by
  cases c <;> rfl

@[simp, grind =] lemma Starter.joined_return (r : Starter) : r.return.joined = r.joined := by
  cases r <;> rfl

lemma Pc.joined_mem_tids {pc : Pc} {T : Tid} (h : pc.joined = some T) : T ∈ pc.tids := by
  have hc : ∀ c : Site, c.joined = some T → T ∈ c.tids := by rintro ⟨⟩ <;> grind
  have hf : ∀ f : Frame, f.joined = some T → T ∈ f.tids := by rintro ⟨⟩ <;> grind
  have hr : ∀ r : Starter, r.joined = some T → T ∈ r.tids := by rintro ⟨⟩ <;> grind
  cases pc <;> grind

/-- A processor gets into this part of `uthread_join` by storing the caller, or by switching to a
thread that has stopped there. -/
lemma Trans.joined_cases (h : Trans s a t) {T : Tid} (hj : (t.proc a.proc).pc.joined = some T) :
    (t.proc a.proc).thread = (s.proc a.proc).thread ∧ ((s.proc a.proc).pc.joined = some T ∨
      (s.proc a.proc).pc = .joinSet T ∧ (t.tcb T).joiner = .thread (s.proc a.proc).thread) ∨
    (s.tcb (t.proc a.proc).thread).savedSp.joined = some T := by
  cases h <;> grind

/-- A thread stops in `uthread_join` at a context switch. -/
lemma Trans.stopped_cases (h : Trans s a t) {T J : Tid} (hj : (t.tcb J).savedSp.joined = some T) :
    (s.tcb J).savedSp.joined = some T ∨ J = (s.proc a.proc).thread ∧
      ∃ c u, (s.proc a.proc).pc = .switchSwap c u ∧ c.joined = some T := by
  rcases h.savedSp_cases J with e | ⟨-, e⟩ | ⟨rfl, c, u, hpc, e, -⟩
  · exact .inl (e ▸ hj)
  · simp [e, Frame.joined] at hj
  · exact .inr ⟨rfl, c, u, hpc, by simpa [e, Frame.joined] using hj⟩

/-! ## The exit of a thread and its joiner -/

/-- The exit of `T` puts `J` on the ready queue. -/
def WakesUp (T J : Tid) (s : State N) (a : Act N) : Prop :=
  ∃ f, (s.proc a.proc).pc = .startEnqueue (.dying T f) J

/-- The exit of a thread that starts thread `K`. -/
def Pc.starts (T K : Tid) (pc : Pc) : Prop :=
  ∃ f, pc = .startTest (.dying T f) K ∨ pc = .startRunable (.dying T f) K ∨
    pc = .startEnqueue (.dying T f) K

lemma Pc.joinHeld_of_starts {pc : Pc} {T K : Tid} (h : pc.starts T K) :
    pc.joinHeld = some T := by
  rcases h with ⟨f, rfl | rfl | rfl⟩ <;> rfl

/-- A caller of `uthread_join` has tested the state before it stores itself. -/
lemma Trans.joinSet_cases (h : Trans s a t) {T : Tid} (hpc : (t.proc a.proc).pc = .joinSet T) :
    (t.tcb T).state ≠ .dead := by
  cases h <;> grind [Site.return_cases, Starter.return_cases]

lemma Trans.starts_cases (h : Trans s a t) {T K : Tid} (hpc : (t.proc a.proc).pc.starts T K) :
    (t.tcb T).joiner = (s.tcb T).joiner ∧
      ((s.proc a.proc).pc.starts T K ∨ (s.tcb T).joiner = .thread K) := by
  cases h <;> grind [Pc.starts, Site.return_cases, Starter.return_cases]

lemma Trans.dyingDead_cases (h : Trans s a t) {T : Tid} {f : Frame}
    (hpc : (t.proc a.proc).pc = .dyingDead T f) : (t.tcb T).joiner = .null ∨
      (t.tcb T).joiner = (s.tcb T).joiner ∧
        ∃ K, (s.proc a.proc).pc = .startEnqueue (.dying T f) K := by
  cases h <;> grind [Site.return_cases, Starter.return_cases]

/-- The exit of a thread and a call of `uthread_join` exclude each other. -/
structure ExitLaw (acts : List (Act N)) (s : State N) : Prop where
  /-- A caller stores itself only in a thread that is not dead. -/
  alive : ∀ p T, (s.proc p).pc = .joinSet T → (s.tcb T).state ≠ .dead
  /-- The exit starts the thread that is the joiner. -/
  starts : ∀ p T K, (s.proc p).pc.starts T K → (s.tcb T).joiner = .thread K
  /-- It has been put on the ready queue before the thread is dead. -/
  dying : ∀ p T f K, (s.proc p).pc = .dyingDead T f → (s.tcb T).joiner = .thread K →
    Occurs step (WakesUp T K) (init N) acts
  dead : ∀ T K, (s.tcb T).state = .dead → (s.tcb T).joiner = .thread K →
    Occurs step (WakesUp T K) (init N) acts

/-- What has occurred in a run has occurred in every longer one. -/
lemma occurs_left {P : State N → Act N → Prop} {acts : List (Act N)}
    (h : Occurs step P (init N) acts) : Occurs step P (init N) (acts ++ [a]) :=
  occurs_concat.mpr (.inl h)

/-- **The exit law is kept** by every step. -/
lemma ExitLaw.step {acts : List (Act N)} (h : ExitLaw acts s) (hl : JoinGuarded s)
    (ha : Allocated s) (hr : run step (init N) acts = some s) (ht : Trans s a t) :
    ExitLaw (acts ++ [a]) t where
  alive p T hpc := by
    by_cases hp : p = a.proc
    · exact ht.joinSet_cases (hp ▸ hpc)
    · rw [ht.proc_of_ne hp] at hpc
      exact hl.ne_dead ht hp (by rw [hpc, Pc.joinHeld]) (h.alive p T hpc)
  starts p T K hpc := by
    by_cases hp : p = a.proc
    · subst hp
      obtain ⟨e, hs | hj⟩ := ht.starts_cases hpc
      · rw [e, h.starts _ T K hs]
      · rw [e, hj]
    · rw [ht.proc_of_ne hp] at hpc
      rw [hl.joiner_eq ha ht hp (Pc.joinHeld_of_starts hpc), h.starts p T K hpc]
  dying p T f K hpc hj := by
    by_cases hp : p = a.proc
    · subst hp
      rcases ht.dyingDead_cases hpc with e | ⟨e, K', hs⟩
      · simp [e] at hj
      · -- the joiner has just been put on the ready queue
        have hK := h.starts _ T K' ⟨f, .inr (.inr hs)⟩
        rw [e, hK] at hj
        cases hj
        exact occurs_concat.mpr (.inr ⟨s, hr, f, hs⟩)
    · rw [ht.proc_of_ne hp] at hpc
      rw [hl.joiner_eq ha ht hp (by rw [hpc, Pc.joinHeld])] at hj
      exact occurs_left (h.dying p T f K hpc hj)
  dead T K hd hj := by
    rcases ht.state_cases T with e | ⟨-, e⟩ | ⟨-, c, u, -, e⟩ | ⟨-, -, e⟩ | ⟨-, e⟩ | ⟨⟨f, hpc⟩, -⟩
    · rcases ht.joiner_cases T with e' | ⟨-, e'⟩ | ⟨hpc, -⟩ | ⟨-, e'⟩
      · exact occurs_left (h.dead T K (e ▸ hd) (e' ▸ hj))
      · simp [e'] at hj
      · exact absurd (e ▸ hd) (h.alive _ T hpc)
      · simp [e'] at hj
    · simp [e] at hd
    · cases c <;> simp [e, Site.stoppingThreadState] at hd
    · simp [e] at hd
    · simp [e] at hd
    · rcases ht.joiner_cases T with e' | ⟨-, e'⟩ | ⟨hpc', -⟩ | ⟨-, e'⟩
      · exact occurs_left (h.dying _ T f K hpc (e' ▸ hj))
      · simp [e'] at hj
      · simp [hpc] at hpc'
      · simp [e'] at hj

/-- The exit law holds at the start. -/
lemma exitLaw_init : ExitLaw [] (init N) where
  alive p T h := by simp [init] at h
  starts p T K h := by simp [init, Pc.starts] at h
  dying p T f K h := by simp [init] at h
  dead T K h := absurd (.inr h) (not_exited_init T)

/-- What every run keeps of handles, join spinlocks and exits. -/
lemma exitLaw_of_run (hN : 0 < N) {acts : List (Act N)} (hr : run step (init N) acts = some s) :
    Allocated s ∧ JoinGuarded s ∧ ExitLaw acts s := by
  refine induct (motive := fun acts s => Allocated s ∧ JoinGuarded s ∧ ExitLaw acts s)
    ⟨allocated_init hN, joinGuarded_init, exitLaw_init⟩ ?_ hr
  rintro as a t u hr ⟨ha, hl, he⟩ ht
  have ht := trans_of_step ht
  exact ⟨ha.step ht, hl.step ha ht, he.step hl ha hr ht⟩

end Uthread
