import Cs213.Uthread.Exits
import Cs213.Uthread.Lifetime

set_option relaxedAutoImplicit false
set_option autoImplicit false

/-!
# Blocks that have been freed

When every handle is used in one call of `uthread_join` or `uthread_detach`, the block of a thread
is freed once, and nobody touches it after that, with two exceptions. The exit of a thread puts the
joiner on the ready queue before it has stored `TS_DEAD` and unlocked the join spinlock, so that the
joiner can free the block under its hands. And a processor that has switched away from a thread can
be so late to test its state that the thread has exited elsewhere and has been freed.

## Main definitions

* `Uthread.Pc.touches` — the block that the exit, `uthread_join` or `uthread_detach` accesses next.
* `Uthread.TouchesFreed` — the next access of some processor is to a block that has been freed.
* `Uthread.LifetimeLaw` — what is promised about the blocks at the end of a run.
* `Uthread.Departed` — nobody leaves a thread that has been freed.
* `Uthread.earlyFree`, `Uthread.lateTest` — two runs in which a block is freed too early.

## Main results

* `Uthread.lifetimeLaw_of_run` — the promise, for runs in which no thread exits early and no joiner
  frees a block that is locked.
* `Uthread.earlyFree_not_lifetimeLaw` — and not for all runs.
-/

namespace Uthread

open Runs

variable {N : ℕ} {s t : State N} {a : Act N}

/-! ## The law -/

/-- The block of a thread that its exit, `uthread_join` or `uthread_detach` accesses next. The exit
starts with the test of `from_thread->state`. -/
def Pc.touches : Pc → Option Tid
  | .switchDying t _ | .dyingLock t _ | .dyingJoiner t _ | .dyingDead t _ | .dyingUnlock t _
  | .joinTest t | .joinLock t | .joinState t | .joinSet t | .joinUnlock t | .joinValue _ t
  | .joinFree _ t _ | .detachTest t | .detachLock t | .detachState t | .detachSet t
  | .detachUnlock t | .detachFree t => some t
  | _ => none

/-- The next access of a processor in the exit of a thread, in `uthread_join` or in `uthread_detach`
is to a block that has been freed; it may be one of the many reads with which `spinlock_lock`
waits. -/
def TouchesFreed (s : State N) : Prop :=
  ∃ p, ∃ T ∈ (s.proc p).pc.touches, 0 < (s.tcb T).freed

instance (s : State N) : Decidable (TouchesFreed s) :=
  inferInstanceAs (Decidable (∃ _, ∃ _ ∈ _, _))

/-- **The law of the blocks** at the end of a run. -/
structure LifetimeLaw (acts : List (Act N)) (s : State N) : Prop where
  /-- A block is freed at most once. -/
  once : ∀ T, (s.tcb T).freed ≤ 1
  /-- It is not accessed after that. -/
  untouched : Throughout step (fun s => ¬ TouchesFreed s) (init N) acts
  /-- A call of `uthread_join` that has stopped returns the one value that the thread has
  returned. -/
  returned : ∀ p T v, (s.proc p).pc = .joinReturn true T v →
    ∃ w, v = some w ∧ ∀ w', Occurs step (Returns T w') (init N) acts ↔ w' = w

lemma Pc.touches_cases {pc : Pc} {T : Tid} (h : pc.touches = some T) :
    pc.handle = some T ∨ pc.leaves = some T := by
  cases pc <;> simp_all [Pc.touches, Pc.handle, Pc.leaves, Pc.reaps]

/-- **Nobody leaves a block that has been freed.** -/
structure Departed (s : State N) : Prop where
  /-- A call that has found a thread dead was right. -/
  dead : ∀ p T, (s.proc p).pc.found = some T → (s.tcb T).state = .dead
  freed : ∀ T, 0 < (s.tcb T).freed → s.exited T ∧ ∀ p, (s.proc p).pc.leaves ≠ some T

/-- The exit of a detached thread ends when it has freed the block. -/
lemma Trans.leaves_of_detached (h : Trans s a t) {T : Tid} {f : Frame}
    (hpc : (s.proc a.proc).pc = .dyingJoiner T f) (hd : (s.tcb T).joiner = .detached) :
    (t.proc a.proc).pc.leaves = none := by
  cases h <;> grind

namespace Departed

variable {acts : List (Act N)} (h : Departed s) (hi : Inv (fun _ => True) s)
  (hL : Lifetime acts s) (hp : Reaped (fun _ => True) s) (ht : Trans s a t) {T : Tid}

include h hi ht

lemma dead_step (p : Fin N) (hT : (t.proc p).pc.found = some T) : (t.tcb T).state = .dead := by
  refine hi.owned.dead_mono hi.allocated ht ?_
  by_cases hpa : p = a.proc
  · subst hpa
    exact (ht.dead_of_found hT).elim (h.dead _ T) And.right
  · exact h.dead p T (ht.proc_of_ne hpa ▸ hT)

omit h hi ht in
include hp in
/-- Nobody leaves a dead thread whose join spinlock nobody holds. -/
lemma not_leaves_of_dead (hd : (s.tcb T).state = .dead) (hl : ∀ p, (s.proc p).pc.joinHeld ≠ some T)
    (p : Fin N) : (s.proc p).pc.leaves ≠ some T := by
  intro hT
  rcases Pc.finds_or_joinHeld hT with hf | hh
  · exact hp.undead p T trivial (.inr hd) hf hd
  · exact hl p hh

include hL hp

lemma freed_step (hC : ¬ FreesLocked s a) (hf : 0 < (t.tcb T).freed) :
    t.exited T ∧ ∀ p, (t.proc p).pc.leaves ≠ some T := by
  have hmono : s.exited T → t.exited T := hi.owned.exited_mono hi.allocated ht
  rcases ht.freed_cases hf with e | ⟨-, -, -, ⟨hpc | ⟨v, hpc⟩, -⟩ | ⟨⟨f, hpc⟩, hd⟩⟩
  · rw [e] at hf
    obtain ⟨hx, hn⟩ := h.freed T hf
    exact ⟨hmono hx, fun p hT => hn p (hi.owned.leaves_of_exited ht hx hT)⟩
  · -- the call has found the thread dead, and has left its join spinlock locked
    have hx : s.exited T := .inr (h.dead _ T hpc)
    have hn := not_leaves_of_dead hp (h.dead _ T hpc) (hL.found _ T hpc).2
    exact ⟨hmono hx, fun p hT => hn p (hi.owned.leaves_of_exited ht hx hT)⟩
  · -- a joiner that has been woken up
    obtain ⟨hd, hheld⟩ := hL.dead_of_freesWoken hi.owned hi.joinGuarded hC hpc
    have hn := not_leaves_of_dead hp hd hheld
    exact ⟨hmono (.inr hd), fun p hT => hn p (hi.owned.leaves_of_exited ht (.inr hd) hT)⟩
  · -- the exit of a detached thread, which ends here
    have hx := hi.owned.reaps a.proc T (by rw [hpc]; rfl)
    refine ⟨hmono hx, fun p hT => ?_⟩
    have hleaves : (s.proc a.proc).pc.leaves = some T := by rw [hpc]; rfl
    obtain rfl := hp.unique p a.proc T trivial hx (hi.owned.leaves_of_exited ht hx hT) hleaves
    simp [ht.leaves_of_detached hpc hd] at hT

end Departed

/-- At the start no block has been freed. -/
lemma departed_init : Departed (init N) where
  dead p T h := by simp [init, Pc.found] at h
  freed T h := absurd (lifetime_init.freed T h).1 (by simp [freed_init])

/-! ## Runs -/

section Law

variable {acts : List (Act N)} (hN : 0 < N) (hone : (acts.filterMap Act.handle).Nodup)
  (h : AllSteps step (fun s a => ¬ ExitsEarly (fun _ => True) s a ∧ ¬ FreesLocked s a)
    (init N) acts)

include hN h

/-- An exit that is not early wakes no joiner a second time. -/
lemma not_rewakes_and_not_freesLocked :
    AllSteps step (fun s a => ¬ Rewakes (fun _ => True) s a ∧ ¬ FreesLocked s a) (init N) acts :=
  allSteps_and (not_rewakes_of_not_exitsEarly hN (h.mono fun _ _ => And.left))
    (h.mono fun _ _ => And.right)

include hone

/-- The invariants along a run in which every handle is used once. -/
lemma departed_of_run (hr : run step (init N) acts = some s) : Departed s := by
  refine induct (motive := fun acts s => (acts.filterMap Act.handle).Nodup →
    AllSteps step (fun s a => ¬ ExitsEarly (fun _ => True) s a ∧ ¬ FreesLocked s a) (init N) acts →
      Departed s) (fun _ _ => departed_init) ?_ hr hone h
  intro as a t u hr ih hu hone h
  obtain ⟨h, hC⟩ := allSteps_concat.mp h
  rw [List.filterMap_append] at hone
  have hone := (List.nodup_append'.mp hone).1
  obtain ⟨hi, hL, -⟩ := lifetime_of_run hN hone (not_rewakes_and_not_freesLocked hN h) hr
  have hp := (reaped_of_run hN (h.mono fun _ _ => And.left) hr).2
  have hd := ih hone h
  have ht := trans_of_step hu
  exact ⟨fun p T => hd.dead_step hi ht p, fun T => hd.freed_step hi hL hp ht (hC t hr).2⟩

/-- In such a run nobody touches a block that has been freed. -/
lemma not_touchesFreed_of_run (hr : run step (init N) acts = some s) : ¬ TouchesFreed s := by
  rintro ⟨p, T, hT, hf⟩
  rcases Pc.touches_cases hT with hpc | hpc
  · obtain ⟨-, hL, -⟩ := lifetime_of_run hN hone (not_rewakes_and_not_freesLocked hN h) hr
    exact (hL.freed T hf).2.1 _ (busy_of_handle hpc)
  · exact ((departed_of_run hN hone h hr).freed T hf).2 p hpc

end Law

/-- **Lifetime.** In a run in which every handle is passed to one call of `uthread_join` or
`uthread_detach`, no thread exits while another processor has still to test its state, and no joiner
that has been woken up frees a block whose join spinlock is still locked, the law of the blocks
holds. -/
theorem lifetimeLaw_of_run (hN : 0 < N) (acts : List (Act N))
    (hone : (acts.filterMap Act.handle).Nodup)
    (h : AllSteps step (fun s a => ¬ ExitsEarly (fun _ => True) s a ∧ ¬ FreesLocked s a)
      (init N) acts) :
    ∀ s, run step (init N) acts = some s → LifetimeLaw acts s := by
  intro s hr
  obtain ⟨-, hL, hV⟩ := lifetime_of_run hN hone (not_rewakes_and_not_freesLocked hN h) hr
  refine ⟨fun T => ?_, ?_, fun p T v hpc => ?_⟩
  · by_contra hf
    exact hf (hL.freed T (by omega)).1.le
  · rintro pre suf rfl t ht
    rw [List.filterMap_append] at hone
    exact not_touchesFreed_of_run hN (List.nodup_append'.mp hone).1 h.left ht
  · obtain ⟨rfl, hx⟩ := hV.read p T v (.inr hpc)
    obtain ⟨w, hw⟩ := Option.ne_none_iff_exists'.mp (hV.exited T hx)
    refine ⟨w, hw, fun w' => ?_⟩
    rw [hV.occurs, hw, Option.some.injEq, eq_comm]

/-- On two processors thread `0` creates thread `3` and joins it. Thread `3` returns on processor
`1`; when its exit is complete, processor `0` switches to thread `0`, which frees the block. -/
def joinsAndFrees : List (Act 2) :=
  [.call 0 .create, .run 0, .call 0 (.join 3)] ++ runs 0 10 ++
  [.call 1 .yield] ++ runs 1 6 ++ [.call 1 (.ret 7)] ++ runs 1 12 ++
  [.call 0 .yield] ++ runs 0 8

theorem lifetimeLaw_joinsAndFrees :
    (run step (init 2) joinsAndFrees).map (fun s => (s.proc 0, (s.tcb 3).freed)) =
      some (⟨0, .joinReturn true 3 (some 7)⟩, 1) ∧
    ∀ s, run step (init 2) joinsAndFrees = some s → LifetimeLaw joinsAndFrees s :=
  ⟨by decide +kernel,
    lifetimeLaw_of_run (by decide) joinsAndFrees (by decide) (by decide +kernel)⟩

/-! ## Blocks that are freed too early -/

/-- On two processors thread `0` creates thread `3` and joins it. Thread `3` returns on processor
`1`, whose exit puts thread `0` on the ready queue. Before it goes on, processor `0` switches to
thread `0`, which frees the block. -/
def earlyFree : List (Act 2) :=
  [.call 0 .create, .run 0, .call 0 (.join 3)] ++ runs 0 10 ++
  [.call 1 .yield] ++ runs 1 6 ++ [.call 1 (.ret 7)] ++ runs 1 9 ++
  [.call 0 .yield] ++ runs 0 8 ++ runs 1 1

/-- The last step stores `TS_DEAD` in a block that has been freed. No thread has exited early. -/
lemma earlyFree_touches : (run step (init 2) earlyFree).isSome ∧
    AllSteps step (fun s a => ¬ ExitsEarly (fun _ => True) s a) (init 2) earlyFree ∧
    ¬ Throughout step (fun s => ¬ TouchesFreed s) (init 2) earlyFree := by
  decide +kernel

/-- **The law is broken** by some run in which every handle is used once. -/
theorem earlyFree_not_lifetimeLaw :
    ¬ ∀ N, 0 < N → ∀ acts : List (Act N), (acts.filterMap Act.handle).Nodup →
      ∀ s, run step (init N) acts = some s → LifetimeLaw acts s := by
  intro h
  obtain ⟨hs, -, ht⟩ := earlyFree_touches
  obtain ⟨s, hs⟩ := Option.isSome_iff_exists.mp hs
  exact ht (h 2 (by decide) earlyFree (by decide) s hs).untouched

/-- Thread `0` detaches thread `3`, which yields on processor `1` and is resumed on processor `0`.
There it exits, and is freed, before processor `1` has tested its state. -/
def lateTest : List (Act 2) :=
  [.call 0 .create, .run 0, .call 0 (.detach 3)] ++ runs 0 5 ++
  [.call 1 .yield] ++ runs 1 6 ++ [.call 1 .yield] ++ runs 1 6 ++ [.call 1 .yield] ++ runs 1 4 ++
  [.call 0 .yield] ++ runs 0 6 ++ [.call 0 .yield] ++ runs 0 6 ++ [.call 0 (.ret 7)] ++ runs 0 6 ++
  runs 1 1

-- The last step reads the state in a block that has been freed. No joiner frees a block that is
-- locked.
example : (run step (init 2) lateTest).isSome ∧
    AllSteps step (fun s a => ¬ FreesLocked s a) (init 2) lateTest ∧
    ¬ Throughout step (fun s => ¬ TouchesFreed s) (init 2) lateTest := by
  decide +kernel

end Uthread
