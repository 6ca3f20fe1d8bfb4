import Cs213.Library.Placement
import Cs213.Uthread.Locks

set_option relaxedAutoImplicit false
set_option autoImplicit false

/-!
# Where threads are

A thread that is not needed elsewhere is kept in one of four kinds of places: on the ready queue,
on the waiter queue of a monitor, in the hands of a processor, or in the field `joiner` of a
thread whose exit has not yet picked it up.

A processor carries the thread it executes from the moment it switches to it until it has put it
on a queue or in a joiner field, and from then on only the thread it has dequeued. While it
executes `uthread_create`, `uthread_monitor_exit` or `uthread_start`, it also carries the thread
that it is about to put on the ready queue.

## Main definitions

* `Uthread.Pc.carries` — the threads in the hands of a processor.
* `Uthread.State.slot` — the joiner that the exit of a thread has still to wake up.
* `Uthread.State.contents` — what is in each of the places.

## Main results

* `Uthread.mem_slot` — when a joiner field still holds a joiner.
* `Uthread.count_slot_le` — it holds one at most.
-/

namespace Uthread

open Placement

variable {N : ℕ} {s t : State N} {a : Act N}

/-! ## What a processor carries -/

/-- The thread on behalf of whose exit `uthread_start` is called. -/
@[grind] def Starter.wakes : Starter → Option Tid
  | .dying t _ => some t
  | .exit _ => none

/-- The thread whose joiner has been picked up at a program point, before it is `TS_DEAD`. -/
@[grind] def Pc.wakes : Pc → Option Tid
  | .dyingDead t _ => some t
  | .startTest r _ | .startRunable r _ | .startEnqueue r _ => r.wakes
  | .user | .createEnqueue _ | .yieldEnqueue | .stopDequeue _ | .switchSpin _ _ | .switchSwap _ _
  | .switchDying _ _ | .dyingLock _ _ | .dyingJoiner _ _ | .dyingUnlock _ _ | .switchResume _
  | .joinTest _ | .joinLock _ | .joinState _ | .joinSet _ | .joinUnlock _ | .joinValue _ _
  | .joinFree _ _ _ | .joinReturn _ _ _ | .detachTest _ | .detachLock _ | .detachState _
  | .detachSet _ | .detachUnlock _ | .detachFree _ | .enterLock _ | .enterRelock _
  | .enterUnlockWait _ | .enterUnlock _ | .exitLock _ | .exitUnlock _ _ | .aborted _
  | .wild => none

/-- The threads that a processor executing `self` carries at a program point. -/
@[grind] def Pc.carries (self : Tid) : Pc → List Tid
  | .createEnqueue t | .startTest _ t | .startRunable _ t | .startEnqueue _ t => [self, t]
  | .exitUnlock _ w => self :: w.toList
  | .switchSpin _ t | .switchSwap _ t => [t]
  | .stopDequeue _ | .joinUnlock _ | .enterUnlockWait _ | .aborted _ => []
  | .user | .yieldEnqueue | .switchDying _ _ | .dyingLock _ _ | .dyingJoiner _ _ | .dyingDead _ _
  | .dyingUnlock _ _ | .switchResume _ | .joinTest _ | .joinLock _ | .joinState _ | .joinSet _
  | .joinValue _ _ | .joinFree _ _ _ | .joinReturn _ _ _ | .detachTest _ | .detachLock _
  | .detachState _ | .detachSet _ | .detachUnlock _ | .detachFree _ | .enterLock _
  | .enterRelock _ | .enterUnlock _ | .exitLock _ | .wild => [self]

/-- The threads that a processor carries. -/
def Proc.carries (x : Proc) : List Tid := x.pc.carries x.thread

@[simp, grind =] lemma Proc.carries_mk (self : Tid) (pc : Pc) :
    (Proc.mk self pc).carries = pc.carries self := rfl

@[simp, grind =] lemma Site.carries_return (c : Site) (self : Tid) :
    c.return.carries self = [self] := by
  cases c <;> rfl

@[simp, grind =] lemma Starter.carries_return (r : Starter) (self : Tid) :
    r.return.carries self = [self] := by
  cases r <;> rfl

@[simp, grind =] lemma Site.wakes_return (c : Site) : c.return.wakes = none := by
  cases c <;> rfl

@[simp, grind =] lemma Starter.wakes_return (r : Starter) : r.return.wakes = r.wakes := by
  cases r <;> rfl

/-- The exit of a thread picks up the joiner under the join spinlock. -/
lemma Pc.joinHeld_of_wakes {pc : Pc} {t : Tid} (h : pc.wakes = some t) :
    pc.joinHeld = some t := by
  have hr : ∀ r : Starter, r.wakes = some t → r.joinHeld = some t := by
    rintro (_ | _) h <;> grind
  cases pc <;> grind

/-! ## The places -/

/-- The places a thread can be in. -/
inductive Place (N : ℕ)
  | ready
  | waiter (m : Mid)
  | proc (p : Fin N)
  | slot (t : Tid)

/-- The joiner of `t`, if `t` is not dead and its exit has not yet picked the joiner up. -/
def State.slot (s : State N) (t : Tid) : List Tid :=
  match (s.tcb t).joiner with
  | .thread j =>
    if (s.tcb t).state = .dead ∨ ∃ p, (s.proc p).pc.wakes = some t then [] else [j]
  | .null | .detached => []

/-- What is in each of the places. -/
@[grind] def State.contents (s : State N) : Place N → List Tid
  | .ready => s.readyQueue
  | .waiter m => (s.monitor m).waiterQueue
  | .proc p => (s.proc p).carries
  | .slot t => s.slot t

lemma mem_slot {t j : Tid} : j ∈ s.slot t ↔ (s.tcb t).joiner = .thread j ∧
    (s.tcb t).state ≠ .dead ∧ ∀ p, (s.proc p).pc.wakes ≠ some t := by
  unfold State.slot
  cases (s.tcb t).joiner with
  | null | detached => simp
  | thread k =>
    simp only [Joiner.thread.injEq]
    split_ifs with h
    · simp only [List.not_mem_nil, false_iff]
      rintro ⟨-, h₁, h₂⟩
      exact h.elim h₁ fun ⟨p, hp⟩ => h₂ p hp
    · push Not at h
      simp [h, eq_comm]

/-- A joiner field holds at most one thread. -/
lemma count_slot_le (u t : Tid) : (s.slot t).count u ≤ 1 := by
  unfold State.slot
  cases (s.tcb t).joiner with
  | null | detached => simp
  | thread k =>
    dsimp only
    split_ifs
    · simp
    · exact List.count_le_length

/-- What is in a joiner field only if it was there before has no more copies there. -/
lemma count_slot_le_of_mem {u v : Tid} (h : u ∈ t.slot v → u ∈ s.slot v) :
    (t.slot v).count u ≤ (s.slot v).count u := by
  by_cases hu : u ∈ t.slot v
  · exact (count_slot_le u v).trans (List.count_pos_iff.mpr (h hu))
  · simp [List.count_eq_zero_of_not_mem hu]

end Uthread
