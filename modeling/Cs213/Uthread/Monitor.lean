import Cs213.Uthread.Calls
import Cs213.Uthread.Scheduler

set_option relaxedAutoImplicit false
set_option autoImplicit false

/-!
# No lost wakeup

A thread that finds a monitor held puts itself on the waiter queue, unlocks the monitor and stops
only then, so that the wakeup can arrive before it has stopped; and when it gets to run again, the
monitor may have been taken by another thread, and it waits once more.

## Main definitions

* `Uthread.Waiting` — a thread is in the loop of `uthread_monitor_enter`.
* `Uthread.InHand` — a thread waits for a monitor, is about to be made ready, is on the ready
  queue or is being switched to.
* `Uthread.NoLostWakeup` — what the monitors promise about a state.

## Main results

* `Uthread.noLostWakeup_of_not_rewakes` — the promise holds in every state of a run in which no
  joiner is woken up twice.
* `Uthread.noLostWakeup_of_run` — in particular of every run in which no thread is joined.

## Implementation notes

The waiter queue a thread has joined cannot be read off the queues alone: between its enqueue and
its next test of the holder the thread is on the queue, in the hands of an exit, on the ready queue
or already running again. `Uthread.Waiting` follows it by its program point and, when it has
stopped, by its saved frame.
-/

namespace Uthread

open Runs Placement

variable {N : ℕ} {s t : State N} {a : Act N}

/-! ## Inside `uthread_monitor_enter` -/

/-- The monitor a call of `uthread_stop` waits for. -/
@[grind] def Site.waits : Site → Option Mid
  | .enter m => some m
  | .yield | .join _ | .exit => none

/-- The monitor for which the thread waits whose frame this is. -/
@[grind] def Frame.waits : Frame → Option Mid
  | .inside c => c.waits
  | .null | .fresh => none

/-- The same for the frame to which a call of `uthread_start` returns in the end. -/
@[grind] def Starter.waits : Starter → Option Mid
  | .dying _ f => f.waits
  | .exit _ => none

/-- The monitor whose waiter queue the thread has joined, at a program point in the loop of
`uthread_monitor_enter`. -/
@[grind] def Pc.waits : Pc → Option Mid
  | .enterUnlockWait m | .enterRelock m => some m
  | .stopDequeue c | .switchSpin c _ | .switchSwap c _ => c.waits
  | .switchDying _ f | .dyingLock _ f | .dyingJoiner _ f | .dyingDead _ f | .dyingUnlock _ f
  | .switchResume f => f.waits
  | .startTest r _ | .startRunable r _ | .startEnqueue r _ => r.waits
  | .user | .createEnqueue _ | .yieldEnqueue | .joinTest _ | .joinLock _ | .joinState _
  | .joinSet _ | .joinUnlock _ | .joinValue _ _ | .joinFree _ _ _ | .joinReturn _ _ _
  | .detachTest _ | .detachLock _ | .detachState _ | .detachSet _ | .detachUnlock _
  | .detachFree _ | .enterLock _ | .enterUnlock _ | .exitLock _ | .exitUnlock _ _ | .aborted _
  | .wild => none

/-- The same on the way from the enqueue to the context switch. -/
@[grind] def Pc.parks : Pc → Option Mid
  | .enterUnlockWait m => some m
  | .stopDequeue c | .switchSpin c _ | .switchSwap c _ => c.waits
  | .user | .createEnqueue _ | .yieldEnqueue | .switchDying _ _ | .dyingLock _ _
  | .dyingJoiner _ _ | .dyingDead _ _ | .dyingUnlock _ _ | .switchResume _ | .startTest _ _
  | .startRunable _ _ | .startEnqueue _ _ | .joinTest _ | .joinLock _ | .joinState _ | .joinSet _
  | .joinUnlock _ | .joinValue _ _ | .joinFree _ _ _ | .joinReturn _ _ _ | .detachTest _
  | .detachLock _ | .detachState _ | .detachSet _ | .detachUnlock _ | .detachFree _
  | .enterLock _ | .enterRelock _ | .enterUnlock _ | .exitLock _ | .exitUnlock _ _ | .aborted _
  | .wild => none

lemma Site.eq_of_waits {c : Site} {m : Mid} (h : c.waits = some m) : c = .enter m := by
  cases c <;> simp_all [Site.waits]

lemma Frame.eq_of_waits {f : Frame} {m : Mid} (h : f.waits = some m) : f = .inside (.enter m) := by
  cases f with
  | inside c => rw [Site.eq_of_waits h]
  | null | fresh => cases h

@[simp, grind =] lemma Site.waits_return (c : Site) : c.return.waits = c.waits := by
  cases c <;> rfl

@[simp, grind =] lemma Site.parks_return (c : Site) : c.return.parks = none := by
  cases c <;> rfl

@[simp, grind =] lemma Starter.parks_return (r : Starter) : r.return.parks = none := by
  cases r <;> rfl

@[simp, grind =] lemma Starter.waits_return (r : Starter) : r.return.waits = r.waits := by
  cases r <;> rfl

/-- Thread `u` has joined the waiter queue of `m`, and has not tested the holder again. -/
def Waiting (s : State N) (u : Tid) (m : Mid) : Prop :=
  InCall s u (fun pc => pc.waits = some m) (.enter m)

/-- The exit from `m` is about to put `u` on the ready queue. -/
def Pc.exits (m : Mid) (u : Tid) (pc : Pc) : Prop :=
  pc = .exitUnlock m (some u) ∨ pc = .startTest (.exit m) u ∨ pc = .startRunable (.exit m) u ∨
    pc = .startEnqueue (.exit m) u

/-- Thread `u` is on the waiter queue of `m`, in the hands of an exit from `m`, on the ready queue,
or dequeued by a processor that switches to it. -/
def InHand (s : State N) (u : Tid) (m : Mid) : Prop :=
  u ∈ (s.monitor m).waiterQueue ∨ u ∈ s.readyQueue ∨
    ∃ p, (s.proc p).pc.exits m u ∨ (s.proc p).pc.dequeued = some u

/-- **The promise of the monitors** about a state. -/
structure NoLostWakeup (s : State N) : Prop where
  /-- If threads wait for a monitor that nobody holds, some thread that is no longer among them is
  on its way to test the holder. -/
  pending : ∀ m, (s.monitor m).holder = none → (s.monitor m).waiterQueue ≠ [] →
    ∃ u, Waiting s u m ∧ u ∉ (s.monitor m).waiterQueue
  /-- A thread that is stopped for a monitor is not lost. -/
  stopped : ∀ m u, Stopped s u (.enter m) → InHand s u m

/-! ## Effects -/

section Effects

variable (h : Trans s a t) {m : Mid} {u : Tid}

include h

/-- What a step does to a monitor. -/
lemma Trans.monitor_cases (m : Mid) :
    ((t.monitor m).holder = (s.monitor m).holder ∧
      (t.monitor m).waiterQueue = (s.monitor m).waiterQueue ∧
      (s.proc a.proc).pc ≠ .enterRelock m) ∨
    ((s.monitor m).holder = none ∧ (t.monitor m).holder = some (s.proc a.proc).thread ∧
      (t.monitor m).waiterQueue = (s.monitor m).waiterQueue) ∨
    ((s.monitor m).holder ≠ none ∧ (t.monitor m).holder = (s.monitor m).holder ∧
      (t.monitor m).waiterQueue = (s.monitor m).waiterQueue ++ [(s.proc a.proc).thread] ∧
      t.proc a.proc = ⟨(s.proc a.proc).thread, .enterUnlockWait m⟩) ∨
    ((s.proc a.proc).pc = .exitLock m ∧ (s.monitor m).spinlock = false ∧
      (t.monitor m).holder = none ∧ (t.monitor m).waiterQueue = (s.monitor m).waiterQueue.tail ∧
      (t.proc a.proc).pc = .exitUnlock m (s.monitor m).waiterQueue.head?) := by
  cases h <;> grind

/-- A waiting thread goes on waiting until it tests the holder again. -/
lemma Trans.waits_next (hm : (s.proc a.proc).pc.waits = some m) :
    ((t.proc a.proc).thread = (s.proc a.proc).thread ∧ (t.proc a.proc).pc.waits = some m) ∨
    (s.proc a.proc).pc = .enterRelock m ∨
    (∃ v, (s.proc a.proc).pc = .switchSwap (.enter m) v) ∨
    ((∃ f, (s.proc a.proc).pc.frame = some f ∧ f.waits = some m) ∧
      (s.tcb (s.proc a.proc).thread).state = .nascent) ∨
    ∃ c, (s.proc a.proc).pc = .stopDequeue c ∧ s.readyQueue = [] := by
  cases h <;> grind [Site.eq_of_waits, Frame.eq_of_waits]

/-- A thread goes on in its call of `uthread_monitor_enter` until the call returns. -/
lemma Trans.enter_next (hm : (s.proc a.proc).pc.op = some (.enter m)) :
    ((t.proc a.proc).thread = (s.proc a.proc).thread ∧
      (t.proc a.proc).pc.op = some (.enter m)) ∨
    ((s.proc a.proc).pc = .enterUnlock m ∧ t.proc a.proc = ⟨(s.proc a.proc).thread, .user⟩) ∨
    (∃ v, (s.proc a.proc).pc = .switchSwap (.enter m) v) ∨
    ((∃ f, (s.proc a.proc).pc.frame = some f ∧ f.op = some (.enter m)) ∧
      (s.tcb (s.proc a.proc).thread).state = .nascent) ∨
    ∃ c, (s.proc a.proc).pc = .stopDequeue c ∧ s.readyQueue = [] := by
  cases h <;> grind [Site.eq_enter, Frame.eq_enter, Site.return, Starter.return_cases]

/-- The monitor is taken under its spinlock, and the next step of the thread unlocks it. -/
lemma Trans.enterUnlock_cases (hm : (t.proc a.proc).pc = .enterUnlock m) :
    (t.monitor m).holder = some (t.proc a.proc).thread := by
  cases h <;> grind [Site.return_cases, Starter.return_cases]

/-- A processor gets to the check of the holder by a call of `uthread_monitor_exit`. -/
lemma Trans.exitLock_cases (hm : (t.proc a.proc).pc = .exitLock m) :
    a.begins = some (.exit m) := by
  cases h <;> grind [Site.return_cases, Starter.return_cases]

/-- The check fails when the holder is another thread. -/
lemma Trans.aborted_cases (hm : (t.proc a.proc).pc = .aborted .holder) :
    ∃ m, (s.proc a.proc).pc = .exitLock m ∧
      (s.monitor m).holder ≠ some (s.proc a.proc).thread := by
  cases h <;> grind [Site.return_cases, Starter.return_cases]

/-- A thread on the ready queue is there until it is dequeued. -/
lemma Trans.readyQueue_cases (hu : u ∈ s.readyQueue) : u ∈ t.readyQueue ∨
    (t.proc a.proc).pc.dequeued = some u ∨
    (t.proc a.proc).thread = u ∧ (t.proc a.proc).pc.parks = none := by
  cases h <;> grind [Pc.dequeued]

/-- An exit from `m` puts the thread on the ready queue that it has taken off the waiter queue. -/
lemma Trans.exits_cases (hu : (s.proc a.proc).pc.exits m u) :
    (t.proc a.proc).pc.exits m u ∨ u ∈ t.readyQueue := by
  cases h <;> grind [Pc.exits]

/-- A processor that has dequeued a thread goes on to switch to it. -/
lemma Trans.dequeued_cases (hu : (s.proc a.proc).pc.dequeued = some u) :
    (t.proc a.proc).pc.dequeued = some u ∨
    (t.proc a.proc).thread = u ∧ (t.proc a.proc).pc.parks = none := by
  cases h <;> grind [Pc.dequeued]

/-- A thread joins the waiter queue before it goes on to stop. -/
lemma Trans.parks_cases (hm : (t.proc a.proc).pc.parks = some m) :
    (t.proc a.proc).thread = (s.proc a.proc).thread ∧ (s.proc a.proc).pc.parks = some m ∨
    (t.proc a.proc).thread ∈ (t.monitor m).waiterQueue := by
  cases h <;> grind

end Effects

/-- **A waiting thread goes on waiting** until it tests the holder again. -/
lemma Waiting.step {m : Mid} {u : Tid} (ha : Allocated s) (ho : Owned (fun _ => True) s)
    (hi : Idle s) (hs : Saved s) (ht : Trans s a t) (h : Waiting s u m) : Waiting t u m ∨
      (s.proc a.proc).thread = u ∧ (s.proc a.proc).pc = .enterRelock m := by
  refine InCall.step ha ho trivial ht (fun hu hm => ?_) (fun _ => rfl) h
  subst hu
  rcases ht.waits_next hm with hm | hpc | hpc | ⟨⟨f, hf, hfm⟩, hn⟩ | ⟨c, hpc, hnil⟩
  · exact .inl hm
  · exact .inr (.inr ⟨rfl, hpc⟩)
  · exact .inr (.inl hpc)
  · rw [Frame.eq_of_waits hfm] at hf
    exact absurd hn (hs.frame a.proc _ hf)
  · exact absurd hnil (hi.readyQueue_ne_nil hpc)

/-- **A thread is followed through `uthread_monitor_enter`** until the call returns. -/
lemma InCall.enter_step {G : Tid → Prop} {m : Mid} {u : Tid} (ha : Allocated s) (ho : Owned G s)
    (hu : G u) (hi : Idle s) (hs : Saved s) (ht : Trans s a t)
    (h : InCall s u (fun pc => pc.op = some (.enter m)) (.enter m)) :
    InCall t u (fun pc => pc.op = some (.enter m)) (.enter m) ∨
      (s.proc a.proc).pc = .enterUnlock m ∧ t.proc a.proc = ⟨u, .user⟩ := by
  refine InCall.step ha ho hu ht (fun hu hm => ?_) (fun _ => rfl) h
  subst hu
  rcases ht.enter_next hm with hm | hpc | hpc | ⟨⟨f, hf, hfm⟩, hn⟩ | ⟨c, hpc, hnil⟩
  · exact .inl hm
  · exact .inr (.inr hpc)
  · exact .inr (.inl hpc)
  · rw [Frame.eq_enter hfm] at hf
    exact absurd hn (hs.frame a.proc _ hf)
  · exact absurd hnil (hi.readyQueue_ne_nil hpc)

/-! ## In hand -/

/-- Thread `u` has joined the waiter queue of `m` and is on its way to `uthread_switch`, or has
stopped there. -/
def Parked (s : State N) (u : Tid) (m : Mid) : Prop :=
  InCall s u (fun pc => pc.parks = some m) (.enter m)

section Parked

variable {m : Mid} {u : Tid} (ht : Trans s a t)

include ht

/-- What is in hand stays in hand, until a processor executes it again. -/
lemma InHand.step (h : InHand s u m) : InHand t u m ∨
    (t.proc a.proc).thread = u ∧ (t.proc a.proc).pc.parks = none := by
  rcases h with h | h | ⟨p, h⟩
  · rcases ht.monitor_cases m with ⟨-, e, -⟩ | ⟨-, -, e⟩ | ⟨-, -, e, -⟩ | ⟨-, -, -, e, hpc⟩
    · exact .inl (.inl (e ▸ h))
    · exact .inl (.inl (e ▸ h))
    · exact .inl (.inl (by simp [e, h]))
    · cases hq : (s.monitor m).waiterQueue with
      | nil => simp [hq] at h
      | cons v rest =>
        rw [hq] at h e hpc
        rcases List.mem_cons.mp h with rfl | h
        · exact .inl (.inr (.inr ⟨a.proc, .inl (.inl hpc)⟩))
        · exact .inl (.inl (e ▸ h))
  · rcases ht.readyQueue_cases h with h | h | h
    · exact .inl (.inr (.inl h))
    · exact .inl (.inr (.inr ⟨a.proc, .inr h⟩))
    · exact .inr h
  · by_cases hp : p = a.proc
    · subst hp
      rcases h with h | h
      · rcases ht.exits_cases h with h | h
        · exact .inl (.inr (.inr ⟨a.proc, .inl h⟩))
        · exact .inl (.inr (.inl h))
      · rcases ht.dequeued_cases h with h | h
        · exact .inl (.inr (.inr ⟨a.proc, .inr h⟩))
        · exact .inr h
    · rw [← ht.proc_of_ne hp] at h
      exact .inl (.inr (.inr ⟨p, h⟩))

/-- A thread parks when it joins the waiter queue. -/
lemma parked_cases (h : Parked t u m) : Parked s u m ∨ u ∈ (t.monitor m).waiterQueue := by
  rcases h with ⟨p, rfl, hm⟩ | ⟨hoff, hsp⟩
  · by_cases hp : p = a.proc
    · subst hp
      rcases ht.parks_cases hm with ⟨e, hm⟩ | h
      · exact .inl (.inl ⟨a.proc, e.symm, hm⟩)
      · exact .inr h
    · rw [ht.proc_of_ne hp] at hm ⊢
      exact .inl (.inl ⟨p, rfl, hm⟩)
  · by_cases hu : ∃ p, (s.proc p).thread = u
    · -- the thread has just been switched away from
      obtain ⟨p, rfl⟩ := hu
      have hp : p = a.proc := by
        by_contra hp
        exact hoff p (by rw [ht.proc_of_ne hp])
      subst hp
      rcases ht.thread with e | ⟨c, hpc⟩
      · exact absurd e (hoff _)
      · rw [ht.savedSp_of_switchSwap hpc] at hsp
        exact .inl (.inl ⟨a.proc, rfl, by rw [hpc, Frame.inside.inj hsp]; rfl⟩)
    · push Not at hu
      rcases ht.savedSp_cases u with e | ⟨-, e⟩ | ⟨e, -⟩
      · exact .inl (.inr ⟨hu, e ▸ hsp⟩)
      · simp [e] at hsp
      · exact absurd e.symm (hu _)

end Parked

/-! ## The promise over whole runs -/

/-- The promise, with what it takes to keep it. -/
structure Promise (s : State N) : Prop where
  inv : Inv (fun _ => True) s
  saved : Saved s
  /-- A thread on the waiter queue is waiting. -/
  waiting : ∀ m, ∀ u ∈ (s.monitor m).waiterQueue, Waiting s u m
  pending : ∀ m, (s.monitor m).holder = none → (s.monitor m).waiterQueue ≠ [] →
    ∃ u, Waiting s u m ∧ u ∉ (s.monitor m).waiterQueue
  parked : ∀ m u, Parked s u m → InHand s u m

namespace Promise

variable (h : Promise s) (ht : Trans s a t)

include h ht

/-- A thread on the waiter queue is not about to test the holder. -/
lemma waiting_of_mem {m : Mid} {u : Tid} (hu : u ∈ (s.monitor m).waiterQueue) :
    Waiting t u m := by
  refine ((h.waiting m u hu).step h.inv.allocated h.inv.owned h.inv.idle h.saved ht).resolve_right
    fun ⟨e, hpc⟩ => ?_
  have hp : u ∈ s.contents (.proc a.proc) := by
    simp [State.contents, Proc.carries, hpc, Pc.carries, e]
  cases (h.inv.owned.exclusive u trivial).unique (.waiter m) (.proc a.proc) hu hp

lemma waiting_step (m : Mid) (u : Tid) (hu : u ∈ (t.monitor m).waiterQueue) : Waiting t u m := by
  rcases ht.monitor_cases m with ⟨-, e, -⟩ | ⟨-, -, e⟩ | ⟨-, -, e, hp⟩ | ⟨-, -, -, e, -⟩
  · exact h.waiting_of_mem ht (e ▸ hu)
  · exact h.waiting_of_mem ht (e ▸ hu)
  · rw [e, List.mem_append, List.mem_singleton] at hu
    rcases hu with hu | rfl
    · exact h.waiting_of_mem ht hu
    · exact .inl ⟨a.proc, by rw [hp], by rw [hp]; rfl⟩
  · exact h.waiting_of_mem ht (List.mem_of_mem_tail (e ▸ hu))

/-- The exit that frees the monitor takes the first thread off the queue, and no thread takes the
monitor back but by testing the holder. -/
lemma pending_step (m : Mid) (hh : (t.monitor m).holder = none)
    (hq : (t.monitor m).waiterQueue ≠ []) :
    ∃ u, Waiting t u m ∧ u ∉ (t.monitor m).waiterQueue := by
  rcases ht.monitor_cases m with ⟨e, e', hpc⟩ | ⟨-, e, -⟩ | ⟨e, e', -⟩ | ⟨-, -, -, e, -⟩
  · rw [e] at hh
    rw [e'] at hq ⊢
    obtain ⟨u, hu, hn⟩ := h.pending m hh hq
    exact ⟨u, (hu.step h.inv.allocated h.inv.owned h.inv.idle h.saved ht).resolve_right
      fun ⟨_, e⟩ => hpc e, hn⟩
  · simp [e] at hh
  · exact absurd (e' ▸ hh) e
  · cases hw : (s.monitor m).waiterQueue with
    | nil => simp [e, hw] at hq
    | cons u rest =>
      refine ⟨u, h.waiting_of_mem ht (by simp [hw]), ?_⟩
      have hex := (h.inv.owned.exclusive u trivial).count_le (.waiter m)
      rw [e, hw, List.tail_cons, ← List.count_eq_zero]
      simpa [State.contents, hw] using hex

lemma parked_step (hi : Inv (fun _ => True) t) (m : Mid) (u : Tid) (hu : Parked t u m) :
    InHand t u m := by
  rcases parked_cases ht hu with hs | hq
  · refine ((h.parked m u hs).step ht).resolve_right fun ⟨e, hpc⟩ => ?_
    rcases hu with ⟨p, e', hm⟩ | ⟨hoff, -⟩
    · obtain rfl := hi.owned.alone p a.proc trivial (e'.trans e.symm)
      simp [hpc] at hm
    · exact hoff _ e
  · exact .inl hq

end Promise

/-- **The promise is kept** by every step that wakes up no joiner twice. -/
lemma Promise.step (h : Promise s) (hC : ¬ Rewakes (fun _ => True) s a)
    (ht : Uthread.step s a = some t) : Promise t :=
  have hi := h.inv.step (fun _ _ => trivial) hC ht
  have ht := trans_of_step ht
  { inv := hi
    saved := h.saved.step h.inv.allocated ht
    waiting := h.waiting_step ht
    pending := h.pending_step ht
    parked := h.parked_step ht hi }

/-- The promise holds at the start: nobody waits for a monitor. -/
lemma promise_init (hN : 0 < N) : Promise (init N) where
  inv := inv_init hN _
  saved := saved_init
  waiting m u h := by simp [init, uthreadMonitorCreate] at h
  pending m _ h := by simp [init, uthreadMonitorCreate] at h
  parked m u h := by
    rcases h with ⟨p, -, hp⟩ | ⟨-, hsp⟩
    · simp [init, Pc.parks] at hp
    · simp only [init, initTcb] at hsp
      grind [uthreadNewThread, uthreadAlloc]

/-- **No lost wakeup** in a run in which no joiner is woken up twice. -/
theorem noLostWakeup_of_not_rewakes (hN : 0 < N) (acts : List (Act N))
    (h : AllSteps step (fun s a => ¬ Rewakes (fun _ => True) s a) (init N) acts) :
    Throughout step NoLostWakeup (init N) acts := by
  intro pre suf e t ht
  have hp : Promise t :=
    throughout_of_invariant (fun _ _ _ hi hC ht => hi.step hC ht) (promise_init hN) h pre suf e t ht
  exact ⟨hp.pending, fun m u hu => hp.parked m u (.inr hu)⟩

/-! ## Runs without joins -/

/-- Without joins there is no joiner to wake up. -/
lemma not_rewakes_of_run {acts : List (Act N)} (h : ∀ a ∈ acts, a.joins = none) :
    AllSteps step (fun s a => ¬ Rewakes (fun _ => True) s a) (init N) acts := by
  refine allSteps_of_prefix ?_
  rintro pre a suf rfl s hs
  refine Calls.not_rewakes (P := fun _ op => ∀ v, op ≠ .join v) ?_ fun _ v _ h => h v rfl
  refine induct (motive := fun as s => (∀ a ∈ as, a.joins = none) → Calls _ s)
    (fun _ => calls_init) ?_ hs fun a ha => h a (by simp [ha])
  intro as a t u _ ih ht ha
  refine (ih fun b hb => ha b (by simp [hb])).step (trans_of_step ht) ?_
  rintro _ hb v rfl
  have := ha a (by simp)
  cases a <;> simp_all [Act.begins, Act.joins]

/-- **No lost wakeup.** In every run in which no thread is joined, whatever else the threads do,
the monitors keep their promise in every state. -/
theorem noLostWakeup_of_run (hN : 0 < N) (acts : List (Act N)) (h : ∀ a ∈ acts, a.joins = none) :
    Throughout step NoLostWakeup (init N) acts :=
  noLostWakeup_of_not_rewakes hN acts (not_rewakes_of_run h)

/-- On one processor thread `0` enters monitor `0` and yields to threads `2` and `3`, which find
the monitor held and stop; thread `0` exits the monitor and thread `2` is put on the ready queue. -/
def handOver : List (Act 1) :=
  [.call 0 .create, .run 0, .call 0 .create, .run 0, .call 0 (.enter 0)] ++ runs 0 2 ++
  [.call 0 .yield] ++ runs 0 6 ++ [.call 0 .yield] ++ runs 0 6 ++ [.call 0 (.enter 0)] ++
  runs 0 7 ++ [.call 0 (.enter 0)] ++ runs 0 7 ++ [.call 0 (.exit 0)] ++ runs 0 5

theorem noLostWakeup_handOver :
    (run step (init 1) handOver).map (fun s => ((s.monitor 0).holder, (s.monitor 0).waiterQueue,
      s.readyQueue)) = some (none, [3], [1, 2]) ∧
      Throughout step NoLostWakeup (init 1) handOver :=
  ⟨by decide +kernel, noLostWakeup_of_run (by decide) handOver (by decide)⟩

end Uthread
