import Cs213.Uthread.Exits

set_option relaxedAutoImplicit false
set_option autoImplicit false

/-!
# Thread states on one processor

The field `state` of a thread is written by the thread itself, by the thread that is switched to
after it, and by the threads that wake it up; the queues are changed elsewhere. On one processor
the field and the queues agree whenever the code of the program is executed.

## Main definitions

* `Uthread.Agrees` — the states of the threads say where they are.
* `Uthread.Pc.Noted` — what is known at a program point about what the processor is to write next.
* `Uthread.Solo` — the invariant.

## Main results

* `Uthread.statesAgree_of_run` — the states agree with the places in every run on one processor.

## Implementation notes

A thread that has been freed keeps its block here, and a call on it finds the block as it was. A
detached thread is freed while it is `TS_DYING`.
-/

namespace Uthread

open Runs Placement

variable {N : ℕ}

/-! ## The promise -/

/-- The thread is on the ready queue, or will be: it is `TS_NASCENT` or `TS_RUNABLE`. -/
@[grind] def ThreadState.Ready (st : ThreadState) : Prop := st = .nascent ∨ st = .runable

/-- The thread `t` is the joiner of `v`, which is not `TS_DEAD`. -/
def State.Joins (s : State N) (t v : Tid) : Prop :=
  (s.tcb v).joiner = .thread t ∧ (s.tcb v).state ≠ .dead

/-- **The states of the threads say where they are.** -/
structure Agrees (s : State 1) : Prop where
  /-- Exactly the current thread is `TS_RUNNING`. -/
  running : ∀ t < s.fresh, (s.tcb t).state = .running ↔ t = (s.proc 0).thread
  ready : ∀ t ∈ s.readyQueue, (s.tcb t).state.Ready
  queued : ∀ t < s.fresh, (s.tcb t).state.Ready → s.readyQueue.count t = 1
  /-- A thread that is `TS_BLOCKED` is not on the ready queue. -/
  stopped : ∀ t < s.fresh, (s.tcb t).state = .blocked → t ∉ s.readyQueue
  /-- It is once on exactly one waiter queue and joins no thread, or is on none and joins one. -/
  blocked : ∀ t < s.fresh, (s.tcb t).state = .blocked →
    (∃ m, (s.monitor m).waiterQueue.count t = 1 ∧
      (∀ k, t ∈ (s.monitor k).waiterQueue → k = m) ∧ ∀ v, ¬ s.Joins t v) ∨
    (∀ m, t ∉ (s.monitor m).waiterQueue) ∧ ∃! v, s.Joins t v
  /-- No thread is `TS_DYING`, unless it has been freed. -/
  dying : ∀ t < s.fresh, (s.tcb t).freed = 0 → (s.tcb t).state ≠ .dying

/-- **The promise**: the states agree with the places whenever the code of the program is executed,
and the spin loop of `uthread_switch` ends with its first test. -/
structure StatesAgree (s : State 1) : Prop where
  user : (s.proc 0).pc = .user → Agrees s
  noSpin : ∀ c t, (s.proc 0).pc = .switchSpin c t → (s.tcb t).state ≠ .running

/-! ## What is known at a program point -/

/-- Where the caller of `uthread_stop` has put itself before the call. -/
@[grind] def Site.Queued (s : State N) (self : Tid) : Site → Prop
  | .yield => self ∈ s.readyQueue
  | .join v => (s.tcb v).joiner = .thread self ∧ (s.tcb v).state ≠ .dead
  | .enter m => self ∈ (s.monitor m).waiterQueue
  | .exit => True

/-- What is known about the state, on one processor, when it gets to a program point. -/
@[grind] def Pc.Noted (s : State N) (self : Tid) : Pc → Prop
  | .createEnqueue t => (s.tcb t).state = .nascent
  | .stopDequeue c => c.Queued s self
  | .switchSpin c t | .switchSwap c t => t ≠ self ∧ c.Queued s self
  | .dyingLock t _ => (s.tcb t).state = .dying
  | .dyingUnlock t _ => (s.tcb t).state = .dead
  | .startEnqueue _ t => (s.tcb t).state = .runable
  | .joinLock t | .joinState t | .detachLock t | .detachState t | .detachSet t =>
    (s.tcb t).joiner = .null
  | .joinSet t => (s.tcb t).joiner = .null ∧ (s.tcb t).state ≠ .dead
  | .joinUnlock t => (Site.join t).Queued s self
  | .enterUnlockWait m => (Site.enter m).Queued s self
  | .user | .yieldEnqueue | .switchDying _ _ | .dyingJoiner _ _ | .dyingDead _ _
  | .switchResume _ | .startTest _ _ | .startRunable _ _ | .joinTest _ | .joinValue _ _
  | .joinFree _ _ _ | .joinReturn _ _ _ | .detachTest _ | .detachUnlock _ | .detachFree _
  | .enterLock _ | .enterRelock _ | .enterUnlock _ | .exitLock _ | .exitUnlock _ _ | .aborted _
  | .wild => True

/-- The thread that is about to be put on the ready queue, or has just been taken off it. -/
@[grind] def Pc.awaits : Pc → Option Tid
  | .createEnqueue t | .startEnqueue _ t | .switchSpin _ t | .switchSwap _ t => some t
  | .user | .yieldEnqueue | .stopDequeue _ | .switchDying _ _ | .dyingLock _ _
  | .dyingJoiner _ _ | .dyingDead _ _ | .dyingUnlock _ _ | .switchResume _ | .startTest _ _
  | .startRunable _ _ | .joinTest _ | .joinLock _ | .joinState _ | .joinSet _ | .joinUnlock _
  | .joinValue _ _ | .joinFree _ _ _ | .joinReturn _ _ _ | .detachTest _ | .detachLock _
  | .detachState _ | .detachSet _ | .detachUnlock _ | .detachFree _ | .enterLock _
  | .enterRelock _ | .enterUnlockWait _ | .enterUnlock _ | .exitLock _ | .exitUnlock _ _
  | .aborted _ | .wild => none

/-- The thread that has been taken out of the place where it waited, and is still blocked. -/
@[grind] def Pc.started : Pc → Option Tid
  | .startTest _ t | .startRunable _ t => some t
  | .exitUnlock _ w => w
  | .user | .createEnqueue _ | .yieldEnqueue | .stopDequeue _ | .switchSpin _ _ | .switchSwap _ _
  | .switchDying _ _ | .dyingLock _ _ | .dyingJoiner _ _ | .dyingDead _ _ | .dyingUnlock _ _
  | .switchResume _ | .startEnqueue _ _ | .joinTest _ | .joinLock _ | .joinState _ | .joinSet _
  | .joinUnlock _ | .joinValue _ _ | .joinFree _ _ _ | .joinReturn _ _ _ | .detachTest _
  | .detachLock _ | .detachState _ | .detachSet _ | .detachUnlock _ | .detachFree _
  | .enterLock _ | .enterRelock _ | .enterUnlockWait _ | .enterUnlock _ | .exitLock _
  | .aborted _ | .wild => none

section Return

variable (s : State N) (self : Tid) (c : Site) (r : Starter)

@[simp, grind =] lemma Site.noted_return : c.return.Noted s self = True := by cases c <;> rfl
@[simp, grind =] lemma Site.awaits_return : c.return.awaits = none := by cases c <;> rfl
@[simp, grind =] lemma Site.started_return : c.return.started = none := by cases c <;> rfl
@[simp, grind =] lemma Starter.noted_return : r.return.Noted s self = True := by cases r <;> rfl
@[simp, grind =] lemma Starter.awaits_return : r.return.awaits = none := by cases r <;> rfl
@[simp, grind =] lemma Starter.started_return : r.return.started = none := by cases r <;> rfl

end Return

@[simp, grind =] lemma Site.queued_goto (s : State N) (p : Fin N) (pc : Pc) (self : Tid)
    (c : Site) : c.Queued (s.goto p pc) self = c.Queued s self := by
  cases c <;> rfl

section Stopping

variable (c : Site)

/-- A thread that stops is neither running nor dead. -/
@[simp, grind =] lemma Site.stoppingThreadState_ne :
    (c.stoppingThreadState = .running) = False := by
  cases c <;> simp [Site.stoppingThreadState]

@[simp, grind =] lemma Site.stoppingThreadState_ne_dead :
    (c.stoppingThreadState = .dead) = False := by
  cases c <;> simp [Site.stoppingThreadState]

/-- It is ready if it yields. -/
@[simp, grind =] lemma Site.ready_iff : c.stoppingThreadState.Ready ↔ c = .yield := by
  cases c <;> simp [Site.stoppingThreadState, ThreadState.Ready]

/-- It is dying if it exits. -/
@[simp, grind =] lemma Site.dying_iff : c.stoppingThreadState = .dying ↔ c = .exit := by
  cases c <;> simp [Site.stoppingThreadState]

/-- It is blocked if it joins a thread or enters a monitor. -/
@[simp, grind =] lemma Site.blocked_iff :
    c.stoppingThreadState = .blocked ↔ (∃ v, c = .join v) ∨ ∃ m, c = .enter m := by
  cases c <;> simp [Site.stoppingThreadState]

end Stopping

/-! ## The invariant -/

/-- **The states and the places of threads on one processor**, at every program point. -/
structure Solo (s : State 1) : Prop where
  inv : Inv (fun _ => True) s
  noted : ∀ p, (s.proc p).pc.Noted s (s.proc p).thread
  /-- A thread that is `TS_RUNNING` is executed, and not about to be resumed. -/
  running : ∀ p t, (s.tcb t).state = .running →
    t = (s.proc p).thread ∧ (s.proc p).pc.frame = none
  /-- The ready queue has threads that are ready, and the caller of `uthread_yield`. -/
  ready : ∀ p, ∀ t ∈ s.readyQueue, (s.tcb t).state.Ready ∨
    t = (s.proc p).thread ∧ (s.proc p).pc.site = some .yield
  /-- A thread that is ready is on the ready queue, on the way to it, or about to be resumed. -/
  queued : ∀ p, ∀ t < s.fresh, (s.tcb t).state.Ready → t ∈ s.readyQueue ∨
    (s.proc p).pc.awaits = some t ∨ t = (s.proc p).thread ∧ (s.proc p).pc.frame ≠ none
  /-- A thread that is blocked is where it waits, or is just being started. -/
  blocked : ∀ p t, (s.tcb t).state = .blocked → (∃ m, t ∈ (s.monitor m).waiterQueue) ∨
    (∃ v, t ∈ s.slot v) ∨ (s.proc p).pc.started = some t
  /-- A thread that is dying has been freed, or its exit is being completed. -/
  dying : ∀ p t, (s.tcb t).state = .dying → (s.tcb t).freed ≠ 0 ∨ (s.proc p).pc.leaves = some t

namespace Solo

variable {s t : State 1} {a : Act 1} (h : Solo s) (ht : Trans s a t)

include h

/-- The exit that is completed is that of a dying thread. -/
lemma not_rewakes : ¬ Rewakes (fun _ => True) s a := by
  rintro ⟨v, hv, hd, -⟩
  have hn := h.noted a.proc
  cases hpc : (s.proc a.proc).pc <;> simp_all [Pc.locksDying, Pc.Noted]

/-- What the processor carries is not on the ready queue. -/
lemma not_mem_ready {p : Fin 1} {v : Tid} (hv : v ∈ (s.proc p).carries) : v ∉ s.readyQueue := by
  intro hr
  cases (h.inv.owned.exclusive v trivial).unique (.proc p) .ready hv hr

/-- A thread that is being started is not running. -/
lemma started_ne {p : Fin 1} {v : Tid} (hv : (s.proc p).pc.started = some v) :
    (s.tcb v).state ≠ .running := by
  intro hrun
  obtain ⟨rfl, hf⟩ := h.running p v hrun
  have hcount := (h.inv.owned.exclusive (s.proc p).thread trivial).count_le (.proc p)
  simp only [State.contents, Proc.carries] at hcount
  cases hpc : (s.proc p).pc <;> simp_all [Pc.started, Pc.carries]

/-- A thread is on the ready queue once at most. -/
lemma nodup_ready : s.readyQueue.Nodup :=
  List.nodup_iff_count_le_one.mpr fun v => (h.inv.owned.exclusive v trivial).count_le .ready

include ht

lemma noted_step (p : Fin 1) : (t.proc p).pc.Noted t (t.proc p).thread := by
  obtain rfl : p = a.proc := Subsingleton.elim _ _
  have hn := h.noted a.proc
  have hs := fun v => h.started_ne (p := a.proc) (v := v)
  clear h
  cases ht with
  | yieldEnqueue p self hp => simp [Pc.Noted, Site.Queued, hp]
  | dequeue p self c u rest hp hr hu =>
    -- the caller is behind the thread that is taken off the queue
    have hq : c.Queued s self := by simpa [hp, Pc.Noted] using hn
    cases c <;> simp_all [Pc.Noted, Site.Queued, Ne.symm hu]
  | _ => grind [uthreadNewThread, uthreadAlloc]

lemma running_step (p : Fin 1) (v : Tid) (hv : (t.tcb v).state = .running) :
    v = (t.proc p).thread ∧ (t.proc p).pc.frame = none := by
  obtain rfl : p = a.proc := Subsingleton.elim _ _
  have hr := h.running a.proc
  clear h
  cases ht <;> grind [uthreadNewThread, uthreadAlloc]

lemma ready_step (p : Fin 1) (v : Tid) (hv : v ∈ t.readyQueue) : (t.tcb v).state.Ready ∨
    v = (t.proc p).thread ∧ (t.proc p).pc.site = some .yield := by
  obtain rfl : p = a.proc := Subsingleton.elim _ _
  have hn := h.noted a.proc
  have hr := h.ready a.proc v
  have hx := h.not_mem_ready (p := a.proc) (v := v)
  have hrun := h.inv.owned.running a.proc trivial
  have hgone := fun hv => h.inv.owned.gone v hv .ready
  have hreap := h.inv.owned.reaps a.proc v
  have hfresh := h.inv.allocated.ready v
  have hnodup := h.nodup_ready
  clear h
  cases ht <;> grind [uthreadNewThread, uthreadAlloc]

lemma queued_step (p : Fin 1) (v : Tid) (hlt : v < t.fresh) (hv : (t.tcb v).state.Ready) :
    v ∈ t.readyQueue ∨ (t.proc p).pc.awaits = some v ∨
      v = (t.proc p).thread ∧ (t.proc p).pc.frame ≠ none := by
  obtain rfl : p = a.proc := Subsingleton.elim _ _
  have hn := h.noted a.proc
  have hq := h.queued a.proc v
  have hrun := h.inv.owned.running a.proc trivial
  clear h
  cases ht <;> grind [uthreadNewThread, uthreadAlloc]

lemma dying_step (p : Fin 1) (v : Tid) (hv : (t.tcb v).state = .dying) :
    (t.tcb v).freed ≠ 0 ∨ (t.proc p).pc.leaves = some v := by
  obtain rfl : p = a.proc := Subsingleton.elim _ _
  have hn := h.noted a.proc
  have hd := h.dying a.proc v
  clear h
  cases ht <;> grind [uthreadNewThread, uthreadAlloc]

/-- A thread stays the joiner of another one until it is started. -/
lemma slot_step {v w : Tid} (hw : v ∈ s.slot w) :
    v ∈ t.slot w ∨ (t.proc a.proc).pc.started = some v := by
  obtain ⟨hj, hd, hwakes⟩ := mem_slot.mp hw
  have hwakes := hwakes a.proc
  have hn := h.noted a.proc
  have hunused := h.inv.allocated.unused w
  have hp : (∀ p, (t.proc p).pc.wakes ≠ some w) ↔ (t.proc a.proc).pc.wakes ≠ some w :=
    ⟨fun hp => hp a.proc, fun hp p => Subsingleton.elim a.proc p ▸ hp⟩
  rw [mem_slot, hp]
  clear h hp
  cases ht <;> grind [uthreadNewThread, uthreadAlloc]

omit h in
/-- A thread stays on a waiter queue until it is started. -/
lemma waiter_step {v : Tid} {m : Mid} (hm : v ∈ (s.monitor m).waiterQueue) :
    v ∈ (t.monitor m).waiterQueue ∨ (t.proc a.proc).pc.started = some v := by
  cases ht with
  | exitTake p self k hp hl hh =>
    by_cases hk : m = k
    · subst hk
      cases hq : (s.monitor m).waiterQueue with
      | nil => simp [hq] at hm
      | cons w rest =>
        rw [hq] at hm
        rcases List.mem_cons.mp hm with rfl | hm
        · exact .inr (by simp [Pc.started])
        · exact .inl (by simpa using hm)
    · exact .inl (by simpa [hk] using hm)
  | _ => grind

/-- A thread that is being started is blocked until it is on its way to the ready queue. -/
lemma started_step {v : Tid} (hs : (s.proc a.proc).pc.started = some v)
    (hv : (t.tcb v).state = .blocked) : (t.proc a.proc).pc.started = some v := by
  have hne := h.started_ne hs
  clear h
  cases ht <;> grind [uthreadNewThread, uthreadAlloc]

lemma blocked_step (p : Fin 1) (v : Tid) (hv : (t.tcb v).state = .blocked) :
    (∃ m, v ∈ (t.monitor m).waiterQueue) ∨ (∃ w, v ∈ t.slot w) ∨
      (t.proc p).pc.started = some v := by
  obtain rfl : p = a.proc := Subsingleton.elim _ _
  rcases ht.state_cases v with e | ⟨-, e⟩ | ⟨rfl, c, u, hpc, e⟩ | ⟨-, -, e⟩ | ⟨-, e⟩ | ⟨-, e⟩
  · rw [e] at hv
    rcases h.blocked a.proc v hv with ⟨m, hm⟩ | ⟨w, hw⟩ | hs
    · exact (waiter_step ht hm).imp (fun hm => ⟨m, hm⟩) .inr
    · exact .inr ((h.slot_step ht hw).imp_left fun hw => ⟨w, hw⟩)
    · exact .inr (.inr (h.started_step ht hs (e.trans hv)))
  · simp [e] at hv
  · -- the context switch in `uthread_join` or `uthread_monitor_enter`
    have hn := h.noted a.proc
    rw [hpc] at hn
    rw [e, Site.blocked_iff] at hv
    rcases hv with ⟨w, rfl⟩ | ⟨m, rfl⟩
    · have hwakes : ∀ q, (s.proc q).pc.wakes ≠ some w := by
        intro q
        rw [Subsingleton.elim q a.proc, hpc]
        simp [Pc.wakes]
      have hslot : (s.proc a.proc).thread ∈ s.slot w := mem_slot.mpr ⟨hn.2.1, hn.2.2, hwakes⟩
      exact .inr ((h.slot_step ht hslot).imp_left fun hw => ⟨w, hw⟩)
    · exact (waiter_step ht hn.2).imp (fun hm => ⟨m, hm⟩) .inr
  · simp [e] at hv
  · simp [e] at hv
  · simp [e] at hv

omit ht in
/-- **The invariant is kept** by every step. -/
theorem step (hst : Uthread.step s a = some t) : Solo t :=
  have ht := trans_of_step hst
  { inv := h.inv.step (fun _ _ => trivial) h.not_rewakes hst
    noted := h.noted_step ht
    running := h.running_step ht
    ready := h.ready_step ht
    queued := h.queued_step ht
    blocked := h.blocked_step ht
    dying := h.dying_step ht }

end Solo

/-- **The invariant holds at the start**: the initial thread runs, and thread `1` is on the ready
queue. -/
lemma solo_init : Solo (init 1) where
  inv := inv_init (by decide) _
  noted p := by simp [init, Pc.Noted]
  running p v hv := by
    simp only [init, initTcb] at hv ⊢
    grind [uthreadNewThread, uthreadAlloc]
  ready p v hv := by
    simp only [init, List.mem_singleton] at hv
    subst hv
    exact .inl (.inl rfl)
  queued p v hlt hv := by
    simp only [init, initTcb] at hlt hv ⊢
    grind [uthreadNewThread, uthreadAlloc]
  blocked p v hv := by
    simp only [init, initTcb] at hv
    grind [uthreadNewThread, uthreadAlloc]
  dying p v hv := by
    simp only [init, initTcb] at hv
    grind [uthreadNewThread, uthreadAlloc]

/-! ## The promise is kept -/

namespace Solo

variable {s : State 1} (h : Solo s)

include h

omit h in
/-- No exit has picked up a joiner when the code of the program is executed. -/
lemma joins_iff (hpc : (s.proc 0).pc = .user) {v w : Tid} : s.Joins v w ↔ v ∈ s.slot w := by
  rw [State.Joins, mem_slot]
  have hw : ∀ p, (s.proc p).pc.wakes ≠ some w := by
    intro p
    rw [Subsingleton.elim p 0, hpc]
    simp [Pc.wakes]
  simp [hw]

/-- A blocked thread is where it waits, and nowhere else. -/
lemma agrees_blocked (hpc : (s.proc 0).pc = .user) {v : Tid} (hv : (s.tcb v).state = .blocked) :
    (∃ m, (s.monitor m).waiterQueue.count v = 1 ∧
      (∀ k, v ∈ (s.monitor k).waiterQueue → k = m) ∧ ∀ w, ¬ s.Joins v w) ∨
    (∀ m, v ∉ (s.monitor m).waiterQueue) ∧ ∃! w, s.Joins v w := by
  have hex := h.inv.owned.exclusive v trivial
  simp only [joins_iff hpc]
  rcases h.blocked 0 v hv with ⟨m, hm⟩ | ⟨w, hw⟩ | hs
  · refine .inl ⟨m, ?_, fun k hk => ?_, fun w hw => ?_⟩
    · have hle := hex.count_le (.waiter m)
      have hpos : 0 < (s.monitor m).waiterQueue.count v := List.count_pos_iff.mpr hm
      exact Nat.le_antisymm hle hpos
    · cases hex.unique (.waiter k) (.waiter m) hk hm
      rfl
    · cases hex.unique (.waiter m) (.slot w) hm hw
  · refine .inr ⟨fun m hm => ?_, w, hw, fun w' hw' => ?_⟩
    · cases hex.unique (.waiter m) (.slot w) hm hw
    · cases hex.unique (.slot w') (.slot w) hw' hw
      rfl
  · rw [hpc] at hs
    cases hs

/-- When the code of the program is executed, the states of the threads say where they are. -/
theorem agrees (hpc : (s.proc 0).pc = .user) : Agrees s where
  running v _ := by
    constructor
    · intro hv
      exact (h.running 0 v hv).1
    · rintro rfl
      exact h.inv.owned.running 0 trivial (by simp [hpc, Pc.frame])
  ready v hv := by
    refine (h.ready 0 v hv).resolve_right fun hy => ?_
    simp [hpc, Pc.site] at hy
  queued v hlt hv := by
    have hle := (h.inv.owned.exclusive v trivial).count_le .ready
    have hmem : v ∈ s.readyQueue := by
      simpa [hpc, Pc.awaits, Pc.frame] using h.queued 0 v hlt hv
    exact Nat.le_antisymm hle (List.count_pos_iff.mpr hmem)
  stopped v _ hv hmem := by
    rcases h.ready 0 v hmem with hr | hy
    · simp [ThreadState.Ready, hv] at hr
    · simp [hpc, Pc.site] at hy
  blocked v _ hv := h.agrees_blocked hpc hv
  dying v _ hf hv := by
    have hd := h.dying 0 v hv
    simp [hpc, Pc.leaves, Pc.reaps, hf] at hd

/-- The invariant implies the promise. -/
theorem statesAgree : StatesAgree s where
  user := h.agrees
  noSpin c v hpc hv := by
    have hn := h.noted 0
    rw [hpc] at hn
    exact hn.1 (h.running 0 v hv).1

end Solo

/-- **One processor.** In every run on one processor, of every program, the states of the threads
agree with the places of the threads whenever the code of the program is executed, and the spin
loop of `uthread_switch` never iterates. -/
theorem statesAgree_of_run (acts : List (Act 1)) :
    Throughout step StatesAgree (init 1) acts := by
  have htrue : AllSteps step (fun _ _ => True) (init 1) acts :=
    allSteps_of_prefix fun _ _ _ _ _ _ => trivial
  have hsolo : Throughout step Solo (init 1) acts :=
    throughout_of_invariant (fun _ _ _ hs _ hst => hs.step hst) solo_init htrue
  intro pre suf e t ht
  exact (hsolo pre suf e t ht).statesAgree

end Uthread
