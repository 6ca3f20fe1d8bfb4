import Cs213.Uthread.Calls
import Cs213.Uthread.Lifetime

set_option relaxedAutoImplicit false
set_option autoImplicit false

/-!
# Where `uthread_switch` returns to

`uthread_switch` is called on one stack and left on another one. It has to find there either the
frame that `uthread_new_thread` lays out, and then the thread is to call its `start_proc`, or the
frame of an earlier call in which the thread has stopped. What tells the two apart is the field
`state`: the code calls `start_proc` if it is `TS_NASCENT`. A thread that has exited has a frame
too, and there is nothing to return to from it.

## Main definitions

* `Uthread.Starts`, `Uthread.Finishes` — the steps in which a thread calls its `start_proc`, and
  returns from it.
* `Uthread.State.exits` — a thread has returned from its `start_proc`.
* `Uthread.SwitchLaw` — control stays in the code, and every thread is started and returns once.
* `Uthread.Framed` — the invariant: the state of a thread that is not executed tells what frame it
  has.

## Main results

* `Uthread.Framed.step` — the invariant is kept as long as the scheduler owns the threads.
* `Uthread.switchLaw_of_run` — the law in every run in which no joiner is woken up twice.
-/

namespace Uthread

open Runs Placement

variable {N : ℕ} {s t : State N} {a : Act N}

/-! ## The law -/

/-- The end of `uthread_switch`. -/
@[grind] def Pc.resumes : Pc → Bool
  | .switchResume _ => true
  | _ => false

/-- The thread returns from its `start_proc`. -/
def Act.isRet : Act N → Bool
  | .call _ (.ret _) => true
  | _ => false

/-- The thread `u` calls its `start_proc`. -/
def Starts (u : Tid) (s : State N) (a : Act N) : Prop :=
  (s.proc a.proc).thread = u ∧ (s.proc a.proc).pc.resumes ∧ (s.tcb u).state = .nascent

/-- The thread `u` returns from its `start_proc`. -/
def Finishes (u : Tid) (s : State N) (a : Act N) : Prop :=
  (s.proc a.proc).thread = u ∧ a.isRet

instance (u : Tid) (s : State N) (a : Act N) : Decidable (Starts u s a) :=
  inferInstanceAs (Decidable (_ ∧ _))

instance (u : Tid) (s : State N) (a : Act N) : Decidable (Finishes u s a) :=
  inferInstanceAs (Decidable (_ ∧ _))

/-- The thread has returned from its `start_proc`: it has exited, or is about to. -/
def State.exits (s : State N) (u : Tid) : Prop :=
  s.exited u ∨ ∃ p, (s.proc p).thread = u ∧ (s.proc p).pc.site = some .exit

/-- **The law of the context switch**, after the actions `acts`. -/
structure SwitchLaw (acts : List (Act N)) (s : State N) : Prop where
  /-- Control stays in the code. -/
  tame : ∀ p, (s.proc p).pc ≠ .wild
  /-- On the new stack, the frame is that of a new thread, which is nascent, or that of a call in
  which the thread has stopped, and then it is not. -/
  frame : ∀ p f, (s.proc p).pc.frame = some f →
    f = .fresh ∧ (s.tcb (s.proc p).thread).state = .nascent ∨
    (∃ c, c ≠ .exit ∧ f = .inside c) ∧ (s.tcb (s.proc p).thread).state ≠ .nascent
  /-- A thread that has exited is not executed. -/
  alive : ∀ p, ¬ s.exited (s.proc p).thread
  /-- A thread that is not nascent has called its `start_proc` once, and another one has not. -/
  starts : ∀ u, N < u →
    ((s.tcb u).state ≠ .nascent → count step (Starts u) (init N) acts = 1) ∧
    ((s.tcb u).state = .nascent → count step (Starts u) (init N) acts = 0)
  /-- A thread that exits has returned from its `start_proc` once, and another one has not. -/
  returns : ∀ u, (s.exits u → count step (Finishes u) (init N) acts = 1) ∧
    (¬ s.exits u → count step (Finishes u) (init N) acts = 0)

/-! ## The invariant -/

/-- The threads that a processor is about to wake up. -/
@[grind] def Pc.woken : Pc → List Tid
  | .startTest _ t | .startRunable _ t | .startEnqueue _ t => [t]
  | .exitUnlock _ w => w.toList
  | .user | .createEnqueue _ | .yieldEnqueue | .stopDequeue _ | .switchSpin _ _ | .switchSwap _ _
  | .switchDying _ _ | .dyingLock _ _ | .dyingJoiner _ _ | .dyingDead _ _ | .dyingUnlock _ _
  | .switchResume _ | .joinTest _ | .joinLock _ | .joinState _ | .joinSet _ | .joinUnlock _
  | .joinValue _ _ | .joinFree _ _ _ | .joinReturn _ _ _ | .detachTest _ | .detachLock _
  | .detachState _ | .detachSet _ | .detachUnlock _ | .detachFree _ | .enterLock _
  | .enterRelock _ | .enterUnlockWait _ | .enterUnlock _ | .exitLock _ | .aborted _ | .wild => []

@[simp, grind =] lemma Site.woken_return (c : Site) : c.return.woken = [] := by
  cases c <;> rfl

@[simp, grind =] lemma Starter.woken_return (r : Starter) : r.return.woken = [] := by
  cases r <;> rfl

/-- **The frames of the threads.** -/
structure Framed (s : State N) : Prop where
  /-- A thread that waits has been started. -/
  joiner : ∀ v j, (s.tcb v).joiner = .thread j → (s.tcb j).state ≠ .nascent
  waiter : ∀ m, ∀ v ∈ (s.monitor m).waiterQueue, (s.tcb v).state ≠ .nascent
  woken : ∀ p, ∀ v ∈ (s.proc p).pc.woken, (s.tcb v).state ≠ .nascent
  /-- A thread that is not executed is stopped in a call, or new. -/
  waiting : ∀ u < s.fresh, (∀ p, (s.proc p).thread ≠ u) →
    (∃ c, (s.tcb u).savedSp = .inside c) ∨ (s.tcb u).savedSp = .fresh ∧ (s.tcb u).state = .nascent
  /-- Only a thread that has exited is stopped in the call for dying threads. -/
  exit : ∀ u, (s.tcb u).savedSp = .inside .exit → s.exited u
  /-- A processor returns to the frame of a new thread or to that of another call. -/
  frame : ∀ p f, (s.proc p).pc.frame = some f →
    f = .fresh ∧ (s.tcb (s.proc p).thread).state = .nascent ∨ ∃ c, c ≠ .exit ∧ f = .inside c
  tame : ∀ p, (s.proc p).pc ≠ .wild

/-! ### What a step can do -/

/-- A thread that is woken up is mentioned at the program point. -/
lemma Pc.mem_tids_of_woken {pc : Pc} {v : Tid} (h : v ∈ pc.woken) : v ∈ pc.tids := by
  cases pc <;> grind

/-- A thread gets on the queue of a monitor by entering it. -/
lemma Trans.waiter_cases (h : Trans s a t) {m : Mid} {v : Tid}
    (hv : v ∈ (t.monitor m).waiterQueue) : v ∈ (s.monitor m).waiterQueue ∨
      v = (s.proc a.proc).thread ∧ (s.proc a.proc).pc.frame = none := by
  cases h <;> grind [List.mem_of_mem_tail]

/-- A thread is woken up as a joiner, or as the first one in the queue of a monitor. -/
lemma Trans.started_cases (h : Trans s a t) {v : Tid} (hv : v ∈ (t.proc a.proc).pc.woken) :
    v ∈ (s.proc a.proc).pc.woken ∨ (∃ m, v ∈ (s.monitor m).waiterQueue) ∨
      ∃ u, (s.tcb u).joiner = .thread v := by
  cases h <;> grind [List.mem_of_mem_head?]

/-- A thread that is created gets the frame of a new thread. -/
lemma Trans.tcb_of_created (h : Trans s a t) {u : Tid} (hs : s.fresh ≤ u) (ht : u < t.fresh) :
    t.tcb u = uthreadNewThread .client := by
  cases h <;> grind

/-- On the new stack a processor stays in the tail of `uthread_switch`, or has just got there. -/
lemma Trans.tail_cases (h : Trans s a t) {f : Frame} (hf : (t.proc a.proc).pc.frame = some f) :
    ((t.proc a.proc).thread = (s.proc a.proc).thread ∧ (s.proc a.proc).pc.frame = some f ∧
      (s.proc a.proc).pc.resumes = false) ∨
    ∃ c u, (s.proc a.proc).pc = .switchSwap c u ∧
      (u ≠ (s.proc a.proc).thread → f = (s.tcb u).savedSp ∧ t.tcb u = s.tcb u) := by
  cases h <;> grind

/-- Only a thread that exits returns from `uthread_stop` to where nobody called it. -/
lemma Site.return_eq_wild {c : Site} : c.return = .wild ↔ c = .exit := by
  cases c <;> simp [Site.return]

/-- Control leaves the code when a thread that exits switches to itself, or at the end of
`uthread_switch`. -/
lemma Trans.wild_cases (h : Trans s a t) (hw : (t.proc a.proc).pc = .wild) :
    (s.proc a.proc).pc.site = some .exit ∧ (s.proc a.proc).thread ∈ s.readyQueue ∨
    (s.proc a.proc).pc = .switchResume (.inside .exit) ∨
    ∃ f, (s.proc a.proc).pc = .switchResume f ∧ (∀ c, f ≠ .inside c) ∧
      (s.tcb (s.proc a.proc).thread).state ≠ .nascent := by
  cases h <;> grind [Site.return_eq_wild, Starter.return_cases]

/-! ### The step -/

namespace Framed

variable (h : Framed s) (ha : Allocated s) (ho : Owned (fun _ => True) s) (ht : Trans s a t)

omit h in
include ho in
/-- A thread that executes its own code has been started. -/
lemma ne_nascent_of_frame {p : Fin N} (hf : (s.proc p).pc.frame = none) :
    (s.tcb (s.proc p).thread).state ≠ .nascent := by
  simp [ho.running p trivial hf]

omit h in
include ht in
/-- A thread that has been started is not nascent again. -/
lemma ne_nascent_step {u : Tid} (hu : u < s.fresh) (hn : (s.tcb u).state ≠ .nascent) :
    (t.tcb u).state ≠ .nascent :=
  fun hn' => (ht.nascent_cases hn').elim hn hu.ne

include h ho ht in
/-- A nascent thread stays nascent until it calls its `start_proc`. -/
lemma nascent_step {u : Tid} (hn : (s.tcb u).state = .nascent) (hs : ¬ Starts u s a) :
    (t.tcb u).state = .nascent := by
  rcases ht.state_cases u with e | ⟨-, e⟩ | ⟨rfl, c, v, hpc, -⟩ | ⟨rfl, ⟨f, hpc⟩, -⟩ |
    ⟨⟨r, hpc⟩, -⟩ | ⟨⟨f, hpc⟩, -⟩
  · rw [e, hn]
  · exact e
  · exact absurd hn (ne_nascent_of_frame ho (by rw [hpc, Pc.frame]))
  · exact absurd ⟨rfl, by rw [hpc, Pc.resumes], hn⟩ hs
  · exact absurd hn (h.woken a.proc u (by simp [hpc, Pc.woken]))
  · have := ho.reaps a.proc u (by rw [hpc, Pc.reaps])
    simp [State.exited, hn] at this

include h ha ho ht

lemma joiner_step (v j : Tid) (hj : (t.tcb v).joiner = .thread j) :
    (t.tcb j).state ≠ .nascent := by
  rcases ht.joiner_cases v with e | ⟨-, e⟩ | ⟨hpc, e⟩ | ⟨-, e⟩
  · rw [e] at hj
    exact ne_nascent_step ht (ha.joiner v j hj) (h.joiner v j hj)
  · simp [e] at hj
  · obtain rfl : (s.proc a.proc).thread = j := by simpa [e] using hj
    exact ne_nascent_step ht (ha.thread _) (ne_nascent_of_frame ho (by rw [hpc, Pc.frame]))
  · simp [e] at hj

lemma waiter_step (m : Mid) (v : Tid) (hv : v ∈ (t.monitor m).waiterQueue) :
    (t.tcb v).state ≠ .nascent := by
  rcases ht.waiter_cases hv with hv | ⟨rfl, hf⟩
  · exact ne_nascent_step ht (ha.waiter m v hv) (h.waiter m v hv)
  · exact ne_nascent_step ht (ha.thread _) (ne_nascent_of_frame ho hf)

omit ho in
lemma woken_step (p : Fin N) (v : Tid) (hv : v ∈ (t.proc p).pc.woken) :
    (t.tcb v).state ≠ .nascent := by
  have old : ∀ q, v ∈ (s.proc q).pc.woken → (t.tcb v).state ≠ .nascent := by
    intro q hq
    have hlt : v < s.fresh := ha.pc q v (Pc.mem_tids_of_woken hq)
    exact ne_nascent_step ht hlt (h.woken q v hq)
  by_cases hp : p = a.proc
  · subst hp
    rcases ht.started_cases hv with hv | ⟨m, hv⟩ | ⟨u, hu⟩
    · exact old _ hv
    · exact ne_nascent_step ht (ha.waiter m v hv) (h.waiter m v hv)
    · exact ne_nascent_step ht (ha.joiner u v hu) (h.joiner u v hu)
  · exact old p (ht.proc_of_ne hp ▸ hv)

omit ha in
lemma waiting_step (u : Tid) (hu : u < t.fresh) (hoff : ∀ p, (t.proc p).thread ≠ u) :
    (∃ c, (t.tcb u).savedSp = .inside c) ∨
      (t.tcb u).savedSp = .fresh ∧ (t.tcb u).state = .nascent := by
  by_cases hlt : u < s.fresh
  swap
  · refine .inr ?_
    rw [ht.tcb_of_created (Nat.not_lt.mp hlt) hu]
    exact ⟨rfl, rfl⟩
  by_cases hon : ∃ p, (s.proc p).thread = u
  · -- the processor that has executed the thread switches away from it
    obtain ⟨p, rfl⟩ := hon
    obtain rfl : p = a.proc := by
      by_contra hp
      exact hoff p (by rw [ht.proc_of_ne hp])
    rcases ht.thread with e | ⟨c, hpc⟩
    · exact absurd e (hoff _)
    · exact .inl ⟨c, ht.savedSp_of_switchSwap hpc⟩
  · have hon : ∀ p, (s.proc p).thread ≠ u := fun p e => hon ⟨p, e⟩
    have hsp : (t.tcb u).savedSp = (s.tcb u).savedSp := by
      rcases ht.savedSp_cases u with e | ⟨e, -⟩ | ⟨e, -⟩
      · exact e
      · exact absurd e hlt.ne
      · exact absurd e.symm (hon _)
    rw [hsp]
    exact (h.waiting u hlt hon).imp_right fun ⟨hf, hn⟩ =>
      ⟨hf, h.nascent_step ho ht hn fun hs => hon _ hs.1⟩

omit h in
lemma exit_step (hexit : ∀ u, (s.tcb u).savedSp = .inside .exit → s.exited u) (u : Tid)
    (hu : (t.tcb u).savedSp = .inside .exit) : t.exited u := by
  rcases ht.savedSp_cases u with e | ⟨-, e⟩ | ⟨-, c, v, -, e, hst⟩
  · exact ho.exited_mono ha ht (hexit u (e ▸ hu))
  · simp [e] at hu
  · obtain rfl : c = .exit := by simpa [e] using hu
    exact .inl hst

lemma frame_step (p : Fin N) (f : Frame) (hf : (t.proc p).pc.frame = some f) :
    f = .fresh ∧ (t.tcb (t.proc p).thread).state = .nascent ∨ ∃ c, c ≠ .exit ∧ f = .inside c := by
  by_cases hp : p = a.proc
  · subst hp
    rcases ht.tail_cases hf with ⟨e, hf, hr⟩ | ⟨c, u, hpc, hnew⟩
    · rw [e]
      exact (h.frame _ f hf).imp_left fun hnew =>
        ⟨hnew.1, h.nascent_step ho ht hnew.2 fun hs => Bool.false_ne_true (hr ▸ hs.2.1)⟩
    · -- the thread that is switched to is stopped, and has not exited
      have hstop := ho.stopped a.proc u (by rw [hpc, Pc.target]) trivial
      obtain ⟨rfl, htcb⟩ := hnew (hstop a.proc).symm
      have hlt : u < s.fresh := ha.pc a.proc u (by rw [hpc]; simp [Pc.tids])
      rw [ht.thread_of_switchSwap hpc, htcb]
      rcases h.waiting u hlt hstop with ⟨c', e⟩ | hf
      · refine .inr ⟨c', ?_, e⟩
        rintro rfl
        refine ho.gone u (h.exit u e) (.proc a.proc) ?_
        simp [State.contents, Proc.carries, hpc, Pc.carries]
      · exact .inl hf
  · rw [ht.proc_of_ne hp] at hf ⊢
    refine (h.frame p f hf).imp_left fun hnew =>
      ⟨hnew.1, h.nascent_step ho ht hnew.2 fun hs => ?_⟩
    exact hp (ho.alone a.proc p trivial hs.1).symm

omit ha in
lemma tame_step (p : Fin N) : (t.proc p).pc ≠ .wild := by
  by_cases hp : p = a.proc
  · subst hp
    intro hw
    rcases ht.wild_cases hw with ⟨hc, hself⟩ | hpc | ⟨f, hpc, hf, hn⟩
    · exact ho.exiting a.proc hc .ready hself
    · rcases h.frame a.proc _ (by rw [hpc, Pc.frame]) with ⟨e, -⟩ | ⟨c, hc, e⟩
      · cases e
      · exact hc (Frame.inside.inj e).symm
    · rcases h.frame a.proc f (by rw [hpc, Pc.frame]) with ⟨-, hn'⟩ | ⟨c, -, e⟩
      · exact hn hn'
      · exact hf c e
  · rw [ht.proc_of_ne hp]
    exact h.tame p

/-- **The frames stay as they should be.** -/
theorem step : Framed t where
  joiner := h.joiner_step ha ho ht
  waiter := h.waiter_step ha ho ht
  woken := h.woken_step ha ht
  waiting := h.waiting_step ho ht
  exit := exit_step ha ho ht h.exit
  frame := h.frame_step ha ho ht
  tame := h.tame_step ho ht

end Framed

/-- At the start the threads are executed, or new. -/
lemma framed_init (hN : 0 < N) : Framed (init N) where
  joiner v j hj := by simp [joiner_init] at hj
  waiter m v hv := by simp [init, uthreadMonitorCreate] at hv
  woken p v hv := by simp [init, Pc.woken] at hv
  waiting u hu hoff := by
    obtain rfl : u = 1 := by
      by_contra h1
      by_cases h0 : u = 0
      · exact hoff ⟨0, hN⟩ (by simp [init, h0])
      · obtain ⟨k, rfl⟩ : ∃ k, u = k + 2 := Nat.exists_eq_add_of_le' (by grind)
        exact hoff ⟨k + 1, Nat.lt_of_succ_lt_succ hu⟩ (by simp [init])
    exact .inr ⟨rfl, rfl⟩
  exit u hu := by
    simp only [init, initTcb] at hu
    grind [uthreadNewThread, uthreadAlloc]
  frame p f hf := by simp [init, Pc.frame] at hf
  tame p := by simp [init]

/-! ## How often a thread starts and returns -/

/-- Before its first step a thread has not returned. -/
lemma not_exits_init (u : Tid) : ¬ (init N).exits u := by
  rintro (he | ⟨p, -, hc⟩)
  · exact not_exited_init u he
  · simp [init, Pc.site] at hc

/-- A thread that returns from its `start_proc` executes its own code, and calls `uthread_stop`. -/
lemma Trans.ret_cases (h : Trans s a t) (ha : a.isRet) : (s.proc a.proc).pc = .user ∧
    (t.proc a.proc).thread = (s.proc a.proc).thread ∧ (t.proc a.proc).pc.site = some .exit := by
  cases h <;> simp_all [Act.isRet, Pc.site]

/-- A thread that returns has not done so before. -/
lemma Finishes.not_exits {u : Tid} (h : Finishes u s a) (ho : Owned (fun _ => True) s)
    (ht : Trans s a t) : ¬ s.exits u := by
  obtain ⟨rfl, hret⟩ := h
  rintro (he | ⟨p, hp, hc⟩)
  · exact ho.off _ he a.proc rfl
  · obtain rfl := ho.alone p a.proc trivial hp
    rw [(ht.ret_cases hret).1, Pc.site] at hc
    cases hc

/-- **A thread exits by returning** from its `start_proc`, and there is no way back. -/
lemma exits_step (hi : Idle s) (ha : Allocated s) (ho : Owned (fun _ => True) s)
    (ht : Trans s a t) (u : Tid) : t.exits u ↔ s.exits u ∨ Finishes u s a := by
  constructor
  · rintro (he | ⟨p, rfl, hc⟩)
    · rcases ho.exited_cases ht he with he | ⟨hu, v, hpc⟩
      · exact .inl (.inl he)
      · exact .inl (.inr ⟨a.proc, hu, by rw [hpc, Pc.site]⟩)
    · by_cases hp : p = a.proc
      · subst hp
        obtain ⟨e, hc | ⟨e', -⟩ | ⟨v, e', -⟩ | ⟨m, e', -⟩ | ⟨-, q, v, rfl, -⟩⟩ := ht.site_cases hc
        · exact .inl (.inr ⟨_, e.symm, hc⟩)
        · cases e'
        · cases e'
        · cases e'
        · exact .inr ⟨e.symm, rfl⟩
      · rw [ht.proc_of_ne hp] at hc ⊢
        exact .inl (.inr ⟨p, rfl, hc⟩)
  · rintro ((he | ⟨p, rfl, hc⟩) | ⟨rfl, hret⟩)
    · exact .inl (ho.exited_mono ha ht he)
    · by_cases hp : p = a.proc
      · subst hp
        rcases ht.exit_cases hc with ⟨e, hc⟩ | hd | hself | ⟨c, hpc, hnil⟩
        · exact .inr ⟨_, e, hc⟩
        · exact .inl (.inl hd)
        · exact absurd hself (ho.exiting a.proc hc .ready)
        · exact absurd hnil (hi.readyQueue_ne_nil hpc)
      · exact .inr ⟨p, by rw [ht.proc_of_ne hp], by rw [ht.proc_of_ne hp, hc]⟩
    · exact .inr ⟨a.proc, (ht.ret_cases hret).2⟩

/-- A thread that calls its `start_proc` is no longer nascent. -/
lemma Starts.ne_nascent {u : Tid} (h : Starts u s a) (ht : Trans s a t) :
    (t.tcb u).state ≠ .nascent := by
  obtain ⟨rfl, hr, -⟩ := h
  cases ht <;> grind

/-! ## Runs -/

/-- The invariant along a run, with the number of times a thread has started and returned. -/
structure Counted (acts : List (Act N)) (s : State N) : Prop where
  framed : Framed s
  starts : ∀ u, N < u →
    count step (Starts u) (init N) acts = if (s.tcb u).state = .nascent then 0 else 1
  returns : ∀ u, (s.exits u → count step (Finishes u) (init N) acts = 1) ∧
    (¬ s.exits u → count step (Finishes u) (init N) acts = 0)

lemma Counted.step {acts : List (Act N)} (h : Counted acts s) (hinv : Inv (fun _ => True) s)
    (hrun : run step (init N) acts = some s) (ht : Uthread.step s a = some t) :
    Counted (acts ++ [a]) t where
  framed := h.framed.step hinv.allocated hinv.owned (trans_of_step ht)
  starts u hu := by
    have ht := trans_of_step ht
    rw [count_concat hrun, h.starts u hu]
    by_cases hs : Starts u s a
    · simp [hs, hs.2.2, hs.ne_nascent ht]
    · by_cases hn : (s.tcb u).state = .nascent
      · simp [hs, hn, h.framed.nascent_step hinv.owned ht hn hs]
      · have hlt : u < s.fresh := by
          by_contra hlt
          simp [hinv.allocated.unused u (Nat.not_lt.mp hlt), uthreadAlloc] at hn
        simp [hs, hn, Framed.ne_nascent_step ht hlt hn]
  returns u := by
    have ht := trans_of_step ht
    rw [count_concat hrun, exits_step hinv.idle hinv.allocated hinv.owned ht]
    have hret := fun h : Finishes u s a => h.not_exits hinv.owned ht
    by_cases hr : Finishes u s a
    · simp [hr, (h.returns u).2 (hret hr)]
    · simpa [hr] using h.returns u

lemma counted_init (hN : 0 < N) : Counted [] (init N) where
  framed := framed_init hN
  starts u hu := by
    simp only [init, initTcb]
    grind [uthreadAlloc, count]
  returns u := ⟨fun h => absurd h (not_exits_init u), fun _ => rfl⟩

/-- The invariants along a run in which no joiner is woken up twice. -/
lemma counted_of_run (hN : 0 < N) {acts : List (Act N)}
    (hC : AllSteps step (fun s a => ¬ Rewakes (fun _ => True) s a) (init N) acts)
    (h : run step (init N) acts = some s) : Inv (fun _ => True) s ∧ Counted acts s := by
  refine induct_of_allSteps (motive := fun as t => Inv (fun _ => True) t ∧ Counted as t)
    ⟨inv_init hN _, counted_init hN⟩ ?_ hC h
  rintro as a t u ht ⟨hinv, hcount⟩ ha hu
  exact ⟨hinv.step (fun _ _ => trivial) ha hu, hcount.step hinv ht hu⟩

/-- **The law holds** in every run on `N` processors in which no exit of a thread takes the join
spinlock when the thread is already dead and has a joiner. -/
theorem switchLaw_of_run (hN : 0 < N) {acts : List (Act N)}
    (hC : AllSteps step (fun s a => ¬ Rewakes (fun _ => True) s a) (init N) acts)
    (h : run step (init N) acts = some s) : SwitchLaw acts s := by
  obtain ⟨hinv, hcount⟩ := counted_of_run hN hC h
  have hsaved : Saved s := saved_of_run hN h
  exact
    { tame := hcount.framed.tame
      frame := fun p f hf => (hcount.framed.frame p f hf).imp_right fun ⟨c, hc, e⟩ =>
        ⟨⟨c, hc, e⟩, hsaved.frame p c (e ▸ hf)⟩
      alive := fun p he => hinv.owned.off _ he p rfl
      starts := fun u hu => by
        rw [hcount.starts u hu]
        exact ⟨fun hn => if_neg hn, fun hn => if_pos hn⟩
      returns := hcount.returns }

theorem switchLaw_joinAndExit : (run step (init 1) joinAndExit).isSome ∧
    count step (Starts 2) (init 1) joinAndExit = 1 ∧
    count step (Finishes 2) (init 1) joinAndExit = 1 ∧
    ∀ s, run step (init 1) joinAndExit = some s → SwitchLaw joinAndExit s :=
  ⟨by decide +kernel, by decide +kernel, by decide +kernel, fun _ =>
    switchLaw_of_run (by decide) (by decide +kernel)⟩

end Uthread
