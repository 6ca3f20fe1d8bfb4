import Cs213.Uthread.Ownership

set_option relaxedAutoImplicit false
set_option autoImplicit false

/-!
# Calls in progress

Which function of `uthread.c` a thread is in. While a processor executes the thread this is seen
from its program point, and when the thread has stopped from the frame it has saved.

## Main definitions

* `Uthread.Pc.op` — the call a program point belongs to.
* `Uthread.Calls` — every call in progress is one that a policy permits.
* `Uthread.Saved` — a thread that has been saved is not nascent.
* `Uthread.Stopped`, `Uthread.InCall` — a thread is stopped, or in a call, wherever it is.

## Main results

* `Uthread.Calls.step` — a policy that all new calls obey is obeyed by all calls in progress.
* `Uthread.Calls.not_rewakes` — a thread that may not join is not woken up as a joiner.
* `Uthread.InCall.step` — a thread is followed through a call, also while it is stopped.
-/

namespace Uthread

variable {N : ℕ} {s t : State N} {a : Act N}

/-! ## Program points -/

/-- The call that stops at a call of `uthread_stop`. -/
@[grind] def Site.op : Site → Option Op
  | .yield => some .yield
  | .join t => some (.join t)
  | .enter m => some (.enter m)
  | .exit => none

/-- The call in which the thread has stopped whose frame this is. -/
@[grind] def Frame.op : Frame → Option Op
  | .inside c => c.op
  | .null | .fresh => none

/-- The call on whose behalf `uthread_start` is called. -/
@[grind] def Starter.op : Starter → Option Op
  | .dying _ f => f.op
  | .exit m => some (.exit m)

/-- The call of the thread's own code that a program point belongs to. A thread that has returned
from its `start_proc` is in none. -/
@[grind] def Pc.op : Pc → Option Op
  | .createEnqueue _ => some .create
  | .yieldEnqueue => some .yield
  | .joinTest t | .joinLock t | .joinState t | .joinSet t | .joinUnlock t | .joinValue _ t
  | .joinFree _ t _ | .joinReturn _ t _ => some (.join t)
  | .detachTest t | .detachLock t | .detachState t | .detachSet t | .detachUnlock t
  | .detachFree t => some (.detach t)
  | .enterLock m | .enterRelock m | .enterUnlockWait m | .enterUnlock m => some (.enter m)
  | .exitLock m | .exitUnlock m _ => some (.exit m)
  | .stopDequeue c | .switchSpin c _ | .switchSwap c _ => c.op
  | .switchDying _ f | .dyingLock _ f | .dyingJoiner _ f | .dyingDead _ f | .dyingUnlock _ f
  | .switchResume f => f.op
  | .startTest r _ | .startRunable r _ | .startEnqueue r _ => r.op
  | .user | .aborted _ | .wild => none

lemma Site.eq_enter {c : Site} {m : Mid} (h : c.op = some (.enter m)) : c = .enter m := by
  cases c <;> simp_all [Site.op]

lemma Frame.eq_enter {f : Frame} {m : Mid} (h : f.op = some (.enter m)) :
    f = .inside (.enter m) := by
  cases f with
  | inside c => rw [Site.eq_enter h]
  | null | fresh => cases h

/-- `uthread_stop` returns into the call that has called it, or to the end of that call. -/
lemma Site.op_return (c : Site) : c.return.op = c.op ∨ c.return = .user ∨ c.return = .wild := by
  cases c <;> simp [Site.return, Pc.op, Site.op]

/-- The same for `uthread_start`. -/
lemma Starter.op_return (r : Starter) : r.return.op = r.op ∨ r.return = .user := by
  cases r <;> simp [Starter.return, Pc.op, Starter.op]

/-- The call that an action begins. -/
@[grind] def Act.begins : Act N → Option Op
  | .call _ op => some op
  | .run _ => none

/-! ## Steps of a thread's own code -/

/-- Only `uthread_create` allocates. -/
lemma Trans.fresh_eq (h : Trans s a t) (ha : a.begins ≠ some .create) : t.fresh = s.fresh := by
  cases h <;> grind

lemma Trans.fresh_of_create {p : Fin N} (h : Trans s (.call p .create) t) :
    t.fresh = s.fresh + 1 := by
  cases h
  rfl

/-- The first step of a call leaves the monitors alone. -/
lemma Trans.monitor_of_user (h : Trans s a t) (hpc : (s.proc a.proc).pc = .user) (m : Mid) :
    t.monitor m = s.monitor m := by
  cases h <;> grind

/-- The first step of a call of `uthread_monitor_enter`. -/
lemma Trans.proc_of_enter {p : Fin N} {m : Mid} (h : Trans s (.call p (.enter m)) t) :
    t.proc p = ⟨(s.proc p).thread, .enterLock m⟩ := by
  cases h
  simp

/-- Where the first step of a call does not lead to. -/
lemma Trans.call_cases {p : Fin N} {op : Op} (h : Trans s (.call p op) t) :
    (t.proc p).pc ≠ .user ∧ (t.proc p).pc ≠ .aborted .holder ∧
      (∀ m, (t.proc p).pc ≠ .enterUnlock m) ∧ ∀ m, (t.proc p).pc = .exitLock m → op = .exit m := by
  cases h <;> simp

/-! ## The calls in progress -/

/-- A processor gets into a call by making it, or by switching to a thread that has stopped in
it. -/
lemma Trans.op_cases (h : Trans s a t) {op : Op} (ho : (t.proc a.proc).pc.op = some op) :
    (t.proc a.proc).thread = (s.proc a.proc).thread ∧
      ((s.proc a.proc).pc.op = some op ∨ a.begins = some op) ∨
    (s.tcb (t.proc a.proc).thread).savedSp.op = some op := by
  cases h <;> grind [Site.op_return, Starter.op_return]

/-- Every call in progress is one that the policy `P` permits, and so is every call of
`uthread_join` that has stored its caller. -/
structure Calls (P : Tid → Op → Prop) (s : State N) : Prop where
  pc : ∀ p op, (s.proc p).pc.op = some op → P (s.proc p).thread op
  frame : ∀ v op, (s.tcb v).savedSp.op = some op → P v op
  joiner : ∀ v j, (s.tcb v).joiner = .thread j → P j (.join v)

variable {P : Tid → Op → Prop}

/-- **The policy is obeyed** by all calls in progress if it is obeyed by the calls that are made. -/
theorem Calls.step (h : Calls P s) (ht : Trans s a t)
    (ha : ∀ op, a.begins = some op → P (s.proc a.proc).thread op) : Calls P t where
  pc p op ho := by
    by_cases hp : p = a.proc
    · subst hp
      rcases ht.op_cases ho with ⟨e, ho | hb⟩ | hf
      · exact e ▸ h.pc _ op ho
      · exact e ▸ ha op hb
      · exact h.frame _ op hf
    · rw [ht.proc_of_ne hp] at ho ⊢
      exact h.pc p op ho
  frame v op ho := by
    rcases ht.savedSp_cases v with e | ⟨-, e⟩ | ⟨rfl, c, u, hpc, e, -⟩
    · exact h.frame v op (e ▸ ho)
    · simp [e, Frame.op] at ho
    · rw [e] at ho
      exact h.pc a.proc op (by rw [hpc]; exact ho)
  joiner v j hj := by
    rcases ht.joiner_cases v with e | ⟨-, e⟩ | ⟨hpc, e⟩ | ⟨-, e⟩
    · exact h.joiner v j (e ▸ hj)
    · simp [e] at hj
    · rw [e] at hj
      exact Joiner.thread.inj hj ▸ h.pc a.proc _ (by rw [hpc]; rfl)
    · simp [e] at hj

/-- At the start there is no call in progress. -/
lemma calls_init : Calls P (init N) where
  pc p op h := by simp [init, Pc.op] at h
  frame v op h := by
    simp only [init, initTcb] at h
    grind [uthreadNewThread, uthreadAlloc]
  joiner v j h := by simp [joiner_init] at h

/-- A thread that may not join is not woken up as a joiner. -/
lemma Calls.not_rewakes (h : Calls P s) {G : Tid → Prop} (hG : ∀ j v, G j → ¬ P j (.join v)) :
    ¬ Rewakes G s a := by
  rintro ⟨v, -, -, j, hj, hj'⟩
  cases hv : (s.tcb v).joiner with
  | thread k =>
    obtain rfl : k = j := by simpa [hv, Joiner.thread?] using hj
    exact hG k v hj' (h.joiner v k hv)
  | null | detached => simp [hv, Joiner.thread?] at hj

/-! ## Threads that have been started -/

/-- A thread that has been saved is no longer nascent. -/
structure Saved (s : State N) : Prop where
  saved : ∀ u c, (s.tcb u).savedSp = .inside c → (s.tcb u).state ≠ .nascent
  frame : ∀ p c, (s.proc p).pc.frame = some (.inside c) →
    (s.tcb (s.proc p).thread).state ≠ .nascent

lemma saved_init : Saved (init N) where
  saved u c h := by
    simp only [init, initTcb] at h
    grind [uthreadNewThread, uthreadAlloc]
  frame p c h := by simp [init, Pc.frame] at h

/-- A thread is nascent from its creation on. -/
lemma Trans.nascent_cases (h : Trans s a t) {u : Tid} (hu : (t.tcb u).state = .nascent) :
    (s.tcb u).state = .nascent ∨ u = s.fresh := by
  rcases h.state_cases u with e | ⟨e, -⟩ | ⟨-, c, v, -, e⟩ | ⟨-, -, e⟩ | ⟨-, e⟩ | ⟨-, e⟩
  · exact .inl (e ▸ hu)
  · exact .inr e
  · cases c <;> simp [e, Site.stoppingThreadState] at hu
  all_goals simp [e] at hu

/-- The frame to which `uthread_switch` returns is that of the thread switched to. -/
lemma Trans.frame_next (h : Trans s a t) {f : Frame} (hf : (t.proc a.proc).pc.frame = some f) :
    (t.proc a.proc).thread = (s.proc a.proc).thread ∧ (s.proc a.proc).pc.frame = some f ∨
    f = (t.tcb (t.proc a.proc).thread).savedSp := by
  cases h <;> grind

lemma Saved.saved_step (h : Saved s) (ha : Allocated s) (ht : Trans s a t) (u : Tid) (c : Site)
    (hs : (t.tcb u).savedSp = .inside c) : (t.tcb u).state ≠ .nascent := by
  intro hn
  rcases ht.savedSp_cases u with e | ⟨-, e⟩ | ⟨-, c', v, -, -, e⟩
  · rw [e] at hs
    rcases ht.nascent_cases hn with hn | rfl
    · exact h.saved u c hs hn
    · simp [ha.unused _ le_rfl, uthreadAlloc] at hs
  · simp [e] at hs
  · cases c' <;> simp [e, Site.stoppingThreadState] at hn

lemma Saved.step (h : Saved s) (ha : Allocated s) (ht : Trans s a t) : Saved t where
  saved := h.saved_step ha ht
  frame p c hf := by
    have old : (s.proc p).pc.frame = some (.inside c) →
        (t.tcb (s.proc p).thread).state ≠ .nascent := fun hf hn =>
      (ht.nascent_cases hn).elim (h.frame p c hf) (ha.thread p).ne
    by_cases hp : p = a.proc
    · subst hp
      rcases ht.frame_next hf with ⟨e, hf⟩ | e
      · exact e ▸ old hf
      · exact h.saved_step ha ht _ c e.symm
    · rw [ht.proc_of_ne hp] at hf ⊢
      exact old hf

/-- A thread that has been saved is not nascent, in every run. -/
lemma saved_of_run (hN : 0 < N) {acts : List (Act N)}
    (h : Runs.run Uthread.step (init N) acts = some s) : Saved s := by
  have hrun : Allocated s ∧ Saved s := by
    refine Runs.invariant (I := fun s => Allocated s ∧ Saved s) (C := fun _ _ => True) ?_
      ⟨allocated_init hN, saved_init⟩ (Runs.allSteps_true _ _) h
    rintro s a t ⟨ha, hs⟩ - ht
    exact ⟨ha.step (trans_of_step ht), hs.step ha (trans_of_step ht)⟩
  exact hrun.2

/-! ## Stopped threads -/

/-- Thread `u` is stopped in a call of `uthread_stop`. -/
def Stopped (s : State N) (u : Tid) (c : Site) : Prop :=
  (∀ p, (s.proc p).thread ≠ u) ∧ (s.tcb u).savedSp = .inside c

/-- Thread `u` is at a program point in `φ`, or is stopped in a call of `uthread_stop`. -/
def InCall (s : State N) (u : Tid) (φ : Pc → Prop) (c : Site) : Prop :=
  (∃ p, (s.proc p).thread = u ∧ φ (s.proc p).pc) ∨ Stopped s u c

/-- At a context switch the processor goes on with the thread that is switched to. -/
lemma Trans.proc_of_switchSwap (h : Trans s a t) {c : Site} {v : Tid}
    (hpc : (s.proc a.proc).pc = .switchSwap c v) (hv : v ≠ (s.proc a.proc).thread) :
    t.proc a.proc = ⟨v, .switchDying (s.proc a.proc).thread (s.tcb v).savedSp⟩ := by
  cases h <;> grind

/-- A stopped thread stays stopped until a processor switches to it. -/
lemma Stopped.step (ha : Allocated s) (ht : Trans s a t) {u : Tid} {c : Site}
    (h : Stopped s u c) : Stopped t u c ∨ ∃ v, t.proc a.proc = ⟨u, .switchDying v (.inside c)⟩ := by
  obtain ⟨hoff, hsp⟩ := h
  have hsp' : (t.tcb u).savedSp = .inside c := by
    rcases ht.savedSp_cases u with e | ⟨rfl, -⟩ | ⟨e, -⟩
    · rw [e, hsp]
    · simp [ha.unused _ le_rfl, uthreadAlloc] at hsp
    · exact absurd e.symm (hoff a.proc)
  by_cases hu : (t.proc a.proc).thread = u
  · subst hu
    rcases ht.thread with e | ⟨c', hpc⟩
    · exact absurd e.symm (hoff a.proc)
    · refine .inr ⟨(s.proc a.proc).thread, ?_⟩
      rw [ht.proc_of_switchSwap hpc fun e => hoff a.proc e.symm, hsp]
  · refine .inl ⟨fun p => ?_, hsp'⟩
    by_cases hp : p = a.proc
    · exact hp ▸ hu
    · exact ht.proc_of_ne hp ▸ hoff p

/-- A thread is stopped when a processor switches away from it. -/
lemma Owned.stopped_of_switchSwap {G : Tid → Prop} (ho : Owned G s) (ht : Trans s a t)
    (hG : G (s.proc a.proc).thread) {c : Site} {v : Tid}
    (hpc : (s.proc a.proc).pc = .switchSwap c v) : Stopped t (s.proc a.proc).thread c := by
  refine ⟨fun p e => ?_, ht.savedSp_of_switchSwap hpc⟩
  by_cases hp : p = a.proc
  · rw [hp, ht.thread_of_switchSwap hpc] at e
    exact ho.stopped a.proc v (by rw [hpc, Pc.target]) (e ▸ hG) a.proc e.symm
  · rw [ht.proc_of_ne hp] at e
    exact hp (ho.alone a.proc p hG e.symm).symm

/-- **A thread is followed through a call.** If a processor that executes the thread stays in the
call, stops it at `c` or is at the end `R` of the call, then the thread stays in the call wherever
it is, up to the end. -/
theorem InCall.step {G : Tid → Prop} {u : Tid} {φ : Pc → Prop} {c : Site} {R : Prop}
    (ha : Allocated s) (ho : Owned G s) (hu : G u) (ht : Trans s a t)
    (hnext : (s.proc a.proc).thread = u → φ (s.proc a.proc).pc →
      ((t.proc a.proc).thread = u ∧ φ (t.proc a.proc).pc) ∨
      (∃ v, (s.proc a.proc).pc = .switchSwap c v) ∨ R)
    (hback : ∀ v, φ (.switchDying v (.inside c))) (h : InCall s u φ c) : InCall t u φ c ∨ R := by
  rcases h with ⟨p, rfl, hφ⟩ | h
  · by_cases hp : p = a.proc
    · subst hp
      rcases hnext rfl hφ with hs | ⟨v, hpc⟩ | hR
      · exact .inl (.inl ⟨_, hs⟩)
      · exact .inl (.inr (ho.stopped_of_switchSwap ht hu hpc))
      · exact .inr hR
    · rw [← ht.proc_of_ne hp] at hφ
      exact .inl (.inl ⟨p, by rw [ht.proc_of_ne hp], hφ⟩)
  · rcases h.step ha ht with h | ⟨v, e⟩
    · exact .inl (.inr h)
    · exact .inl (.inl ⟨a.proc, by rw [e], e ▸ hback v⟩)

end Uthread
