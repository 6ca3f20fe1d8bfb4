import Mathlib.Data.Fintype.EquivFin
import Cs213.Uthread.Effects

set_option relaxedAutoImplicit false
set_option autoImplicit false

/-!
# The base threads keep the ready queue filled

`uthread_init` makes `N` threads that run `pthread_base` and thus only ever yield. Each of them is
on the ready queue or in the hands of a processor, and no processor ever has two of them in its
hands. A processor that is about to dequeue has nothing in its hands, so the other `N - 1` have
not got them all.

## Main definitions

* `Uthread.State.isBase` — a thread runs `pthread_base`.
* `Uthread.Pc.idle` — the program points of a thread that only yields.
* `Uthread.Idle` — the base threads only yield and are on the ready queue or in somebody's hands.

## Main results

* `Uthread.Idle.step`, `Uthread.idle_init`.
* `Uthread.Idle.readyQueue_ne_nil` — the ready queue is not empty when a processor dequeues.
-/

namespace Uthread

variable {N : ℕ} {s t : State N} {a : Act N}

/-! ## Program points -/

/-- A frame to which a thread that only yields returns. -/
@[grind] def Frame.idle : Frame → Prop
  | .null | .fresh => True
  | .inside c => c = .yield

/-- A call of `uthread_start` after which a thread that only yields is resumed. -/
@[grind] def Starter.idle : Starter → Prop
  | .dying _ f => f.idle
  | .exit _ => False

/-- The program points of a thread that only yields. -/
@[grind] def Pc.idle : Pc → Prop
  | .user | .yieldEnqueue | .wild => True
  | .stopDequeue c | .switchSpin c _ | .switchSwap c _ => c = .yield
  | .switchDying _ f | .dyingLock _ f | .dyingJoiner _ f | .dyingDead _ f | .dyingUnlock _ f
  | .switchResume f => f.idle
  | .startTest r _ | .startRunable r _ | .startEnqueue r _ => r.idle
  | .createEnqueue _ | .joinTest _ | .joinLock _ | .joinState _ | .joinSet _ | .joinUnlock _
  | .joinValue _ _ | .joinFree _ _ _ | .joinReturn _ _ _ | .detachTest _ | .detachLock _
  | .detachState _ | .detachSet _ | .detachUnlock _ | .detachFree _ | .enterLock _
  | .enterRelock _ | .enterUnlockWait _ | .enterUnlock _ | .exitLock _ | .exitUnlock _ _
  | .aborted _ => False

/-- The threads a processor carries besides the one it executes or switches to. -/
@[grind] def Pc.extra : Pc → List Tid
  | .createEnqueue t | .startTest _ t | .startRunable _ t | .startEnqueue _ t => [t]
  | .exitUnlock _ w => w.toList
  | .user | .yieldEnqueue | .stopDequeue _ | .switchSpin _ _ | .switchSwap _ _
  | .switchDying _ _ | .dyingLock _ _ | .dyingJoiner _ _ | .dyingDead _ _ | .dyingUnlock _ _
  | .switchResume _ | .joinTest _ | .joinLock _ | .joinState _ | .joinSet _ | .joinUnlock _
  | .joinValue _ _ | .joinFree _ _ _ | .joinReturn _ _ _ | .detachTest _ | .detachLock _
  | .detachState _ | .detachSet _ | .detachUnlock _ | .detachFree _ | .enterLock _
  | .enterRelock _ | .enterUnlockWait _ | .enterUnlock _ | .exitLock _ | .aborted _ | .wild => []

@[simp, grind =] lemma Site.extra_return (c : Site) : c.return.extra = [] := by
  cases c <;> rfl

@[simp, grind =] lemma Starter.extra_return (r : Starter) : r.return.extra = [] := by
  cases r <;> rfl

/-- A thread that only yields comes back from `uthread_start` into its exit path. -/
lemma Starter.idle_return {r : Starter} (h : r.idle) : r.return.idle := by
  cases r <;> grind [Starter.return]

/-- A processor carries at most one thread besides the extra ones. -/
lemma Pc.carries_unique {pc : Pc} {self u v : Tid} (hu : u ∈ pc.carries self)
    (hv : v ∈ pc.carries self) (hu' : u ∉ pc.extra) (hv' : v ∉ pc.extra) : u = v := by
  cases pc <;> grind

/-! ## The invariant -/

/-- The thread runs `pthread_base`. -/
def State.isBase (s : State N) (b : Tid) : Prop :=
  b < s.fresh ∧ (s.tcb b).startProc = .pthreadBase

/-- **The base threads are idle**, and not lost. -/
structure Idle (s : State N) : Prop where
  /-- There are `N` of them. -/
  base : ∀ b, 0 < b → b ≤ N → s.isBase b
  /-- They only yield. -/
  pc : ∀ p, s.isBase (s.proc p).thread → (s.proc p).pc.idle
  frame : ∀ b, s.isBase b → (s.tcb b).savedSp.idle
  /-- Nobody wakes them up. -/
  waiter : ∀ m, ∀ v ∈ (s.monitor m).waiterQueue, ¬ s.isBase v
  joiner : ∀ v j, (s.tcb v).joiner = .thread j → ¬ s.isBase j
  extra : ∀ p, ∀ v ∈ (s.proc p).pc.extra, ¬ s.isBase v
  /-- They are on the ready queue or carried. -/
  located : ∀ b, s.isBase b → b ∈ s.readyQueue ∨ ∃ p, b ∈ (s.proc p).carries
  /-- Hence no dequeue has failed. -/
  asserted : ∀ p, (s.proc p).pc ≠ .aborted .toThread

/-- **The ready queue is not empty** when a processor dequeues. -/
theorem Idle.readyQueue_ne_nil (h : Idle s) {p : Fin N} {c : Site}
    (hpc : (s.proc p).pc = .stopDequeue c) : s.readyQueue ≠ [] := by
  intro hnil
  have hloc : ∀ i : Fin N, ∃ q, i.val + 1 ∈ (s.proc q).carries := by
    intro i
    have := h.located (i + 1) (h.base (i + 1) (by omega) (by omega))
    simpa [hnil] using this
  choose f hf using hloc
  have hinj : Function.Injective f := by
    intro i j hij
    have hi := h.base (i + 1) (by omega) (by omega)
    have hj := h.base (j + 1) (by omega) (by omega)
    have := Pc.carries_unique (hf i) (hij ▸ hf j) (fun e => h.extra _ _ e hi)
      fun e => h.extra _ _ (hij ▸ e) hj
    exact Fin.ext (Nat.succ.inj this)
  obtain ⟨i, hi⟩ := Finite.injective_iff_surjective.mp hinj p
  have := hf i
  rw [hi, Proc.carries, hpc] at this
  simp [Pc.carries] at this

/-! ## The step -/

/-- No step makes or unmakes a base thread. -/
lemma Trans.isBase_iff (h : Trans s a t) (b : Tid) : t.isBase b ↔ s.isBase b := by
  cases h <;> grind [State.isBase, uthreadNewThread, uthreadAlloc]

/-- What is taken off the ready queue is carried. -/
lemma Trans.ready_cases (h : Trans s a t) {v : Tid} (hv : v ∈ s.readyQueue) :
    v ∈ t.readyQueue ∨ v ∈ (t.proc a.proc).carries := by
  cases h <;> grind

/-- What is no longer carried has been put on the ready queue, or is not a thread that only
yields. -/
lemma Trans.carried_cases (h : Trans s a t) {v : Tid} (hv : v ∈ (s.proc a.proc).carries) :
    v ∈ (t.proc a.proc).carries ∨ v ∈ t.readyQueue ∨ v = (s.proc a.proc).thread ∧
      ((∃ p w, a = .call p (.ret w) ∧ (s.tcb v).startProc.can (.ret w)) ∨
        ¬ (s.proc a.proc).pc.idle) := by
  cases h <;> grind [Proc.carries]

namespace Idle

variable (h : Idle s) (ht : Trans s a t)

include h ht

/-- A base thread goes on yielding. -/
lemma pc_step (p : Fin N) (hb : s.isBase (t.proc p).thread) : (t.proc p).pc.idle := by
  by_cases hp : p = a.proc
  · subst hp
    have hpc := h.pc a.proc
    have hfr := h.frame (t.proc a.proc).thread hb
    have hne : ∀ c, (s.proc a.proc).pc = .stopDequeue c → s.readyQueue ≠ [] :=
      fun _ => h.readyQueue_ne_nil
    clear h
    cases ht <;> grind [State.isBase, StartProc.can, Starter.idle_return, Site.return]
  · rw [ht.proc_of_ne hp] at hb ⊢
    exact h.pc p hb

lemma frame_step (b : Tid) (hb : s.isBase b) : (t.tcb b).savedSp.idle := by
  have hfr := h.frame b hb
  have hpc := h.pc a.proc
  clear h
  cases ht <;> grind [State.isBase, uthreadNewThread]

lemma waiter_step (m : Mid) (v : Tid) (hv : v ∈ (t.monitor m).waiterQueue) : ¬ s.isBase v := by
  have hw := h.waiter m
  have hpc := h.pc a.proc
  clear h
  cases ht <;> grind [List.mem_of_mem_tail]

lemma joiner_step (v j : Tid) (hj : (t.tcb v).joiner = .thread j) : ¬ s.isBase j := by
  rcases ht.joiner_cases v with e | ⟨-, e⟩ | ⟨hpc, e⟩ | ⟨-, e⟩
  · exact h.joiner v j (e ▸ hj)
  · simp [e] at hj
  · obtain rfl : (s.proc a.proc).thread = j := by simpa [e] using hj
    intro hb
    have := h.pc a.proc hb
    simp [hpc, Pc.idle] at this
  · simp [e] at hj

lemma extra_step (p : Fin N) (v : Tid) (hv : v ∈ (t.proc p).pc.extra) : ¬ t.isBase v := by
  by_cases hp : p = a.proc
  · subst hp
    have hx := h.extra a.proc v
    have hj := h.joiner
    have hw := fun m => h.waiter m v
    rw [ht.isBase_iff]
    clear h
    cases ht <;> grind [State.isBase, List.mem_of_mem_head?]
  · rw [ht.proc_of_ne hp] at hv
    rw [ht.isBase_iff]
    exact h.extra p v hv

lemma located_step (b : Tid) (hb : s.isBase b) :
    b ∈ t.readyQueue ∨ ∃ p, b ∈ (t.proc p).carries := by
  rcases h.located b hb with hr | ⟨p, hp⟩
  · exact (ht.ready_cases hr).imp_right fun hc => ⟨_, hc⟩
  · by_cases hpa : p = a.proc
    · subst hpa
      rcases ht.carried_cases hp with hc | hc | ⟨rfl, ⟨q, w, -, hcan⟩ | hpc⟩
      · exact .inr ⟨_, hc⟩
      · exact .inl hc
      · simp [hb.2, StartProc.can] at hcan
      · exact absurd (h.pc _ hb) hpc
    · exact .inr ⟨p, by rwa [ht.proc_of_ne hpa]⟩

lemma asserted_step (p : Fin N) : (t.proc p).pc ≠ .aborted .toThread := by
  by_cases hp : p = a.proc
  · subst hp
    have hne : ∀ c, (s.proc a.proc).pc = .stopDequeue c → s.readyQueue ≠ [] :=
      fun _ => h.readyQueue_ne_nil
    have hpc := h.asserted a.proc
    clear h
    cases ht <;> grind [Site.return_cases, Starter.return_cases]
  · exact ht.proc_of_ne hp ▸ h.asserted p

/-- **The base threads stay idle.** -/
theorem step : Idle t where
  base b h₀ hN := (ht.isBase_iff b).mpr (h.base b h₀ hN)
  pc p hb := h.pc_step ht p ((ht.isBase_iff _).mp hb)
  frame b hb := h.frame_step ht b ((ht.isBase_iff b).mp hb)
  waiter m v hv hb := h.waiter_step ht m v hv ((ht.isBase_iff v).mp hb)
  joiner v j hj hb := h.joiner_step ht v j hj ((ht.isBase_iff j).mp hb)
  extra := h.extra_step ht
  located b hb := h.located_step ht b ((ht.isBase_iff b).mp hb)
  asserted := h.asserted_step ht

end Idle

/-- **The base threads are idle at the start.** -/
theorem idle_init : Idle (init N) where
  base b h₀ hN := by
    refine ⟨Nat.lt_succ_of_le hN, ?_⟩
    simp only [init, initTcb]
    grind [uthreadNewThread, uthreadAlloc]
  pc p _ := by simp [init, Pc.idle]
  frame b _ := by
    simp only [init, initTcb]
    grind [uthreadNewThread, uthreadAlloc]
  waiter := by simp [init, uthreadMonitorCreate]
  joiner v j hj := by simp [joiner_init] at hj
  extra := by simp [init, Pc.extra]
  located b hb := by
    obtain ⟨hlt, hsp⟩ := hb
    have h0 : b ≠ 0 := by
      rintro rfl
      simp [init, initTcb, uthreadAlloc] at hsp
    by_cases h1 : b = 1
    · exact .inl (h1 ▸ List.mem_singleton.mpr rfl)
    · obtain ⟨k, rfl⟩ : ∃ k, b = k + 2 := Nat.exists_eq_add_of_le' (by grind)
      refine .inr ⟨⟨k + 1, Nat.lt_of_succ_lt_succ hlt⟩, ?_⟩
      simp [init, Proc.carries, Pc.carries]
  asserted p := by simp [init]

end Uthread
