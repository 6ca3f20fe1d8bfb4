import Cs213.Uthread.Frames
import Cs213.Uthread.Lifetime
import Cs213.Uthread.SpinCycle

set_option relaxedAutoImplicit false
set_option autoImplicit false

/-!
# How the thread system can come to a halt

A processor waits in three kinds of loops: for a thread that is still running, in `uthread_switch`,
and for a spinlock of a thread or of a monitor. Who holds a spinlock goes on and unlocks it, unless
the block of the thread has been freed with the spinlock locked. So if no processor goes on, some of
them spin in a cycle, or one of them wants the spinlock of a block that has been freed.

## Main definitions

* `Uthread.Proceeds` — a processor is not waiting.
* `Uthread.WaitsForFreed` — a processor waits for the spinlock of a block that has been freed.
* `Uthread.Attended` — whatever processors wait for is in the hands of a processor.

## Main results

* `Uthread.Attended.step` — one step.
* `Uthread.proceeds_of_run` — every run.
* `Uthread.spinCycle_of_run` — a cycle of spinning processors is for ever.
-/

namespace Uthread

open Runs Relation

variable {N : ℕ} {s t : State N} {a : Act N}

/-- Processor `p` is in the spin loop of `uthread_switch`, and goes round once more. -/
def Spins (s : State N) (p : Fin N) : Prop :=
  ∃ c u, (s.proc p).pc = .switchSpin c u ∧ (s.tcb u).state = .running

/-- **Processor `p` is not waiting**: it executes the code of a thread, or has a step in `uthread.c`
other than a round of the spin loop. -/
def Proceeds (s : State N) (p : Fin N) : Prop :=
  (s.proc p).pc = .user ∨ (step s (.run p)).isSome ∧ ¬ Spins s p

/-- A processor that completes an exit waits for the join spinlock of a block that has been
freed. -/
def WaitsForFreed (s : State N) : Prop :=
  ∃ p T f, (s.proc p).pc = .dyingLock T f ∧ 0 < (s.tcb T).freed ∧ (s.tcb T).joinSpinlock = true

/-! ## Who is waited for -/

/-- **What processors wait for is in the hands of a processor.** -/
structure Attended (s : State N) : Prop where
  /-- A join spinlock that is locked is held, or is that of a block that is about to be freed or
  has been. -/
  join : ∀ T, (s.tcb T).joinSpinlock = true → (∃ p, (s.proc p).pc.joinHeld = some T) ∨
    (∃ p, (s.proc p).pc.found = some T) ∨ 0 < (s.tcb T).freed
  /-- A monitor's spinlock that is locked is held, or an assertion has failed under it. -/
  monitor : ∀ m, (s.monitor m).spinlock = true → (∃ p, (s.proc p).pc.monitorHeld = some m) ∨
    ∃ p, (s.proc p).pc = .aborted .holder
  /-- A thread that is running is executed. -/
  running : ∀ u, (s.tcb u).state = .running → ∃ p, (s.proc p).thread = u
  /-- No processor switches to the thread that it executes. -/
  other : ∀ p c u, (s.proc p).pc = .switchSpin c u → u ≠ (s.proc p).thread

section Effects

variable (h : Trans s a t)

include h

/-- After a step a join spinlock that is locked is held by this processor, or was locked before. -/
lemma Trans.joinSpinlock_next {T : Tid} (hl : (t.tcb T).joinSpinlock = true) :
    (t.proc a.proc).pc.joinHeld = some T ∨ (t.proc a.proc).pc.found = some T ∨
      0 < (t.tcb T).freed ∨ (s.tcb T).joinSpinlock = true ∧ (s.tcb T).freed = 0 ∧
        (s.proc a.proc).pc.joinHeld ≠ some T ∧ (s.proc a.proc).pc.found ≠ some T := by
  cases h <;> grind [uthreadNewThread, uthreadAlloc]

lemma Trans.spinlock_next {m : Mid} (hl : (t.monitor m).spinlock = true) :
    (t.proc a.proc).pc.monitorHeld = some m ∨ (t.proc a.proc).pc = .aborted .holder ∨
      (s.monitor m).spinlock = true ∧ (s.proc a.proc).pc.monitorHeld ≠ some m ∧
        (s.proc a.proc).pc ≠ .aborted .holder := by
  cases h <;> grind

/-- The thread that is switched away from is not running. -/
lemma Trans.not_running_of_switchSwap {c : Site} {u : Tid}
    (hpc : (s.proc a.proc).pc = .switchSwap c u) :
    (t.tcb (s.proc a.proc).thread).state ≠ .running := by
  have hsite : ∀ c : Site, c.stoppingThreadState ≠ .running := by
    intro c
    cases c <;> simp [Site.stoppingThreadState]
  cases h <;> simp_all

end Effects

namespace Attended

variable (h : Attended s) (ht : Trans s a t)

include h ht

lemma join_step (T : Tid) (hl : (t.tcb T).joinSpinlock = true) :
    (∃ p, (t.proc p).pc.joinHeld = some T) ∨ (∃ p, (t.proc p).pc.found = some T) ∨
      0 < (t.tcb T).freed := by
  rcases ht.joinSpinlock_next hl with hp | hp | hf | ⟨hl, hf, hj, hfound⟩
  · exact .inl ⟨_, hp⟩
  · exact .inr (.inl ⟨_, hp⟩)
  · exact .inr (.inr hf)
  · rcases h.join T hl with ⟨p, hp⟩ | ⟨p, hp⟩ | hpos
    · have hne : p ≠ a.proc := by
        rintro rfl
        exact hj hp
      exact .inl ⟨p, ht.proc_of_ne hne ▸ hp⟩
    · have hne : p ≠ a.proc := by
        rintro rfl
        exact hfound hp
      exact .inr (.inl ⟨p, ht.proc_of_ne hne ▸ hp⟩)
    · exact absurd hf hpos.ne'

lemma monitor_step (m : Mid) (hl : (t.monitor m).spinlock = true) :
    (∃ p, (t.proc p).pc.monitorHeld = some m) ∨ ∃ p, (t.proc p).pc = .aborted .holder := by
  rcases ht.spinlock_next hl with hp | hp | ⟨hl, hm, hab⟩
  · exact .inl ⟨_, hp⟩
  · exact .inr ⟨_, hp⟩
  · rcases h.monitor m hl with ⟨p, hp⟩ | ⟨p, hp⟩
    · have hne : p ≠ a.proc := by
        rintro rfl
        exact hm hp
      exact .inl ⟨p, ht.proc_of_ne hne ▸ hp⟩
    · have hne : p ≠ a.proc := by
        rintro rfl
        exact hab hp
      exact .inr ⟨p, ht.proc_of_ne hne ▸ hp⟩

lemma running_step (u : Tid) (hu : (t.tcb u).state = .running) : ∃ p, (t.proc p).thread = u := by
  have hstay : (s.proc a.proc).thread = u → (t.proc a.proc).thread = u := by
    rintro rfl
    exact ht.thread.resolve_right fun ⟨c, hpc⟩ => ht.not_running_of_switchSwap hpc hu
  rcases ht.state_cases u with e | ⟨-, e⟩ | ⟨rfl, c, v, hpc, -⟩ | ⟨rfl, -⟩ | ⟨-, e⟩ | ⟨-, e⟩
  · obtain ⟨p, hp⟩ := h.running u (e ▸ hu)
    by_cases hpa : p = a.proc
    · exact ⟨a.proc, hstay (hpa ▸ hp)⟩
    · exact ⟨p, ht.proc_of_ne hpa ▸ hp⟩
  · simp [hu] at e
  · exact absurd hu (ht.not_running_of_switchSwap hpc)
  · exact ⟨a.proc, hstay rfl⟩
  · simp [hu] at e
  · simp [hu] at e

lemma other_step (p : Fin N) (c : Site) (u : Tid) (hpc : (t.proc p).pc = .switchSpin c u) :
    u ≠ (t.proc p).thread := by
  by_cases hp : p = a.proc
  · subst hp
    obtain ⟨hth, hs | ⟨-, hd⟩⟩ := ht.spin_cases hpc
    · exact hth ▸ h.other a.proc c u hs
    · obtain ⟨-, -, -, hne, -⟩ := step_of_dequeues hd
      exact hth ▸ hne
  · rw [ht.proc_of_ne hp] at hpc ⊢
    exact h.other p c u hpc

/-- **One step.** -/
theorem step : Attended t where
  join := h.join_step ht
  monitor := h.monitor_step ht
  running := h.running_step ht
  other := h.other_step ht

end Attended

lemma attended_init (hN : 0 < N) : Attended (init N) where
  join T hl := by
    simp only [init, initTcb] at hl
    grind [uthreadNewThread, uthreadAlloc]
  monitor m hl := by simp [init, uthreadMonitorCreate] at hl
  running u hu := by
    by_cases h0 : u = 0
    · exact ⟨⟨0, hN⟩, by simp [init, h0]⟩
    · have hu2 : u ≠ 1 ∧ u ≤ N := by
        simp only [init, initTcb] at hu
        grind [uthreadNewThread, uthreadAlloc]
      obtain ⟨k, rfl⟩ : ∃ k, u = k + 2 := Nat.exists_eq_add_of_le' (by grind)
      exact ⟨⟨k + 1, hu2.2⟩, by simp [init]⟩
  other p c u hpc := by simp [init] at hpc

/-! ## Processors that do not proceed -/

/-- `uthread_monitor_enter` and `uthread_monitor_exit` go on if the spinlock is free. -/
lemma isSome_monitorEnter {p : Fin N} {m : Mid} (h : (s.monitor m).spinlock = false) :
    (monitorEnter s p m).isSome := by
  rw [monitorEnter]
  cases (s.monitor m).holder <;> simp [h]

lemma isSome_monitorExit {p : Fin N} {m : Mid} (h : (s.monitor m).spinlock = false) :
    (monitorExit s p m).isSome := by
  by_cases hh : (s.monitor m).holder = some (s.proc p).thread <;> simp [monitorExit, h, hh]

/-- The thread whose join spinlock a program point is about to lock. -/
def Pc.locks : Pc → Option Tid
  | .dyingLock T _ | .joinLock T | .detachLock T => some T
  | _ => none

/-- The monitor whose spinlock a program point is about to lock. -/
def Pc.monitorLocks : Pc → Option Mid
  | .enterLock m | .enterRelock m | .exitLock m => some m
  | _ => none

/-- A processor that does not proceed, in code that it should be in, waits for a thread or for a
spinlock. -/
lemma not_proceeds_cases {p : Fin N} (h : ¬ Proceeds s p) :
    (s.proc p).pc = .wild ∨ (∃ x, (s.proc p).pc = .aborted x) ∨ Spins s p ∨
      (∃ T, (s.proc p).pc.locks = some T ∧ (s.tcb T).joinSpinlock = true) ∨
      ∃ m, (s.proc p).pc.monitorLocks = some m ∧ (s.monitor m).spinlock = true := by
  by_contra hcon
  push Not at hcon
  obtain ⟨hw, hab, hs, hj, hm⟩ := hcon
  refine h (or_iff_not_imp_left.mpr fun hu => ⟨?_, hs⟩)
  rw [step]
  cases hpc : (s.proc p).pc with
  | user => exact absurd hpc hu
  | wild => exact absurd hpc hw
  | aborted x => exact absurd hpc (hab x)
  | enterLock m | enterRelock m =>
    exact isSome_monitorEnter (Bool.eq_false_of_not_eq_true (hm m (by rw [hpc, Pc.monitorLocks])))
  | exitLock m =>
    exact isSome_monitorExit (Bool.eq_false_of_not_eq_true (hm m (by rw [hpc, Pc.monitorLocks])))
  | dyingLock T f | joinLock T | detachLock T =>
    have hl := hj T (by rw [hpc, Pc.locks])
    simp [exec, hl]
  | dyingJoiner T f => cases hj : (s.tcb T).joiner <;> simp [exec, hj]
  | switchSpin c u => by_cases hr : (s.tcb u).state = .running <;> simp [exec, hr]
  | _ => rfl

/-- Who holds a spinlock, or is about to free a block, proceeds. -/
lemma proceeds_of_held {p : Fin N} (h : (s.proc p).pc.joinHeld ≠ none ∨
    (s.proc p).pc.found ≠ none ∨ (s.proc p).pc.monitorHeld ≠ none) : Proceeds s p := by
  by_contra hp
  rcases not_proceeds_cases hp with hpc | ⟨x, hpc⟩ | ⟨c, u, hpc, -⟩ | ⟨T, hpc, -⟩ | ⟨m, hpc, -⟩
  · simp [hpc, Pc.joinHeld, Pc.found, Pc.monitorHeld] at h
  · simp [hpc, Pc.joinHeld, Pc.found, Pc.monitorHeld] at h
  · simp [hpc, Pc.joinHeld, Pc.found, Pc.monitorHeld] at h
  · cases hc : (s.proc p).pc <;>
      simp_all [Pc.locks, Pc.joinHeld, Pc.found, Pc.monitorHeld]
  · cases hc : (s.proc p).pc <;>
      simp_all [Pc.monitorLocks, Pc.joinHeld, Pc.found, Pc.monitorHeld]

/-- A call that locks the join spinlock of a thread is about to use the handle, or completes the
exit of the thread. -/
lemma Pc.locks_cases {pc : Pc} {T : Tid} (h : pc.locks = some T) :
    pc.handle = some T ∧ pc.found = none ∨ ∃ f, pc = .dyingLock T f := by
  cases pc <;> simp_all [Pc.locks, Pc.handle, Pc.found]

/-! ## Every run -/

section Run

variable {acts : List (Act N)} (hN : 0 < N) (hone : (acts.filterMap Act.handle).Nodup)
  (hC : AllSteps step (fun s a => ¬ Rewakes (fun _ => True) s a ∧ ¬ FreesLocked s a)
    (init N) acts) (hr : run step (init N) acts = some s)

include hN in
/-- What is waited for is in the hands of a processor, in every run. -/
lemma attended_of_run (hr : run step (init N) acts = some s) : Attended s :=
  invariant (fun _ _ _ h _ ht => h.step (trans_of_step ht)) (attended_init hN)
    (allSteps_true _ acts) hr

include hone hC hr hN

/-- **What the thread system comes to a halt by**: in every state of every run in which no assertion
has failed, some processor proceeds, or processors spin in a cycle, or one waits for the spinlock of
a block that has been freed. -/
theorem proceeds_of_run (hab : ∀ p x, (s.proc p).pc ≠ .aborted x) :
    (∃ p, Proceeds s p) ∨ SpinCycle s ∨ WaitsForFreed s := by
  have hatt := attended_of_run hN hr
  obtain ⟨-, hlife, -⟩ := lifetime_of_run hN hone hC hr
  have htame := (counted_of_run hN (hC.mono fun _ _ h => h.1) hr).2.framed.tame
  by_contra hcon
  push Not at hcon
  obtain ⟨hno, hcycle, hfree⟩ := hcon
  -- nobody waits for a spinlock
  have hspins : ∀ p, Spins s p := by
    intro p
    rcases not_proceeds_cases (hno p) with hpc | ⟨x, hpc⟩ | hs | ⟨T, hpc, hl⟩ | ⟨m, hpc, hl⟩
    · exact absurd hpc (htame p)
    · exact absurd hpc (hab p x)
    · exact hs
    · exfalso
      rcases hatt.join T hl with ⟨q, hq⟩ | ⟨q, hq⟩ | hf
      · exact hno q (proceeds_of_held (.inl (by simp [hq])))
      · exact hno q (proceeds_of_held (.inr (.inl (by simp [hq]))))
      · rcases Pc.locks_cases hpc with ⟨hh, -⟩ | ⟨f, hpc⟩
        · exact (hlife.freed T hf).2.1 _ (busy_of_handle hh)
        · exact hfree ⟨p, T, f, hpc, hf, hl⟩
    · exfalso
      rcases hatt.monitor m hl with ⟨q, hq⟩ | ⟨q, hq⟩
      · exact hno q (proceeds_of_held (.inr (.inr (by simp [hq]))))
      · exact hab q _ hq
  -- so everybody waits for a thread that somebody executes
  have hne : Nonempty (Fin N) := ⟨⟨0, hN⟩⟩
  refine hcycle (WaitGraph.exists_cycle fun p => ?_)
  obtain ⟨c, u, hpc, hu⟩ := hspins p
  obtain ⟨q, rfl⟩ := hatt.running u hu
  refine ⟨q, ?_, c, hpc⟩
  rintro rfl
  exact hatt.other p c _ hpc rfl

end Run

/-- On two processors: thread `0` has locked monitor `0` and thread `3`, on processor `1`, waits for
its spinlock. -/
def contends : List (Act 2) :=
  [.call 0 .create, .run 0, .call 1 .yield] ++ runs 1 6 ++ [.call 1 .yield] ++ runs 1 6 ++
  [.call 0 (.enter 0), .run 0, .call 1 (.enter 0)]

lemma contends_last : (run step (init 2) contends).map (fun s => ((s.proc 0).pc, (s.proc 1).pc,
    (step s (.run 1)).isSome)) = some (.enterUnlock 0, .enterLock 0, false) := by
  decide +kernel

theorem proceeds_contends : (run step (init 2) contends).isSome ∧
    ∀ s, run step (init 2) contends = some s →
      ¬ Proceeds s 1 ∧ ((∃ p, Proceeds s p) ∨ SpinCycle s ∨ WaitsForFreed s) := by
  refine ⟨by decide +kernel, fun s hs => ?_⟩
  have hlast := contends_last
  rw [hs, Option.map_some, Option.some.injEq, Prod.mk.injEq, Prod.mk.injEq] at hlast
  obtain ⟨h₀, h₁, hstep⟩ := hlast
  have hab : ∀ p x, (s.proc p).pc ≠ .aborted x := by
    simp [Fin.forall_fin_two, h₀, h₁]
  refine ⟨?_, proceeds_of_run (by decide) (by decide) (by decide +kernel) hs hab⟩
  rintro (hpc | ⟨hsome, -⟩)
  · rw [h₁] at hpc
    cases hpc
  · rw [hstep] at hsome
    cases hsome

/-! ## A cycle is for ever -/

/-- A processor that waits for one that spins is in the spin loop for a running thread. -/
lemma Inv.spins_of_waits (h : Inv (fun _ => True) s) {p q r : Fin N} (hpq : Waits s p q)
    (hqr : Waits s q r) : Spins s p := by
  obtain ⟨-, c, hpc⟩ := hpq
  obtain ⟨-, d, hqd⟩ := hqr
  exact ⟨c, _, hpc, h.owned.running q trivial (by rw [hqd, Pc.frame])⟩

/-- A processor that spins does not move. -/
lemma Spins.proc_eq {p : Fin N} (h : Spins s p) (ht : step s a = some t) :
    t.proc p = s.proc p := by
  obtain ⟨c, u, hpc, hu⟩ := h
  by_cases hp : p = a.proc
  · subst hp
    cases a with
    | call q op =>
      rw [Act.proc_call] at hpc
      simp [step, hpc] at ht
    | run q =>
      rw [Act.proc_run] at hpc
      simp only [step, hpc, exec, if_pos hu, Option.some.injEq] at ht
      rw [ht]
  · exact (trans_of_step ht).proc_of_ne hp

/-- The processors on a cycle through `p`. -/
def OnCycle (s : State N) (p q : Fin N) : Prop :=
  ReflTransGen (Waits s) p q ∧ ReflTransGen (Waits s) q p

/-- A processor on a cycle waits for the next one. -/
lemma OnCycle.next {p q : Fin N} (hp : TransGen (Waits s) p p) (hq : OnCycle s p q) :
    ∃ r, Waits s q r ∧ OnCycle s p r := by
  have hgo : TransGen (Waits s) q p := TransGen.trans_right hq.2 hp
  obtain ⟨r, hqr, hr⟩ := TransGen.head'_iff.mp hgo
  exact ⟨r, hqr, hq.1.tail hqr, hr⟩

section Forever

variable {p : Fin N} (hp : TransGen (Waits s) p p)
  (heq : ∀ q, OnCycle s p q → t.proc q = s.proc q)

include heq

/-- Who waits for whom is given by the processors alone. -/
lemma OnCycle.waits {q r : Fin N} (hq : OnCycle s p q) (hr : OnCycle s p r)
    (h : Waits s q r) : Waits t q r := by
  obtain ⟨hne, c, hpc⟩ := h
  exact ⟨hne, c, by rw [heq q hq, heq r hr, hpc]⟩

/-- The cycle is still there when its processors have not moved. -/
lemma OnCycle.transGen (hp : TransGen (Waits s) p p) : TransGen (Waits t) p p := by
  have hpath : ∀ q, ReflTransGen (Waits s) p q → ReflTransGen (Waits s) q p →
      ReflTransGen (Waits t) q p := by
    intro q hq hqp
    induction hqp using ReflTransGen.head_induction_on with
    | refl => exact .refl
    | @head q r hqr hrp ih =>
      have hr := hq.tail hqr
      exact .head (OnCycle.waits heq ⟨hq, .head hqr hrp⟩ ⟨hr, hrp⟩ hqr) (ih hr)
  have hself : OnCycle s p p := ⟨.refl, .refl⟩
  obtain ⟨r, hpr, hr⟩ := hself.next hp
  exact .head' (hself.waits heq hr hpr) (hpath r hr.1 hr.2)

end Forever

/-- **A cycle is for ever**: however a run goes on in which no joiner is woken up twice, the
processors on a cycle stay where they are, and wait for each other. -/
theorem spinCycle_of_run (hN : 0 < N) {acts more : List (Act N)}
    (hC : AllSteps step (fun s a => ¬ Rewakes (fun _ => True) s a) (init N) (acts ++ more))
    (hs : run step (init N) acts = some s) (ht : run step s more = some t) {p : Fin N}
    (hp : TransGen (Waits s) p p) :
    TransGen (Waits t) p p ∧ ∀ q, OnCycle s p q → t.proc q = s.proc q := by
  obtain ⟨hC, hC'⟩ := allSteps_append.mp hC
  have hinv := (inv_of_run hN (fun _ _ => trivial) hC).last hs
  have hrun : Inv (fun _ => True) t ∧ ∀ q, OnCycle s p q → t.proc q = s.proc q := by
    refine invariant (I := fun t => Inv (fun _ => True) t ∧ ∀ q, OnCycle s p q →
      t.proc q = s.proc q) ?_ ⟨hinv, fun _ _ => rfl⟩ (hC' s hs) ht
    rintro t a u ⟨hi, heq⟩ ha hu
    refine ⟨hi.step (fun _ _ => trivial) ha hu, fun q hq => ?_⟩
    -- the next processor on the cycle spins too, so the thread that it executes is running
    obtain ⟨r, hqr, hr⟩ := hq.next hp
    obtain ⟨v, hrv, hv⟩ := hr.next hp
    have hspins := hi.spins_of_waits (hq.waits heq hr hqr) (hr.waits heq hv hrv)
    rw [hspins.proc_eq hu, heq q hq]
  exact ⟨OnCycle.transGen hrun.2 hp, hrun.2⟩

/-- The cycle of two processors, while the third one goes on. -/
theorem spinCycle_spin : (run step (init 3) (spin ++ runs 2 4)).isSome ∧
    ∀ s t, run step (init 3) spin = some s → run step s (runs 2 4) = some t →
      TransGen (Waits t) 0 0 ∧ ∀ q, OnCycle s 0 q → t.proc q = s.proc q := by
  refine ⟨by decide +kernel, fun s t hs ht => ?_⟩
  have hlast := spin_last
  rw [hs, Option.map_some, Option.some.injEq] at hlast
  simp only [Prod.mk.injEq] at hlast
  obtain ⟨h0, h1, -⟩ := hlast
  have h01 : Waits s 0 1 := ⟨by decide, .yield, by rw [h0, h1]⟩
  have h10 : Waits s 1 0 := ⟨by decide, .yield, by rw [h0, h1]⟩
  exact spinCycle_of_run (by decide) (by decide +kernel) hs ht (.head h01 (.single h10))

end Uthread
