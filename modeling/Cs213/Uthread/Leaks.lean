import Cs213.Uthread.Calls
import Cs213.Uthread.JoinValues

set_option relaxedAutoImplicit false
set_option autoImplicit false

/-!
# Which blocks are freed

A thread control block is freed by the join of the thread, or by its detachment and its exit,
whichever comes last. So when a thread has exited, and the call that its handle was used in has
returned, its block has been freed. The block of a thread whose handle is not used is never freed.

## Main definitions

* `Uthread.Pc.completes` — the thread whose exit a processor completes.
* `Uthread.Reclaimed` — who is going to free a block that has not been freed.

## Main results

* `Uthread.Reclaimed.step` — one step.
* `Uthread.freed_of_run` — every run.
-/

namespace Uthread

open Runs

variable {N : ℕ} {s t : State N} {a : Act N}

/-- The thread whose exit a processor is going to complete, or is in the middle of. -/
@[grind] def Pc.completes : Pc → Option Tid
  | .switchDying t _ => some t
  | pc => pc.reaps

@[simp, grind =] lemma Site.completes_return (c : Site) : c.return.completes = none := by
  cases c <;> rfl

@[simp, grind =] lemma Starter.completes_return (r : Starter) :
    r.return.completes = r.wakes := by
  cases r <;> rfl

lemma Site.eq_join {c : Site} {T : Tid} (h : c.joined = some T) : c = .join T := by
  cases c <;> simp_all [Site.joined]

lemma Frame.eq_join {f : Frame} {T : Tid} (h : f.joined = some T) : f = .inside (.join T) := by
  cases f with
  | inside c => rw [Site.eq_join h]
  | null | fresh => cases h

/-- Nobody frees the block of `T` any more: its exit is complete, and no thread is in a call that
uses the handle. -/
structure Settled (T : Tid) (s : State N) : Prop where
  exited : s.exited T
  completed : ∀ p, (s.proc p).pc.completes ≠ some T
  unused : ∀ J, ¬ Busy s T J

/-- **Who frees a block**, in runs in which every handle is used once. -/
structure Reclaimed (acts : List (Act N)) (s : State N) : Prop where
  /-- The exit of a dying thread is going to be completed, or its block has been freed. -/
  dying : ∀ T, (s.tcb T).state = .dying →
    (∃ p, (s.proc p).pc.completes = some T) ∨ 0 < (s.tcb T).freed
  /-- When the exit of a thread unlocks, the thread is dead. -/
  unlocking : ∀ p T f, (s.proc p).pc = .dyingUnlock T f → (s.tcb T).state = .dead
  /-- The exit of a detached thread does not make it `TS_DEAD`, and no dead thread is detached. -/
  dead : ∀ p T f, (s.proc p).pc = .dyingDead T f → (s.tcb T).joiner ≠ .detached
  detaching : ∀ p T, (s.proc p).pc = .detachSet T → (s.tcb T).state ≠ .dead
  detached : ∀ T, (s.tcb T).joiner = .detached → (s.tcb T).state ≠ .dead
  /-- `uthread_detach` has stored before it unlocks. -/
  stored : ∀ p T, (s.proc p).pc = .detachUnlock T → (s.tcb T).joiner = .detached
  /-- A handle that has been used is still in use, unless the block has been freed or is left to
  the exit of the thread. -/
  called : ∀ T, 0 < calls T acts →
    (∃ J, Busy s T J) ∨ 0 < (s.tcb T).freed ∨ (s.tcb T).joiner = .detached

section Effects

variable (h : Trans s a t) {T : Tid}

include h

/-- A block that has been freed stays freed. -/
lemma Trans.freed_mono (hT : T ≠ s.fresh) (hf : 0 < (s.tcb T).freed) : 0 < (t.tcb T).freed := by
  cases h <;> grind

/-- The exit of a thread goes on until the block has been freed, or the thread is dead. -/
lemma Trans.completes_cases (hc : (s.proc a.proc).pc.completes = some T)
    (hd : (s.tcb T).state = .dying) : (t.proc a.proc).pc.completes = some T ∨
      0 < (t.tcb T).freed ∨ (t.tcb T).state ≠ .dying ∨
        ∃ f, (s.proc a.proc).pc = .dyingUnlock T f := by
  cases h <;> grind [Pc.completes]

/-- A processor switches away from a thread that exits in order to complete the exit. -/
lemma Trans.completes_of_switchSwap {c : Site} {u : Tid}
    (hpc : (s.proc a.proc).pc = .switchSwap c u) :
    (t.proc a.proc).pc.completes = some (s.proc a.proc).thread := by
  cases h <;> grind [Pc.completes]

lemma Trans.dyingUnlock_cases {f : Frame} (hpc : (t.proc a.proc).pc = .dyingUnlock T f) :
    (t.tcb T).state = .dead := by
  cases h <;> grind [Site.return_cases, Starter.return_cases]

lemma Trans.detachSet_cases (hpc : (t.proc a.proc).pc = .detachSet T) :
    (t.tcb T).state ≠ .dead := by
  cases h <;> grind [Site.return_cases, Starter.return_cases]

lemma Trans.detachUnlock_cases (hpc : (t.proc a.proc).pc = .detachUnlock T) :
    (t.tcb T).joiner = .detached := by
  cases h <;> grind [Site.return_cases, Starter.return_cases]

/-- A call passes a handle on to the steps that follow. -/
lemma Trans.handle_of_call (ha : a.handle = some T) : (t.proc a.proc).pc.handle = some T := by
  cases h <;> grind

/-- How a call on a handle ends that is not about to find a joiner. -/
lemma Trans.handle_next (hh : (s.proc a.proc).pc.handle = some T)
    (hb : (s.proc a.proc).pc.before = some T → (s.tcb T).joiner = .null)
    (hn : ∀ f, (s.proc a.proc).pc = .switchResume f → f.joined = some T →
      (s.tcb (s.proc a.proc).thread).state ≠ .nascent)
    (hr : ∀ c, (s.proc a.proc).pc = .stopDequeue c → s.readyQueue ≠ []) :
    (t.proc a.proc).thread = (s.proc a.proc).thread ∧ (t.proc a.proc).pc.handle = some T ∨
      (∃ u, (s.proc a.proc).pc = .switchSwap (.join T) u) ∨ 0 < (t.tcb T).freed ∨
        (s.proc a.proc).pc = .detachUnlock T := by
  cases h <;> grind [Site.eq_join, Frame.eq_join]

end Effects

/-! ## One step -/

/-- A busy thread is followed through its call, also while it is stopped. -/
lemma Busy.inCall {T J : Tid} (h : Busy s T J) :
    InCall s J (fun pc => pc.handle = some T) (.join T) := by
  rcases h with ⟨p, hp, hh⟩ | ⟨hoff, hsp⟩
  · exact .inl ⟨p, hp, hh⟩
  · exact .inr ⟨hoff, Frame.eq_join hsp⟩

lemma busy_of_inCall {T J : Tid} (h : InCall s J (fun pc => pc.handle = some T) (.join T)) :
    Busy s T J := by
  rcases h with ⟨p, hp, hh⟩ | ⟨hoff, hsp⟩
  · exact .inl ⟨p, hp, hh⟩
  · exact .inr ⟨hoff, by rw [hsp]; rfl⟩

namespace Reclaimed

variable {acts : List (Act N)} (h : Reclaimed acts s) (hi : Inv (fun _ => True) s)
  (hsv : Saved s) (hL : Lifetime acts s) (he : ExitLaw acts s) (ht : Trans s a t) {T : Tid}

include ht hi

include h in
lemma dying_step (hd : (t.tcb T).state = .dying) :
    (∃ p, (t.proc p).pc.completes = some T) ∨ 0 < (t.tcb T).freed := by
  rcases ht.state_cases T with e | ⟨-, e⟩ | ⟨rfl, c, u, hpc, -⟩ | ⟨-, -, e⟩ | ⟨-, e⟩ | ⟨-, e⟩
  · rw [e] at hd
    rcases h.dying T hd with ⟨p, hc⟩ | hf
    · by_cases hp : p = a.proc
      · subst hp
        rcases ht.completes_cases hc hd with hc | hf | hne | ⟨f, hpc⟩
        · exact .inl ⟨_, hc⟩
        · exact .inr hf
        · exact absurd (e.trans hd) hne
        · simp [h.unlocking _ T f hpc] at hd
      · exact .inl ⟨p, ht.proc_of_ne hp ▸ hc⟩
    · have hT : T ≠ s.fresh := by
        rintro rfl
        simp [hi.allocated.unused _ le_rfl, uthreadAlloc] at hf
      exact .inr (ht.freed_mono hT hf)
  · simp [e] at hd
  · exact .inl ⟨_, ht.completes_of_switchSwap hpc⟩
  all_goals simp [e] at hd

include h in
lemma unlocking_step (p : Fin N) (f : Frame) (hpc : (t.proc p).pc = .dyingUnlock T f) :
    (t.tcb T).state = .dead := by
  by_cases hp : p = a.proc
  · exact ht.dyingUnlock_cases (hp ▸ hpc)
  · rw [ht.proc_of_ne hp] at hpc
    exact hi.owned.dead_mono hi.allocated ht (h.unlocking p T f hpc)

include h he in
lemma dead_step (p : Fin N) (f : Frame) (hpc : (t.proc p).pc = .dyingDead T f) :
    (t.tcb T).joiner ≠ .detached := by
  by_cases hp : p = a.proc
  · subst hp
    rcases ht.dyingDead_cases hpc with e | ⟨e, K, hpc⟩
    · simp [e]
    · rw [e, he.starts _ T K ⟨f, .inr (.inr hpc)⟩]
      simp
  · rw [ht.proc_of_ne hp] at hpc
    rw [hi.joinGuarded.joiner_eq hi.allocated ht hp (by rw [hpc, Pc.joinHeld])]
    exact h.dead p T f hpc

include h in
lemma detaching_step (p : Fin N) (hpc : (t.proc p).pc = .detachSet T) :
    (t.tcb T).state ≠ .dead := by
  by_cases hp : p = a.proc
  · exact ht.detachSet_cases (hp ▸ hpc)
  · rw [ht.proc_of_ne hp] at hpc
    exact hi.joinGuarded.ne_dead ht hp (by rw [hpc, Pc.joinHeld]) (h.detaching p T hpc)

omit hi in
include h in
lemma detached_step (hj : (t.tcb T).joiner = .detached) : (t.tcb T).state ≠ .dead := by
  have hcase : (s.tcb T).joiner = .detached ∨ (s.proc a.proc).pc = .detachSet T := by
    rcases ht.joiner_cases T with e | ⟨-, e⟩ | ⟨-, e⟩ | ⟨hpc, -⟩
    · exact .inl (e ▸ hj)
    · simp [e] at hj
    · simp [e] at hj
    · exact .inr hpc
  rcases ht.state_cases T with e | ⟨-, e⟩ | ⟨-, c, u, -, e⟩ | ⟨-, -, e⟩ | ⟨-, e⟩ | ⟨⟨f, hpc⟩, -⟩
  · rw [e]
    exact hcase.elim (h.detached T) (h.detaching _ T)
  · simp [e]
  · cases c <;> simp [e, Site.stoppingThreadState]
  · simp [e]
  · simp [e]
  · rcases hcase with hd | hpc'
    · exact absurd hd (h.dead _ T f hpc)
    · simp [hpc] at hpc'

include hL in
include h in
lemma stored_step (p : Fin N) (hpc : (t.proc p).pc = .detachUnlock T) :
    (t.tcb T).joiner = .detached := by
  by_cases hp : p = a.proc
  · exact ht.detachUnlock_cases (hp ▸ hpc)
  · rw [ht.proc_of_ne hp] at hpc
    have hj := h.stored p T hpc
    rw [hL.joiner_eq hi.allocated ht (by simp [hj]), hj]

include hsv hL in
include h in
/-- A call on a handle goes on, or the block is freed, or left to the exit of the thread. -/
lemma busy_step {J : Tid} (hJ : Busy s T J) :
    Busy t T J ∨ 0 < (t.tcb T).freed ∨ (t.tcb T).joiner = .detached := by
  refine (hJ.inCall.step hi.allocated hi.owned trivial ht ?_ fun _ => rfl).imp_left busy_of_inCall
  rintro rfl hh
  have hnext := ht.handle_next hh (fun hb => hL.before _ T hb) ?_
    fun c hpc => hi.idle.readyQueue_ne_nil hpc
  · rcases hnext with hs | hswap | hf | hpc
    · exact .inl hs
    · exact .inr (.inl hswap)
    · exact .inr (.inr (.inl hf))
    · have hj := h.stored _ T hpc
      exact .inr (.inr (.inr (by rw [hL.joiner_eq hi.allocated ht (by simp [hj]), hj])))
  · intro f hpc hf
    exact hsv.frame a.proc (.join T) (by rw [hpc, Pc.frame, Frame.eq_join hf])

include hsv hL in
include h in
lemma called_step (hc : 0 < calls T (acts ++ [a])) :
    (∃ J, Busy t T J) ∨ 0 < (t.tcb T).freed ∨ (t.tcb T).joiner = .detached := by
  rw [calls_concat] at hc
  by_cases hn : a.handle = some T
  · exact .inl ⟨_, busy_of_handle (ht.handle_of_call hn)⟩
  · rw [if_neg hn, Nat.add_zero] at hc
    rcases h.called T hc with ⟨J, hJ⟩ | hf | hj
    · exact (h.busy_step hi hsv hL ht hJ).imp_left fun hJ => ⟨J, hJ⟩
    · have hT : T ≠ s.fresh := by
        rintro rfl
        simp [hi.allocated.unused _ le_rfl, uthreadAlloc] at hf
      exact .inr (.inl (ht.freed_mono hT hf))
    · exact .inr (.inr (by rw [hL.joiner_eq hi.allocated ht (by simp [hj]), hj]))

include h hsv hL he in
/-- **One step.** -/
theorem step : Reclaimed (acts ++ [a]) t where
  dying _ := h.dying_step hi ht
  unlocking p _ := h.unlocking_step hi ht p
  dead p _ := h.dead_step hi he ht p
  detaching p _ := h.detaching_step hi ht p
  detached _ := h.detached_step ht
  stored p _ := h.stored_step hi hL ht p
  called _ := h.called_step hi hsv hL ht

end Reclaimed

lemma reclaimed_init : Reclaimed [] (init N) where
  dying T h := absurd (.inl h) (not_exited_init T)
  unlocking p T f h := by simp [init] at h
  dead p T f h := by simp [init] at h
  detaching p T h := by simp [init] at h
  detached T h := by simp [joiner_init] at h
  stored p T h := by simp [init] at h
  called T h := by simp [calls] at h

/-! ## Every run -/

section Run

variable {acts : List (Act N)} (hN : 0 < N) (hone : (acts.filterMap Act.handle).Nodup)
  (hC : AllSteps step (fun s a => ¬ Rewakes (fun _ => True) s a ∧ ¬ FreesLocked s a)
    (init N) acts) (hr : run step (init N) acts = some s)

include hN hone hC hr

/-- Who frees a block, in every run in which every handle is used once. -/
lemma reclaimed_of_run : Reclaimed acts s := by
  refine induct_lifetime (motive := Reclaimed) hN hone hC hr reclaimed_init ?_
  intro as a s t hr hi hL ih ht
  obtain ⟨-, -, he⟩ := exitLaw_of_run hN hr
  exact ih.step hi (saved_of_run hN hr) hL he (trans_of_step ht)

/-- **No block leaks, and none is freed without its handle**: once the exit of a thread is complete
and no thread is in a call on its handle, the block has been freed as often as the handle has been
used. -/
theorem freed_of_run {T : Tid} (hT : Settled T s) : (s.tcb T).freed = calls T acts := by
  obtain ⟨-, hL, -⟩ := lifetime_of_run hN hone hC hr
  have hR := reclaimed_of_run hN hone hC hr
  have hle : calls T acts ≤ 1 := List.nodup_iff_count_le_one.mp hone T
  by_cases hf : 0 < (s.tcb T).freed
  · have hcalled := hL.called T (.inl hf)
    rw [(hL.freed T hf).1]
    omega
  · -- the block has not been freed, so the handle has not been used
    suffices hc : ¬ 0 < calls T acts by omega
    intro hc
    rcases hR.called T hc with ⟨J, hJ⟩ | hf' | hd
    · exact hT.unused J hJ
    · exact hf hf'
    · rcases hT.exited with hx | hx
      · exact (hR.dying T hx).elim (fun ⟨p, hp⟩ => hT.completed p hp) hf
      · exact hR.detached T hd hx

end Run

/-- When thread `0` returns from its join of thread `2`, nobody uses the handle any more. -/
lemma settled_joinsDead {s : State 1} (hs : run step (init 1) joinsDead = some s) :
    Settled 2 s := by
  have hlast : (run step (init 1) joinsDead).map (fun s => ((s.proc 0).pc, (s.tcb 2).state,
      (s.tcb 2).joiner)) = some (.joinReturn false 2 (some 7), .dead, .null) := by
    decide +kernel
  rw [hs, Option.map_some, Option.some.injEq, Prod.mk.injEq, Prod.mk.injEq] at hlast
  obtain ⟨hpc, hd, hj⟩ := hlast
  refine ⟨.inr hd, fun p => ?_, fun J hJ => ?_⟩
  · rw [Fin.eq_zero p, hpc]
    simp [Pc.completes, Pc.reaps]
  · rcases hJ with ⟨p, -, hp⟩ | ⟨-, hsp⟩
    · simp [Fin.eq_zero p, hpc, Pc.handle] at hp
    · obtain ⟨-, hL, -⟩ := lifetime_of_run (by decide) (by decide) (by decide +kernel) hs
      simp [hL.stopped J 2 hsp] at hj

theorem freed_joinsDead : (run step (init 1) joinsDead).isSome ∧
    ∀ s, run step (init 1) joinsDead = some s → Settled 2 s ∧ (s.tcb 2).freed =
      calls 2 joinsDead :=
  ⟨by decide +kernel, fun _ hs => ⟨settled_joinsDead hs,
    freed_of_run (by decide) (by decide) (by decide +kernel) hs (settled_joinsDead hs)⟩⟩

end Uthread
