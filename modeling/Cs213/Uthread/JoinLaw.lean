import Cs213.Uthread.Lifetime

set_option relaxedAutoImplicit false
set_option autoImplicit false

/-!
# The law of the joiner

`uthread_join` and `uthread_detach` test the field `joiner` before they lock the join spinlock that
protects its update, and do not test it again. A second caller can therefore replace the joiner
that a first one has stored, and the first one is never woken up. A call that finds the thread dead
never unlocks the join spinlock; the next call that passes the test of the joiner waits for it in
vain.

As long as no two calls pass the test and no call comes when the thread is dead, the field keeps its
promise, whatever else happens: one call at most installs its caller, which stays there until the
exit of the thread puts it on the ready queue, and all other calls return `0`.

## Main definitions

* `Uthread.JoinLaw` — what the joiner field of a thread promises at the end of a run.
* `Uthread.TestsTwice` — two calls pass the test of the joiner.
* `Uthread.ComesLate` — a call finds the thread dead.
* `Uthread.lostJoiner`, `Uthread.lateJoins` — runs in which a joiner is lost, and in which a call
  waits in vain.

## Main results

* `Uthread.joinLaw_of_run` — the promise holds at the end of every run without such calls.
* `Uthread.lostJoiner_not_joinLaw` — the promise does not hold of all runs.
-/

namespace Uthread

open Runs

variable {N : ℕ} {s t : State N} {a : Act N} {T : Tid} {acts : List (Act N)}

/-! ## The law -/

/-- Some caller stores itself in the joiner field of `T`. -/
def Installs (T : Tid) (s : State N) (a : Act N) : Prop := (s.proc a.proc).pc = .joinSet T

/-- Thread `J` stores itself in the joiner field of `T`. -/
def InstallsSelf (T J : Tid) (s : State N) (a : Act N) : Prop := s.proc a.proc = ⟨J, .joinSet T⟩

instance (T : Tid) (s : State N) (a : Act N) : Decidable (Installs T s a) :=
  inferInstanceAs (Decidable (_ = _))

instance (T J : Tid) (s : State N) (a : Act N) : Decidable (InstallsSelf T J s a) :=
  inferInstanceAs (Decidable (_ = _))

/-- **The law of the joiner** of thread `T`, for a run that ends in `s`. -/
structure JoinLaw (T : Tid) (acts : List (Act N)) (s : State N) : Prop where
  /-- At most one call of `uthread_join` installs its caller. -/
  once : count step (Installs T) (init N) acts ≤ 1
  /-- Every other call returns `0`. -/
  others : ∀ p v, (s.proc p).pc = .joinReturn false T v → v = some 0
  /-- It does not stop: whoever is in `uthread_stop` or beyond has installed itself. -/
  stops : ∀ p, (s.proc p).pc.joined = some T →
    Occurs step (InstallsSelf T (s.proc p).thread) (init N) acts
  /-- The same for a thread that is not executed. -/
  stopped : ∀ J, (s.tcb J).savedSp = .inside (.join T) →
    Occurs step (InstallsSelf T J) (init N) acts
  /-- It does not wait in vain: when the join spinlock is not free, a processor that goes on holds
  it. -/
  waits : ∀ p, (s.proc p).pc = .joinLock T → (step s (.run p)).isSome ∨
    ∃ q, (s.proc q).pc.joinHeld = some T ∧ (step s (.run q)).isSome
  /-- Whoever has installed itself is still the joiner. -/
  kept : ∀ J, Occurs step (InstallsSelf T J) (init N) acts → (s.tcb T).joiner = .thread J
  /-- The exit of `T` has put it on the ready queue when `T` is dead. -/
  woken : ∀ J, Occurs step (InstallsSelf T J) (init N) acts → (s.tcb T).state = .dead →
    Occurs step (WakesUp T J) (init N) acts

/-! ## Calls that have passed the test of the joiner -/

/-- The thread whose joiner a call tests next, outside the lock. -/
@[grind] def Pc.testsJoiner : Pc → Option Tid
  | .joinTest t | .detachTest t => some t
  | _ => none

/-- The thread whose joiner a call has found to be `0`, before it has stored another one. -/
@[grind] def Pc.past : Pc → Option Tid
  | .joinLock t | .joinState t | .joinSet t | .detachLock t | .detachState t | .detachSet t =>
    some t
  | .user | .createEnqueue _ | .yieldEnqueue | .stopDequeue _ | .switchSpin _ _ | .switchSwap _ _
  | .switchDying _ _ | .dyingLock _ _ | .dyingJoiner _ _ | .dyingDead _ _ | .dyingUnlock _ _
  | .switchResume _ | .startTest _ _ | .startRunable _ _ | .startEnqueue _ _ | .joinTest _
  | .joinUnlock _ | .joinValue _ _ | .joinFree _ _ _ | .joinReturn _ _ _ | .detachTest _
  | .detachUnlock _ | .detachFree _ | .enterLock _ | .enterRelock _ | .enterUnlockWait _
  | .enterUnlock _ | .exitLock _ | .exitUnlock _ _ | .aborted _ | .wild => none

/-- A call of `uthread_join` or `uthread_detach` on `T` finds that `T` has no joiner while another
one that has found the same has not stored a joiner yet. -/
def TestsTwice (T : Tid) (s : State N) (a : Act N) : Prop :=
  (s.proc a.proc).pc.testsJoiner = some T ∧ (s.tcb T).joiner = .null ∧
    ∃ q, (s.proc q).pc.past = some T

/-- A call of `uthread_join` or `uthread_detach` on `T` finds `T` dead. -/
def ComesLate (T : Tid) (s : State N) (a : Act N) : Prop :=
  (s.proc a.proc).pc.testsState = some T ∧ (s.tcb T).state = .dead

instance (T : Tid) (s : State N) (a : Act N) : Decidable (TestsTwice T s a) :=
  inferInstanceAs (Decidable (_ ∧ _ ∧ ∃ _, _))

instance (T : Tid) (s : State N) (a : Act N) : Decidable (ComesLate T s a) :=
  inferInstanceAs (Decidable (_ ∧ _))

@[simp, grind =] lemma Site.past_return (c : Site) : c.return.past = none := by
  cases c <;> rfl

@[simp, grind =] lemma Starter.past_return (r : Starter) : r.return.past = none := by
  cases r <;> rfl

section Effects

variable (h : Trans s a t)

include h

/-- A call passes the test of the joiner when there is none. -/
lemma Trans.past_cases (hT : (t.proc a.proc).pc.past = some T) :
    (t.tcb T).joiner = (s.tcb T).joiner ∧ ((s.proc a.proc).pc.past = some T ∨
      (s.proc a.proc).pc.testsJoiner = some T ∧ (s.tcb T).joiner = .null) := by
  cases h <;> grind

/-- A join spinlock that is locked was so before, or has been locked by the processor that moves. -/
lemma Trans.locked_cases (hT : (t.tcb T).joinSpinlock = true) :
    (s.tcb T).joinSpinlock = true ∨ (t.proc a.proc).pc.joinHeld = some T := by
  cases h <;> grind [uthreadNewThread, uthreadAlloc]

/-- A processor that holds a join spinlock no longer has unlocked it, unless it has found the thread
dead or detached. -/
lemma Trans.unheld_cases (hT : (s.proc a.proc).pc.joinHeld = some T) :
    (t.proc a.proc).pc.joinHeld = some T ∨ (t.tcb T).joinSpinlock = false ∨
      (s.proc a.proc).pc.testsState = some T ∧ (s.tcb T).state = .dead ∨
      (s.tcb T).joiner = .detached := by
  cases h <;> grind

/-- A call that returns without having stopped has found a joiner, or has read the return value. -/
lemma Trans.joinReturn_cases {v : Value} (hpc : (t.proc a.proc).pc = .joinReturn false T v) :
    (s.proc a.proc).pc = .joinFree false T v ∨ v = some 0 := by
  cases h <;> grind [Site.return_cases, Starter.return_cases]

lemma Trans.joiner_of_joinSet (hpc : (s.proc a.proc).pc = .joinSet T) :
    (t.tcb T).joiner = .thread (s.proc a.proc).thread := by
  cases h <;> simp_all

end Effects

/-- A processor that holds a join spinlock goes on. -/
lemma isSome_step_of_joinHeld {q : Fin N} (h : (s.proc q).pc.joinHeld = some T) :
    (step s (.run q)).isSome := by
  cases hpc : (s.proc q).pc <;> simp_all [Pc.joinHeld, step, exec]
  split <;> rfl

/-! ## The invariant -/

/-- **The joiner field of `T` is not disputed**: one call at most has passed the test. -/
structure Undisputed (T : Tid) (s : State N) : Prop where
  unique : ∀ p q, (s.proc p).pc.past = some T → (s.proc q).pc.past = some T → p = q
  null : ∀ p, (s.proc p).pc.past = some T → (s.tcb T).joiner = .null
  /-- No call has found `T` dead. -/
  unfound : ∀ p, (s.proc p).pc.found ≠ some T
  others : ∀ p v, (s.proc p).pc = .joinReturn false T v → v = some 0
  /-- Only the exit of a detached thread leaves the join spinlock locked. -/
  locked : (s.tcb T).joinSpinlock = true → (s.tcb T).joiner = .detached ∨
    ∃ q, (s.proc q).pc.joinHeld = some T

namespace Undisputed

variable (h : Undisputed T s) (ha : Allocated s) (ht : Trans s a t)

include h ht

lemma unique_step (hC : ¬ TestsTwice T s a) (p q : Fin N) (hp : (t.proc p).pc.past = some T)
    (hq : (t.proc q).pc.past = some T) : p = q := by
  -- a call that passes the test finds no other one that has passed it
  have key : ∀ r, r ≠ a.proc → (t.proc a.proc).pc.past = some T →
      (t.proc r).pc.past = some T → a.proc = r := by
    intro r hr hT hT'
    rw [ht.proc_of_ne hr] at hT'
    rcases (ht.past_cases hT).2 with hT | ⟨htest, hnull⟩
    · exact h.unique _ _ hT hT'
    · exact absurd ⟨htest, hnull, r, hT'⟩ hC
  by_cases hpa : p = a.proc <;> by_cases hqa : q = a.proc
  · rw [hpa, hqa]
  · exact hpa ▸ key q hqa (hpa ▸ hp) hq
  · exact (hqa ▸ key p hpa (hqa ▸ hq) hp).symm
  · rw [ht.proc_of_ne hpa] at hp
    rw [ht.proc_of_ne hqa] at hq
    exact h.unique p q hp hq

lemma null_step (p : Fin N) (hp : (t.proc p).pc.past = some T) : (t.tcb T).joiner = .null := by
  by_cases hpa : p = a.proc
  · subst hpa
    obtain ⟨e, hT | ⟨-, hnull⟩⟩ := ht.past_cases hp
    · rw [e, h.null _ hT]
    · rw [e, hnull]
  · rw [ht.proc_of_ne hpa] at hp
    rcases ht.joiner_cases T with e | ⟨-, e⟩ | ⟨hpc, -⟩ | ⟨hpc, -⟩
    · rw [e, h.null p hp]
    · exact e
    · exact absurd (h.unique p a.proc hp (by rw [hpc, Pc.past])) hpa
    · exact absurd (h.unique p a.proc hp (by rw [hpc, Pc.past])) hpa

lemma unfound_step (hC : ¬ ComesLate T s a) (p : Fin N) : (t.proc p).pc.found ≠ some T := by
  intro hp
  by_cases hpa : p = a.proc
  · subst hpa
    exact (ht.dead_of_found hp).elim (h.unfound _) hC
  · exact h.unfound p (ht.proc_of_ne hpa ▸ hp)

lemma others_step (p : Fin N) (v : Value) (hpc : (t.proc p).pc = .joinReturn false T v) :
    v = some 0 := by
  by_cases hpa : p = a.proc
  · subst hpa
    exact (ht.joinReturn_cases hpc).resolve_left fun e => h.unfound a.proc (by rw [e]; rfl)
  · exact h.others p v (ht.proc_of_ne hpa ▸ hpc)

include ha

/-- A thread stays detached. -/
lemma detached_step (hd : (s.tcb T).joiner = .detached) : (t.tcb T).joiner = .detached := by
  rcases ht.joiner_cases T with e | ⟨rfl, -⟩ | ⟨hpc, -⟩ | ⟨-, e⟩
  · rw [e, hd]
  · simp [ha.unused _ le_rfl, uthreadAlloc] at hd
  · simp [h.null a.proc (by rw [hpc, Pc.past])] at hd
  · exact e

lemma locked_step (hC : ¬ ComesLate T s a) (hlk : (t.tcb T).joinSpinlock = true) :
    (t.tcb T).joiner = .detached ∨ ∃ q, (t.proc q).pc.joinHeld = some T := by
  rcases ht.locked_cases hlk with hs | hheld
  · rcases h.locked hs with hd | ⟨q, hq⟩
    · exact .inl (h.detached_step ha ht hd)
    · by_cases hqa : q = a.proc
      · subst hqa
        rcases ht.unheld_cases hq with hq | hfree | hlate | hd
        · exact .inr ⟨_, hq⟩
        · simp [hfree] at hlk
        · exact absurd hlate hC
        · exact .inl (h.detached_step ha ht hd)
      · exact .inr ⟨q, ht.proc_of_ne hqa ▸ hq⟩
  · exact .inr ⟨_, hheld⟩

/-- **The field stays undisputed** if no call passes the test when another one has, and none comes
late. -/
theorem step (hC : ¬ TestsTwice T s a) (hC' : ¬ ComesLate T s a) : Undisputed T t where
  unique := h.unique_step ht hC
  null := h.null_step ht
  unfound := h.unfound_step ht hC'
  others := h.others_step ht
  locked := h.locked_step ha ht hC'

omit ha ht

/-- A call does not wait in vain. -/
lemma waits (p : Fin N) (hpc : (s.proc p).pc = .joinLock T) : (Uthread.step s (.run p)).isSome ∨
    ∃ q, (s.proc q).pc.joinHeld = some T ∧ (Uthread.step s (.run q)).isSome := by
  cases hlk : (s.tcb T).joinSpinlock with
  | false => exact .inl (by simp [Uthread.step, exec, hpc, hlk])
  | true =>
    rcases h.locked hlk with hd | ⟨q, hq⟩
    · simp [h.null p (by rw [hpc, Pc.past])] at hd
    · exact .inr ⟨q, hq, isSome_step_of_joinHeld hq⟩

end Undisputed

/-- At the start no call has been made. -/
lemma undisputed_init : Undisputed T (init N) where
  unique p q h := by simp [init, Pc.past] at h
  null p h := by simp [init, Pc.past] at h
  unfound p := by simp [init, Pc.found]
  others p v h := by simp [init] at h
  locked h := by
    simp only [init, initTcb] at h
    grind [uthreadAlloc, uthreadNewThread]

/-! ## The callers that have installed themselves -/

/-- What has occurred, for `T`. -/
structure Installed (T : Tid) (acts : List (Act N)) (s : State N) : Prop where
  once : count step (Installs T) (init N) acts ≤ if (s.tcb T).joiner = .null then 0 else 1
  stops : ∀ p, (s.proc p).pc.joined = some T →
    Occurs step (InstallsSelf T (s.proc p).thread) (init N) acts
  stopped : ∀ J, (s.tcb J).savedSp.joined = some T → Occurs step (InstallsSelf T J) (init N) acts
  kept : ∀ J, Occurs step (InstallsSelf T J) (init N) acts → (s.tcb T).joiner = .thread J

namespace Installed

variable (h : Installed T acts s) (hu : Undisputed T s) (ha : Allocated s) (ht : Trans s a t)
  (hr : run step (init N) acts = some s)

include h ht hr

lemma stops_step (p : Fin N) (hj : (t.proc p).pc.joined = some T) :
    Occurs step (InstallsSelf T (t.proc p).thread) (init N) (acts ++ [a]) := by
  by_cases hpa : p = a.proc
  · subst hpa
    rcases ht.joined_cases hj with ⟨e, hj' | ⟨hpc, -⟩⟩ | hsp
    · exact e ▸ occurs_left (h.stops _ hj')
    · refine occurs_concat.mpr (.inr ⟨s, hr, ?_⟩)
      rw [InstallsSelf, e, ← hpc]
    · exact occurs_left (h.stopped _ hsp)
  · rw [ht.proc_of_ne hpa] at hj ⊢
    exact occurs_left (h.stops p hj)

omit hr in
lemma stopped_step (J : Tid) (hj : (t.tcb J).savedSp.joined = some T) :
    Occurs step (InstallsSelf T J) (init N) (acts ++ [a]) := by
  rcases ht.stopped_cases hj with hsp | ⟨rfl, c, u, hpc, hc⟩
  · exact occurs_left (h.stopped J hsp)
  · exact occurs_left (h.stops _ (by rw [hpc, Pc.joined, hc]))

include hu ha

/-- A caller installs itself where there is no joiner, and nobody replaces it. -/
lemma once_step : count step (Installs T) (init N) (acts ++ [a]) ≤
    if (t.tcb T).joiner = .null then 0 else 1 := by
  rw [count_concat hr]
  have hle := h.once
  by_cases hI : Installs T s a
  · rw [if_pos (hu.null a.proc (by rw [hI, Pc.past]))] at hle
    rw [ht.joiner_of_joinSet hI, if_pos hI, if_neg (by simp)]
    omega
  · rw [if_neg hI, Nat.add_zero]
    rcases ht.joiner_cases T with e | ⟨rfl, -⟩ | ⟨hpc, -⟩ | ⟨hpc, e⟩
    · rwa [e]
    · rw [ha.unused _ le_rfl, if_pos (by rfl)] at hle
      exact hle.trans (Nat.zero_le _)
    · exact absurd hpc hI
    · rw [if_pos (hu.null a.proc (by rw [hpc, Pc.past]))] at hle
      exact hle.trans (Nat.zero_le _)

lemma kept_step (J : Tid) (hJ : Occurs step (InstallsSelf T J) (init N) (acts ++ [a])) :
    (t.tcb T).joiner = .thread J := by
  rcases occurs_concat.mp hJ with hJ | ⟨s', hs', hpc⟩
  · have hj := h.kept J hJ
    rcases ht.joiner_cases T with e | ⟨rfl, -⟩ | ⟨hpc, -⟩ | ⟨hpc, -⟩
    · rw [e, hj]
    · simp [ha.unused _ le_rfl, uthreadAlloc] at hj
    · simp [hu.null a.proc (by rw [hpc, Pc.past])] at hj
    · simp [hu.null a.proc (by rw [hpc, Pc.past])] at hj
  · obtain rfl : s = s' := Option.some.inj (hr.symm.trans hs')
    rw [ht.joiner_of_joinSet (by rw [hpc]), hpc]

/-- **The callers stay installed** while the field is not disputed. -/
theorem step : Installed T (acts ++ [a]) t where
  once := h.once_step hu ha ht hr
  stops := h.stops_step ht hr
  stopped := h.stopped_step ht
  kept := h.kept_step hu ha ht hr

end Installed

lemma installed_init : Installed T [] (init N) where
  once := Nat.zero_le _
  stops p h := by simp [init, Pc.joined] at h
  stopped J h := by
    simp only [init, initTcb] at h
    grind [uthreadAlloc, uthreadNewThread]
  kept J h := absurd h (by simp [Occurs])

/-! ## Runs -/

/-- **No lost joiner.** At the end of a run in which no call on `T` passes the test of the joiner
while another one that has passed it has not stored a joiner yet, and no call finds `T` dead, the
joiner law holds for `T`. -/
theorem joinLaw_of_run (hN : 0 < N) (T : Tid) (acts : List (Act N))
    (h : AllSteps step (fun s a => ¬ TestsTwice T s a ∧ ¬ ComesLate T s a) (init N) acts) :
    ∀ s, run step (init N) acts = some s → JoinLaw T acts s := by
  intro s hr
  obtain ⟨-, -, he⟩ := exitLaw_of_run hN hr
  obtain ⟨hu, hi⟩ : Undisputed T s ∧ Installed T acts s := by
    refine induct_of_allSteps (motive := fun acts s => Undisputed T s ∧ Installed T acts s)
      ⟨undisputed_init, installed_init⟩ ?_ h hr
    rintro as a t u hr ⟨hu, hi⟩ ⟨hC, hC'⟩ hs
    have ha := (exitLaw_of_run hN hr).1
    have ht := trans_of_step hs
    exact ⟨hu.step ha ht hC hC', hi.step hu ha ht hr⟩
  exact {
    once := hi.once.trans (by split_ifs <;> simp)
    others := hu.others
    stops := hi.stops
    stopped := fun J hJ => hi.stopped J (by rw [hJ]; rfl)
    waits := hu.waits
    kept := hi.kept
    woken := fun J hJ hd => he.dead T J hd (hi.kept J hJ) }

/-- On two processors thread `0` creates threads `3` and `4` and joins thread `3`, and then thread
`4` joins thread `3`, too. Thread `3` returns. -/
def joinsTwice : List (Act 2) :=
  [.call 0 .create, .run 0, .call 0 .create, .run 0, .call 0 (.join 3)] ++ runs 0 5 ++
  [.call 1 .yield] ++ runs 1 6 ++ [.call 1 .yield] ++ runs 1 6 ++ [.call 1 .yield] ++ runs 1 6 ++
  [.call 1 (.join 3)] ++ runs 1 1 ++ runs 0 5 ++ [.call 0 .yield] ++ runs 0 6 ++
  [.call 0 .yield] ++ runs 0 6 ++ [.call 0 (.ret 7)] ++ runs 0 12

theorem joinLaw_joinsTwice :
    (run step (init 2) joinsTwice).map (fun s => (s.proc 1, (s.tcb 3).joiner, s.readyQueue)) =
      some (⟨4, .joinReturn false 3 (some 0)⟩, .thread 0, [1, 0]) ∧
    ∀ s, run step (init 2) joinsTwice = some s → JoinLaw 3 joinsTwice s :=
  ⟨by decide +kernel, joinLaw_of_run (by decide) 3 joinsTwice (by decide +kernel)⟩

/-! ## A lost joiner -/

/-- On two processors thread `0` creates threads `3` and `4` and calls `uthread_join` for thread
`3`. When it has tested the joiner, thread `4` gets to run and passes the same test. Thread `0`
stores itself and unlocks, and thread `4` stores itself over it. -/
def lostJoiner : List (Act 2) :=
  [.call 0 .create, .run 0, .call 0 .create, .run 0, .call 0 (.join 3), .run 0] ++
  [.call 1 .yield] ++ runs 1 6 ++ [.call 1 .yield] ++ runs 1 6 ++ [.call 1 .yield] ++ runs 1 6 ++
  [.call 1 (.join 3)] ++ runs 1 1 ++ runs 0 4 ++ runs 1 3

/-- Thread `0` is about to stop, and is no longer the joiner. -/
lemma lostJoiner_last : (run step (init 2) lostJoiner).map
    (fun s => (s.proc 0, (s.tcb 3).joiner)) =
      some (⟨0, .stopDequeue (.join 3)⟩, .thread 4) := by
  decide +kernel

/-- **The law is broken** by a run in which a joiner is replaced. -/
theorem lostJoiner_not_joinLaw :
    ¬ ∀ N, 0 < N → ∀ T, ∀ acts : List (Act N), ∀ s, run step (init N) acts = some s →
      JoinLaw T acts s := by
  intro h
  obtain ⟨s, hs, he⟩ := Option.map_eq_some_iff.mp lostJoiner_last
  simp only [Prod.mk.injEq] at he
  have hlaw := h 2 (by decide) 3 lostJoiner s hs
  have hkept := hlaw.kept 0 (by simpa [he.1] using hlaw.stops 0 (by rw [he.1]; rfl))
  simp [he.2] at hkept

/-! ## Late calls -/

/-- On one processor thread `0` creates thread `2` and yields. Thread `2` returns the value `7`, and
thread `0` joins it twice when it is dead. -/
def lateJoins : List (Act 1) :=
  [.call 0 .create, .run 0, .call 0 .yield] ++ runs 0 6 ++ [.call 0 .yield] ++ runs 0 6 ++
  [.call 0 (.ret 7)] ++ runs 0 9 ++ [.call 0 (.join 2)] ++ runs 0 6 ++ [.call 0 (.join 2), .run 0]

-- The first call returns the value; the second one waits for a spinlock that nobody unlocks.
example :
    (run step (init 1) (lateJoins.take 32)).map (fun s => (s.proc 0).pc) =
      some (.joinReturn false 2 (some 7)) ∧
    (run step (init 1) lateJoins).map (fun s => ((s.proc 0).pc, (step s (.run 0)).isSome)) =
      some (.joinLock 2, false) := by
  decide +kernel

end Uthread
