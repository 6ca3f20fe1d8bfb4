import Cs213.Uthread.Joiner

set_option relaxedAutoImplicit false
set_option autoImplicit false

/-!
# The lifetime of a thread control block

The block of a thread is freed by the thread that joins it, by a call that finds the thread dead,
or, if it is detached, by its exit. When every handle is used in one call of `uthread_join` or
`uthread_detach`, the call that uses it and the exit agree on who frees the block.

## Main definitions

* `Uthread.Pc.handle` — the thread whose handle a call uses.
* `Uthread.FreesLocked` — a joiner that has been woken up frees a block whose spinlock is locked.
* `Uthread.Lifetime` — the invariant of the blocks.
* `Uthread.Values` — the invariant of the return values.

## Main results

* `Uthread.lifetime_of_run` — the invariants, for runs in which no joiner is woken up twice or frees
  a block that is locked.
-/

namespace Uthread

open Runs

variable {N : ℕ} {s t : State N} {a : Act N}

/-! ## Calls on a handle -/

/-- The handle that is passed to a call of `uthread_join` or `uthread_detach`. -/
@[grind] def Act.handle : Act N → Option Tid
  | .call _ (.join t) => some t
  | .call _ (.detach t) => some t
  | .call _ .create | .call _ .yield | .call _ (.enter _) | .call _ (.exit _)
  | .call _ (.ret _) | .run _ => none

/-- The thread whose handle a call is about to use, before it is the joiner. -/
@[grind] def Pc.before : Pc → Option Tid
  | .joinTest t | .joinLock t | .joinState t | .joinSet t | .detachTest t | .detachLock t
  | .detachState t | .detachSet t => some t
  | .user | .createEnqueue _ | .yieldEnqueue | .stopDequeue _ | .switchSpin _ _ | .switchSwap _ _
  | .switchDying _ _ | .dyingLock _ _ | .dyingJoiner _ _ | .dyingDead _ _ | .dyingUnlock _ _
  | .switchResume _ | .startTest _ _ | .startRunable _ _ | .startEnqueue _ _ | .joinUnlock _
  | .joinValue _ _ | .joinFree _ _ _ | .joinReturn _ _ _ | .detachUnlock _ | .detachFree _
  | .enterLock _ | .enterRelock _ | .enterUnlockWait _ | .enterUnlock _ | .exitLock _
  | .exitUnlock _ _ | .aborted _ | .wild => none

/-- The thread whose state a call tests for `TS_DEAD` next, under the lock. -/
@[grind] def Pc.testsState : Pc → Option Tid
  | .joinState t | .detachState t => some t
  | _ => none

/-- The thread that a call has found dead, before it has freed it. -/
@[grind] def Pc.found : Pc → Option Tid
  | .joinValue b t | .joinFree b t _ => if b then none else some t
  | .detachFree t => some t
  | .user | .createEnqueue _ | .yieldEnqueue | .stopDequeue _ | .switchSpin _ _ | .switchSwap _ _
  | .switchDying _ _ | .dyingLock _ _ | .dyingJoiner _ _ | .dyingDead _ _ | .dyingUnlock _ _
  | .switchResume _ | .startTest _ _ | .startRunable _ _ | .startEnqueue _ _ | .joinTest _
  | .joinLock _ | .joinState _ | .joinSet _ | .joinUnlock _ | .joinReturn _ _ _ | .detachTest _
  | .detachLock _ | .detachState _ | .detachSet _ | .detachUnlock _ | .enterLock _
  | .enterRelock _ | .enterUnlockWait _ | .enterUnlock _ | .exitLock _ | .exitUnlock _ _
  | .aborted _ | .wild => none

/-- The thread whose handle a call still uses. -/
@[grind] def Pc.handle : Pc → Option Tid
  | .joinTest t | .joinLock t | .joinState t | .joinSet t | .joinUnlock t | .joinValue _ t
  | .joinFree _ t _ | .detachTest t | .detachLock t | .detachState t | .detachSet t
  | .detachUnlock t | .detachFree t => some t
  | .stopDequeue c | .switchSpin c _ | .switchSwap c _ => c.joined
  | .switchDying _ f | .dyingLock _ f | .dyingJoiner _ f | .dyingDead _ f | .dyingUnlock _ f
  | .switchResume f => f.joined
  | .startTest r _ | .startRunable r _ | .startEnqueue r _ => r.joined
  | .user | .createEnqueue _ | .yieldEnqueue | .joinReturn _ _ _ | .enterLock _ | .enterRelock _
  | .enterUnlockWait _ | .enterUnlock _ | .exitLock _ | .exitUnlock _ _ | .aborted _
  | .wild => none

@[simp, grind =] lemma Site.handle_return (c : Site) : c.return.handle = c.joined := by
  cases c <;> rfl

@[simp, grind =] lemma Starter.handle_return (r : Starter) : r.return.handle = r.joined := by
  cases r <;> rfl

@[simp, grind =] lemma Site.before_return (c : Site) : c.return.before = none := by
  cases c <;> rfl

@[simp, grind =] lemma Starter.before_return (r : Starter) : r.return.before = none := by
  cases r <;> rfl

@[simp, grind =] lemma Site.found_return (c : Site) : c.return.found = none := by
  cases c <;> rfl

@[simp, grind =] lemma Starter.found_return (r : Starter) : r.return.found = none := by
  cases r <;> rfl

/-- A call that is about to use a handle still uses it. -/
lemma Pc.handle_of_before {pc : Pc} {T : Tid} (h : pc.before = some T) : pc.handle = some T := by
  cases pc <;> grind

/-- A call that has found the thread dead still uses the handle. -/
lemma Pc.handle_of_found {pc : Pc} {T : Tid} (h : pc.found = some T) : pc.handle = some T := by
  cases pc <;> grind

/-- A handle in use is that of a thread that has been created. -/
lemma Pc.handle_mem_tids {pc : Pc} {T : Tid} (h : pc.handle = some T) : T ∈ pc.tids := by
  have : pc.joined = some T → T ∈ pc.tids := Pc.joined_mem_tids
  cases pc <;> grind

section Effects

variable (h : Trans s a t) {T : Tid}

include h

/-- A processor is in a call on a handle that it was in before, that it makes, or that the thread
it switches to has stopped in. -/
lemma Trans.handle_cases (hT : (t.proc a.proc).pc.handle = some T) :
    (t.proc a.proc).thread = (s.proc a.proc).thread ∧
      ((s.proc a.proc).pc.handle = some T ∨ a.handle = some T) ∨
    (∃ c, (s.proc a.proc).pc = .switchSwap c (t.proc a.proc).thread) ∧
      (s.tcb (t.proc a.proc).thread).savedSp.joined = some T := by
  cases h <;> grind

/-- Before a call has stored the joiner, it has not changed it. -/
lemma Trans.before_cases (hT : (t.proc a.proc).pc.before = some T) :
    (t.tcb T).joiner = (s.tcb T).joiner ∧
      ((s.proc a.proc).pc.before = some T ∨ a.handle = some T) := by
  cases h <;> grind

/-- A call that finds a thread dead keeps the join spinlock locked. -/
lemma Trans.found_cases (hT : (t.proc a.proc).pc.found = some T) :
    (s.proc a.proc).pc.found = some T ∨ (s.proc a.proc).pc.joinHeld = some T ∧
      (t.tcb T).joinSpinlock = (s.tcb T).joinSpinlock ∧
      (t.proc a.proc).pc.joinHeld = none := by
  cases h <;> grind

/-- It has tested the state. -/
lemma Trans.dead_of_found (hT : (t.proc a.proc).pc.found = some T) :
    (s.proc a.proc).pc.found = some T ∨
      (s.proc a.proc).pc.testsState = some T ∧ (s.tcb T).state = .dead := by
  cases h <;> grind

/-- The calls of `uthread_free`: by the last use of a handle, and by the exit of a detached
thread. None of them holds the join spinlock afterwards, and none unlocks it. -/
lemma Trans.freed_cases (hT : 0 < (t.tcb T).freed) : (t.tcb T).freed = (s.tcb T).freed ∨
    (t.tcb T).freed = (s.tcb T).freed + 1 ∧ (t.tcb T).joinSpinlock = (s.tcb T).joinSpinlock ∧
    (t.proc a.proc).pc.joinHeld = none ∧
    (((s.proc a.proc).pc.found = some T ∨ ∃ v, (s.proc a.proc).pc = .joinFree true T v) ∧
        (t.proc a.proc).thread = (s.proc a.proc).thread ∧ (t.proc a.proc).pc.handle = none ∨
      (∃ f, (s.proc a.proc).pc = .dyingJoiner T f) ∧ (s.tcb T).joiner = .detached) := by
  cases h <;> grind [uthreadNewThread, uthreadAlloc]

/-- The last two steps of `uthread_detach` on a thread that is not dead. -/
lemma Trans.detach_cases :
    ((s.proc a.proc).pc = .detachSet T →
      t.proc a.proc = ⟨(s.proc a.proc).thread, .detachUnlock T⟩) ∧
    ((s.proc a.proc).pc = .detachUnlock T → t.proc a.proc = ⟨(s.proc a.proc).thread, .user⟩) := by
  cases h <;> grind

/-- A join spinlock is acquired by a step that finds it free. -/
lemma Trans.joinHeld_cases (hT : (t.proc a.proc).pc.joinHeld = some T) :
    (s.proc a.proc).pc.joinHeld = some T ∨ (s.tcb T).joinSpinlock = false ∧
      ((s.proc a.proc).pc.before = some T ∨ (s.proc a.proc).pc.locksDying = some T) := by
  cases h <;> grind [Pc.locksDying]

/-- A join spinlock is released by the processor that holds it. -/
lemma Trans.joinSpinlock_cases (hT : (s.tcb T).joinSpinlock = true) (hf : T ≠ s.fresh) :
    (t.tcb T).joinSpinlock = true ∨ (s.proc a.proc).pc.joinHeld = some T := by
  cases h <;> grind

end Effects

/-! ## The invariant -/

/-- The number of calls on the handle of `T`. -/
def calls (T : Tid) (acts : List (Act N)) : ℕ := (acts.filterMap Act.handle).count T

/-- Thread `J` is in a call on the handle of `T`. -/
def Busy (s : State N) (T J : Tid) : Prop :=
  (∃ p, (s.proc p).thread = J ∧ (s.proc p).pc.handle = some T) ∨
    (∀ p, (s.proc p).thread ≠ J) ∧ (s.tcb J).savedSp.joined = some T

/-- The join spinlock of `T` has been left locked. -/
def Abandoned (s : State N) (T : Tid) : Prop :=
  (s.tcb T).joinSpinlock = true ∧ ∀ p, (s.proc p).pc.joinHeld ≠ some T

/-- **The lifetime invariant**, for runs in which every handle is used once. -/
structure Lifetime (acts : List (Act N)) (s : State N) : Prop where
  /-- Whatever happens to a handle, a call has used it. -/
  called : ∀ T, 0 < (s.tcb T).freed ∨ (s.tcb T).joiner ≠ .null ∨ (∃ J, Busy s T J) →
    0 < calls T acts
  /-- There is one such call. -/
  unique : ∀ T J K, Busy s T J → Busy s T K → J = K
  /-- It finds no joiner. -/
  before : ∀ p T, (s.proc p).pc.before = some T → (s.tcb T).joiner = .null
  /-- Its caller is the joiner once it has stored itself. -/
  joined : ∀ p T, (s.proc p).pc.joined = some T → (s.tcb T).joiner = .thread (s.proc p).thread
  stopped : ∀ J T, (s.tcb J).savedSp.joined = some T → (s.tcb T).joiner = .thread J
  /-- The call that has detached a thread has only to unlock. -/
  detached : ∀ T J, (s.tcb T).joiner = .detached → Busy s T J →
    ∃ p, (s.proc p).thread = J ∧ (s.proc p).pc = .detachUnlock T
  /-- A call that has found a thread dead leaves its join spinlock locked. -/
  found : ∀ p T, (s.proc p).pc.found = some T → Abandoned s T
  /-- A block is freed once, when nobody uses the handle, and nobody can lock it afterwards, or
  the thread is dead and had a joiner. -/
  freed : ∀ T, 0 < (s.tcb T).freed → (s.tcb T).freed = 1 ∧ (∀ J, ¬ Busy s T J) ∧
    (Abandoned s T ∨ (s.tcb T).state = .dead ∧ (s.tcb T).joiner.thread? ≠ none ∧
      ∀ p, (s.proc p).pc.joinHeld ≠ some T)

/-- The processor in a call on a handle executes a busy thread. -/
lemma busy_of_handle {p : Fin N} {T : Tid} (h : (s.proc p).pc.handle = some T) :
    Busy s T (s.proc p).thread :=
  .inl ⟨p, rfl, h⟩

lemma calls_concat (T : Tid) (acts : List (Act N)) :
    calls T (acts ++ [a]) = calls T acts + if a.handle = some T then 1 else 0 := by
  cases h : a.handle <;> simp [calls, h, List.count_singleton]

section Step

variable (ho : Owned (fun _ => True) s) (ha : Allocated s) (hl : JoinGuarded s)
  (ht : Trans s a t)

include ht

include ho in
/-- A thread is in a call that it was in before or that it makes. -/
lemma Busy.of_step {T J : Tid} (h : Busy t T J) :
    Busy s T J ∨ a.handle = some T ∧ J = (s.proc a.proc).thread := by
  rcases h with ⟨p, rfl, hp⟩ | ⟨hp, hsp⟩
  · by_cases hpa : p = a.proc
    · subst hpa
      rcases ht.handle_cases hp with ⟨e, hT | hT⟩ | ⟨⟨c, hpc⟩, hsp⟩
      · exact .inl (.inl ⟨_, e.symm, hT⟩)
      · exact .inr ⟨hT, e⟩
      · refine .inl (.inr ⟨?_, hsp⟩)
        exact ho.stopped _ _ (by rw [hpc, Pc.target]) trivial
    · rw [ht.proc_of_ne hpa] at hp ⊢
      exact .inl (busy_of_handle hp)
  · by_cases hex : ∃ p, (s.proc p).thread = J
    · -- the thread has just been switched away from
      obtain ⟨p, rfl⟩ := hex
      have hpa : p = a.proc := by
        by_contra hpa
        exact hp p (by rw [ht.proc_of_ne hpa])
      subst hpa
      rcases ht.thread with e | ⟨c, hpc⟩
      · exact absurd e (hp _)
      · rw [ht.savedSp_of_switchSwap hpc] at hsp
        exact .inl (busy_of_handle (by rw [hpc]; exact hsp))
    · push Not at hex
      rcases ht.stopped_cases hsp with hsp | ⟨rfl, -⟩
      · exact .inl (.inr ⟨hex, hsp⟩)
      · exact absurd rfl (hex _)

include ha in
/-- A lock that has been left locked stays locked. -/
lemma Abandoned.step {T : Tid} (h : Abandoned s T) : Abandoned t T := by
  obtain ⟨hlk, hh⟩ := h
  have hf : T ≠ s.fresh := by
    rintro rfl
    simp [ha.unused _ le_rfl, uthreadAlloc] at hlk
  refine ⟨(ht.joinSpinlock_cases hlk hf).resolve_right (hh _), fun p hp => ?_⟩
  by_cases hpa : p = a.proc
  · subst hpa
    rcases ht.joinHeld_cases hp with hp | ⟨hlk', -⟩
    · exact hh _ hp
    · simp [hlk] at hlk'
  · exact hh p (ht.proc_of_ne hpa ▸ hp)

end Step

/-- A thread that is executed outside of a call on a handle is in none. -/
lemma Owned.not_busy (ho : Owned (fun _ => True) s) {p : Fin N} {T : Tid}
    (hp : (s.proc p).pc.handle ≠ some T) : ¬ Busy s T (s.proc p).thread := by
  rintro (⟨q, e, hq⟩ | ⟨hq, -⟩)
  · exact hp (ho.alone q p trivial e ▸ hq)
  · exact hq p rfl

/-- The joiner of a thread that waits no longer has been picked up: the thread is dead, or its exit
holds the join spinlock. -/
lemma Owned.dead_or_held (ho : Owned (fun _ => True) s) {p : Fin N} {T : Tid}
    (hp : (s.proc p).thread ∈ (s.proc p).carries)
    (hj : (s.tcb T).joiner = .thread (s.proc p).thread) :
    (s.tcb T).state = .dead ∨ ∃ q, (s.proc q).pc.wakes = some T := by
  by_contra hcon
  push Not at hcon
  have hslot : (s.proc p).thread ∈ s.contents (.slot T) := mem_slot.mpr ⟨hj, hcon⟩
  cases (ho.exclusive _ trivial).unique (.proc p) (.slot T) hp hslot

/-- The thread whose block a joiner frees after it has been woken up. -/
def Pc.freesWoken : Pc → Option Tid
  | .joinFree true t _ => some t
  | _ => none

/-- A joiner that has been woken up frees a block whose join spinlock is locked. -/
def FreesLocked (s : State N) (a : Act N) : Prop :=
  ∃ T ∈ (s.proc a.proc).pc.freesWoken, (s.tcb T).joinSpinlock = true

instance (s : State N) (a : Act N) : Decidable (FreesLocked s a) :=
  inferInstanceAs (Decidable (∃ _ ∈ _, _))

namespace Lifetime

variable {acts : List (Act N)} (h : Lifetime acts s) (ho : Owned (fun _ => True) s)
  (ho' : Owned (fun _ => True) t) (ha : Allocated s) (hl : JoinGuarded s) (ht : Trans s a t)
  (hone : ∀ T, calls T (acts ++ [a]) ≤ 1) {T : Tid}

include h

section New

include hone

/-- A handle that is passed to a call has not been used. -/
lemma unused (hT : a.handle = some T) :
    (s.tcb T).freed = 0 ∧ (s.tcb T).joiner = .null ∧ ∀ J, ¬ Busy s T J := by
  have hle := hone T
  rw [calls_concat, if_pos hT] at hle
  have h0 : ¬ 0 < calls T acts := by omega
  refine ⟨Nat.eq_zero_of_not_pos fun hf => h0 (h.called T (.inl hf)), ?_, fun J hJ => ?_⟩
  · exact by_contra fun hj => h0 (h.called T (.inr (.inl hj)))
  · exact h0 (h.called T (.inr (.inr ⟨J, hJ⟩)))

end New

/-- A block that has been freed is not freed again. -/
lemma not_free_of_freed (hf : 0 < (s.tcb T).freed) (p : Fin N) :
    (s.proc p).pc.found ≠ some T ∧ (∀ v, (s.proc p).pc ≠ .joinFree true T v) ∧
      ∀ f, (s.proc p).pc ≠ .dyingJoiner T f := by
  obtain ⟨-, hb, hout⟩ := h.freed T hf
  refine ⟨fun hpc => hb _ (busy_of_handle (Pc.handle_of_found hpc)), fun v hpc => ?_,
    fun f hpc => ?_⟩
  · exact hb _ (busy_of_handle (by rw [hpc, Pc.handle]))
  · have hheld : (s.proc p).pc.joinHeld = some T := by rw [hpc, Pc.joinHeld]
    exact hout.elim (fun e => e.2 _ hheld) fun e => e.2.2 _ hheld

include ho hl in
/-- A joiner that has been woken up and does not find the join spinlock locked joins a dead
thread. -/
lemma dead_of_freesWoken (hC : ¬ FreesLocked s a) {v : Value}
    (hpc : (s.proc a.proc).pc = .joinFree true T v) :
    (s.tcb T).state = .dead ∧ ∀ p, (s.proc p).pc.joinHeld ≠ some T := by
  have hfree : (s.tcb T).joinSpinlock = false := by
    refine Bool.eq_false_iff.mpr fun hlk => hC ⟨T, ?_, hlk⟩
    rw [hpc]
    rfl
  have hheld : ∀ p, (s.proc p).pc.joinHeld ≠ some T := by
    intro p hp
    simp [hl.locked p T hp] at hfree
  refine ⟨(ho.dead_or_held ?_ (h.joined _ T (by rw [hpc]; rfl))).resolve_right fun ⟨q, hq⟩ => ?_,
    hheld⟩
  · simp [Proc.carries, hpc, Pc.carries]
  · exact hheld q (Pc.joinHeld_of_wakes hq)

section Step

include ht

include ha in
/-- A joiner field is written once. -/
lemma joiner_eq (hj : (s.tcb T).joiner ≠ .null) : (t.tcb T).joiner = (s.tcb T).joiner := by
  rcases ht.joiner_cases T with e | ⟨rfl, -⟩ | ⟨hpc, -⟩ | ⟨hpc, -⟩
  · exact e
  · exact absurd (by rw [ha.unused _ le_rfl]; rfl) hj
  · exact absurd (h.before _ T (by rw [hpc, Pc.before])) hj
  · exact absurd (h.before _ T (by rw [hpc, Pc.before])) hj

include ho

include hone in
lemma unique_step (J K : Tid) (hJ : Busy t T J) (hK : Busy t T K) : J = K := by
  rcases hJ.of_step ho ht with hJ | ⟨hT, rfl⟩ <;> rcases hK.of_step ho ht with hK | ⟨hT', rfl⟩
  · exact h.unique T J K hJ hK
  · exact absurd hJ ((h.unused hone hT').2.2 J)
  · exact absurd hK ((h.unused hone hT).2.2 K)
  · rfl

lemma called_step (hT : 0 < (t.tcb T).freed ∨ (t.tcb T).joiner ≠ .null ∨ ∃ J, Busy t T J) :
    0 < calls T (acts ++ [a]) := by
  rw [calls_concat]
  by_cases hn : a.handle = some T
  · simp [hn]
  · rw [if_neg hn, Nat.add_zero]
    refine h.called T ?_
    rcases hT with hf | hj | ⟨J, hJ⟩
    · rcases ht.freed_cases hf with e | ⟨-, -, -, ⟨hpc | ⟨v, hpc⟩, -⟩ | ⟨-, hd⟩⟩
      · exact .inl (e ▸ hf)
      · exact .inr (.inr ⟨_, busy_of_handle (Pc.handle_of_found hpc)⟩)
      · exact .inr (.inr ⟨_, busy_of_handle (by rw [hpc, Pc.handle])⟩)
      · exact .inr (.inl (by simp [hd]))
    · rcases ht.joiner_cases T with e | ⟨-, e⟩ | ⟨hpc, -⟩ | ⟨hpc, -⟩
      · exact .inr (.inl (e ▸ hj))
      · exact absurd e hj
      · exact .inr (.inr ⟨_, busy_of_handle (by rw [hpc, Pc.handle])⟩)
      · exact .inr (.inr ⟨_, busy_of_handle (by rw [hpc, Pc.handle])⟩)
    · exact .inr (.inr ⟨J, (hJ.of_step ho ht).resolve_right fun e => hn e.1⟩)

include ha

include hone in
lemma before_step (p : Fin N) (hp : (t.proc p).pc.before = some T) :
    (t.tcb T).joiner = .null := by
  by_cases hpa : p = a.proc
  · subst hpa
    obtain ⟨e, hp | hn⟩ := ht.before_cases hp
    · rw [e, h.before _ T hp]
    · rw [e, (h.unused hone hn).2.1]
  · rw [ht.proc_of_ne hpa] at hp
    have hbusy := busy_of_handle (Pc.handle_of_before hp)
    have hmove : (s.proc a.proc).pc.handle ≠ some T := fun hT =>
      hpa (ho.alone p a.proc trivial (h.unique T _ _ hbusy (busy_of_handle hT)))
    rcases ht.joiner_cases T with e | ⟨rfl, -⟩ | ⟨hpc, -⟩ | ⟨hpc, -⟩
    · rw [e, h.before p T hp]
    · exact absurd (ha.pc p _ (Pc.handle_mem_tids (Pc.handle_of_before hp))) (Nat.lt_irrefl _)
    · exact absurd (by rw [hpc, Pc.handle]) hmove
    · exact absurd (by rw [hpc, Pc.handle]) hmove

omit ho

lemma joined_step (p : Fin N) (hp : (t.proc p).pc.joined = some T) :
    (t.tcb T).joiner = .thread (t.proc p).thread := by
  have keep : ∀ J, (s.tcb T).joiner = .thread J → (t.tcb T).joiner = .thread J :=
    fun J hJ => by rw [h.joiner_eq ha ht (by simp [hJ]), hJ]
  by_cases hpa : p = a.proc
  · subst hpa
    rcases ht.joined_cases hp with ⟨e, hj | ⟨-, hj⟩⟩ | hsp
    · exact e ▸ keep _ (h.joined _ T hj)
    · exact e ▸ hj
    · exact keep _ (h.stopped _ T hsp)
  · rw [ht.proc_of_ne hpa] at hp ⊢
    exact keep _ (h.joined p T hp)

lemma stopped_step (J : Tid) (hJ : (t.tcb J).savedSp.joined = some T) :
    (t.tcb T).joiner = .thread J := by
  have hj : (s.tcb T).joiner = .thread J := by
    rcases ht.stopped_cases hJ with hsp | ⟨rfl, c, u, hpc, hc⟩
    · exact h.stopped J T hsp
    · exact h.joined _ T (by rw [hpc, Pc.joined, hc])
  rw [h.joiner_eq ha ht (by simp [hj]), hj]

omit ha in
include ho ho' hone in
lemma detached_step (J : Tid) (hd : (t.tcb T).joiner = .detached) (hJ : Busy t T J) :
    ∃ p, (t.proc p).thread = J ∧ (t.proc p).pc = .detachUnlock T := by
  have hJs : (s.tcb T).joiner ≠ .null ∨ (∃ K, Busy s T K) → Busy s T J := by
    refine fun hu => (hJ.of_step ho ht).resolve_right fun ⟨hT, _⟩ => ?_
    obtain ⟨-, hj, hb⟩ := h.unused hone hT
    exact hu.elim (absurd hj) fun ⟨K, hK⟩ => hb K hK
  rcases ht.joiner_cases T with e | ⟨-, e⟩ | ⟨-, e⟩ | ⟨hpc, -⟩
  · rw [e] at hd
    obtain ⟨p, rfl, hpc⟩ := h.detached T J hd (hJs (.inl (by simp [hd])))
    by_cases hpa : p = a.proc
    · -- it has just unlocked
      subst hpa
      have hproc := ht.detach_cases.2 hpc
      refine absurd hJ ?_
      rw [← congrArg Proc.thread hproc]
      exact ho'.not_busy (by simp [hproc, Pc.handle])
    · exact ⟨p, by rw [ht.proc_of_ne hpa], by rw [ht.proc_of_ne hpa, hpc]⟩
  · simp [e] at hd
  · simp [e] at hd
  · have hbusy : Busy s T (s.proc a.proc).thread := busy_of_handle (by rw [hpc, Pc.handle])
    have hproc := ht.detach_cases.1 hpc
    exact ⟨a.proc, by rw [hproc, h.unique T J _ (hJs (.inr ⟨_, hbusy⟩)) hbusy], by rw [hproc]⟩

include hl in
lemma found_step (p : Fin N) (hp : (t.proc p).pc.found = some T) : Abandoned t T := by
  by_cases hpa : p = a.proc
  · subst hpa
    rcases ht.found_cases hp with hp | ⟨hheld, hlk, hnone⟩
    · exact (h.found _ T hp).step ha ht
    · refine ⟨hlk ▸ hl.locked _ T hheld, fun q hq => ?_⟩
      by_cases hqa : q = a.proc
      · simp [hqa, hnone] at hq
      · exact hqa (hl.unique q a.proc T (ht.proc_of_ne hqa ▸ hq) hheld)
  · exact (h.found p T (ht.proc_of_ne hpa ▸ hp)).step ha ht

include ho hone in
/-- A block that has been freed stays out of reach. -/
lemma freed_step_of_freed (hC : ¬ Rewakes (fun _ => True) s a) (hf : 0 < (s.tcb T).freed) :
    (∀ J, ¬ Busy t T J) ∧ (Abandoned t T ∨ (t.tcb T).state = .dead ∧
      (t.tcb T).joiner.thread? ≠ none ∧ ∀ p, (t.proc p).pc.joinHeld ≠ some T) := by
  obtain ⟨-, hb, hout⟩ := h.freed T hf
  refine ⟨fun J hJ => ?_, ?_⟩
  · rcases hJ.of_step ho ht with hJ | ⟨hT, -⟩
    · exact hb J hJ
    · exact absurd (h.unused hone hT).1 hf.ne'
  · rcases hout with hab | ⟨hd, hj, hheld⟩
    · exact .inl (hab.step ha ht)
    · refine .inr ⟨ho.dead_mono ha ht hd, ?_, fun p hp => ?_⟩
      · rwa [h.joiner_eq ha ht fun e => hj (by rw [e]; rfl)]
      · by_cases hpa : p = a.proc
        · subst hpa
          rcases ht.joinHeld_cases hp with hp | ⟨-, hpc | hpc⟩
          · exact hheld _ hp
          · exact hb _ (busy_of_handle (Pc.handle_of_before hpc))
          · obtain ⟨j, hj⟩ := Option.ne_none_iff_exists'.mp hj
            exact hC ⟨T, hpc, hd, j, hj, trivial⟩
        · exact hheld p (ht.proc_of_ne hpa ▸ hp)

include ho ho' hl hone in
/-- A block gets out of reach when it is freed. -/
lemma freed_step_of_free (hC : ¬ FreesLocked s a)
    (hlk : (t.tcb T).joinSpinlock = (s.tcb T).joinSpinlock)
    (hnone : (t.proc a.proc).pc.joinHeld = none)
    (hfree : ((s.proc a.proc).pc.found = some T ∨ ∃ v, (s.proc a.proc).pc = .joinFree true T v) ∧
        (t.proc a.proc).thread = (s.proc a.proc).thread ∧ (t.proc a.proc).pc.handle = none ∨
      (∃ f, (s.proc a.proc).pc = .dyingJoiner T f) ∧ (s.tcb T).joiner = .detached) :
    (∀ J, ¬ Busy t T J) ∧ (Abandoned t T ∨ (t.tcb T).state = .dead ∧
      (t.tcb T).joiner.thread? ≠ none ∧ ∀ p, (t.proc p).pc.joinHeld ≠ some T) := by
  have hnew : a.handle ≠ some T := by
    intro hT
    obtain ⟨-, hj, hb⟩ := h.unused hone hT
    rcases hfree with ⟨hpc | ⟨v, hpc⟩, -⟩ | ⟨-, hd⟩
    · exact hb _ (busy_of_handle (Pc.handle_of_found hpc))
    · exact hb _ (busy_of_handle (by rw [hpc, Pc.handle]))
    · simp [hd] at hj
  have hold : ∀ J, Busy t T J → Busy s T J := fun J hJ =>
    (hJ.of_step ho ht).resolve_right fun e => hnew e.1
  rcases hfree with ⟨hpc, hth, hh⟩ | ⟨⟨f, hpc⟩, hd⟩
  · -- the only call on the handle ends here
    have hbusy : Busy s T (s.proc a.proc).thread := by
      rcases hpc with hpc | ⟨v, hpc⟩
      · exact busy_of_handle (Pc.handle_of_found hpc)
      · exact busy_of_handle (by rw [hpc, Pc.handle])
    refine ⟨fun J hJ => ?_, ?_⟩
    · obtain rfl := h.unique T J _ (hold J hJ) hbusy
      exact ho'.not_busy (by simp [hh]) (hth ▸ hJ)
    · rcases hpc with hpc | ⟨v, hpc⟩
      · exact .inl ((h.found _ T hpc).step ha ht)
      · obtain ⟨hd, hheld⟩ := h.dead_of_freesWoken ho hl hC hpc
        have hj := h.joined _ T (by rw [hpc]; rfl)
        refine .inr ⟨ho.dead_mono ha ht hd, ?_, fun p hp => ?_⟩
        · rw [h.joiner_eq ha ht (by simp [hj]), hj]
          simp [Joiner.thread?]
        · by_cases hpa : p = a.proc
          · simp [hpa, hnone] at hp
          · exact hheld p (ht.proc_of_ne hpa ▸ hp)
  · -- the exit of a detached thread keeps the join spinlock
    have hheld : (s.proc a.proc).pc.joinHeld = some T := by rw [hpc, Pc.joinHeld]
    refine ⟨fun J hJ => ?_, .inl ⟨hlk ▸ hl.locked _ T hheld, fun p hp => ?_⟩⟩
    · obtain ⟨p, -, hp⟩ := h.detached T J hd (hold J hJ)
      obtain rfl := hl.unique p a.proc T (by rw [hp, Pc.joinHeld]) hheld
      simp [hpc] at hp
    · by_cases hpa : p = a.proc
      · simp [hpa, hnone] at hp
      · exact hpa (hl.unique p a.proc T (ht.proc_of_ne hpa ▸ hp) hheld)

include ho ho' hl hone

/-- **The lifetime invariant is kept** by every step but a second wakeup and an early free. -/
theorem step (hC : ¬ Rewakes (fun _ => True) s a) (hC' : ¬ FreesLocked s a) :
    Lifetime (acts ++ [a]) t where
  called _ := h.called_step ho ht
  unique _ := h.unique_step ho ht hone
  before p _ := h.before_step ho ha ht hone p
  joined p _ := h.joined_step ha ht p
  stopped J _ := h.stopped_step ha ht J
  detached _ J := h.detached_step ho ho' ht hone J
  found p _ := h.found_step ha hl ht p
  freed T hf := by
    rcases ht.freed_cases hf with e | ⟨e, hlk, hnone, hfree⟩
    · rw [e] at hf ⊢
      exact ⟨(h.freed T hf).1, h.freed_step_of_freed ho ha ht hone hC hf⟩
    · refine ⟨?_, h.freed_step_of_free ho ho' ha hl ht hone hC' hlk hnone hfree⟩
      suffices h0 : ¬ 0 < (s.tcb T).freed by rw [e, Nat.eq_zero_of_not_pos h0]
      intro hf
      obtain ⟨h₁, h₂, h₃⟩ := h.not_free_of_freed hf a.proc
      rcases hfree with ⟨hpc | ⟨v, hpc⟩, -⟩ | ⟨⟨f, hpc⟩, -⟩
      · exact h₁ hpc
      · exact h₂ v hpc
      · exact h₃ f hpc

end Step

end Lifetime

/-- At the start no block has been freed. -/
lemma freed_init (T : Tid) : ((init N).tcb T).freed = 0 := by
  simp only [init, initTcb]
  grind [uthreadAlloc, uthreadNewThread]

/-- The lifetime invariant holds at the start. -/
lemma lifetime_init : Lifetime [] (init N) := by
  have hsp : ∀ J, ((init N).tcb J).savedSp.joined = none := by
    intro J
    simp only [init, initTcb]
    grind [uthreadAlloc, uthreadNewThread]
  have hbusy : ∀ T J, ¬ Busy (init N) T J := by
    rintro T J (⟨p, -, hp⟩ | ⟨-, hJ⟩)
    · simp [init, Pc.handle] at hp
    · simp [hsp] at hJ
  constructor
  · rintro T (h | h | ⟨J, h⟩)
    · simp [freed_init] at h
    · exact absurd (joiner_init T) h
    · exact absurd h (hbusy T J)
  · exact fun T J K h => absurd h (hbusy T J)
  · simp [init, Pc.before]
  · simp [init, Pc.joined]
  · intro J T h
    simp [hsp] at h
  · exact fun T J _ h => absurd h (hbusy T J)
  · simp [init, Pc.found]
  · intro T h
    simp [freed_init] at h

/-! ## Return values -/

/-- The `start_proc` of thread `T` returns `w`. -/
def Returns (T : Tid) (w : ℕ) (s : State N) (a : Act N) : Prop :=
  a = .call a.proc (.ret w) ∧ (s.proc a.proc).thread = T

/-- The stores to the return value of a thread. -/
lemma Trans.returnVal_cases (h : Trans s a t) (T : Tid) :
    (t.tcb T).returnVal = (s.tcb T).returnVal ∧ (∀ w, ¬ Returns T w s a) ∨
    T = s.fresh ∧ (t.tcb T).returnVal = none ∧ (∀ w, ¬ Returns T w s a) ∨
    (∃ w, Returns T w s a ∧ (t.tcb T).returnVal = some w) ∧ (s.proc a.proc).pc = .user ∧
      (s.proc a.proc).thread = T ∧ t.proc a.proc = ⟨T, .stopDequeue .exit⟩ := by
  cases h <;> grind [Returns, uthreadNewThread, uthreadAlloc]

/-- A thread whose `start_proc` has returned goes on until it is `TS_DYING`. -/
lemma Trans.exit_cases (h : Trans s a t) (hs : (s.proc a.proc).pc.site = some .exit) :
    (t.proc a.proc).thread = (s.proc a.proc).thread ∧ (t.proc a.proc).pc.site = some .exit ∨
    (t.tcb (s.proc a.proc).thread).state = .dying ∨
    (s.proc a.proc).thread ∈ s.readyQueue ∨
    ∃ c, (s.proc a.proc).pc = .stopDequeue c ∧ s.readyQueue = [] := by
  cases h <;> grind [Site.stoppingThreadState]

/-- A call of `uthread_join` that has stopped reads the return value and frees the block. -/
lemma Trans.woken_cases (h : Trans s a t) {T : Tid} {v : Value}
    (hpc : (t.proc a.proc).pc = .joinFree true T v ∨ (t.proc a.proc).pc = .joinReturn true T v) :
    (s.proc a.proc).pc = .joinValue true T ∧ v = (s.tcb T).returnVal ∨
      (s.proc a.proc).pc = .joinFree true T v := by
  cases h <;> grind [Site.return_cases, Starter.return_cases]

/-- **Return values.** A thread that has exited has returned, once, and whoever joins it reads what
it has returned. -/
structure Values (acts : List (Act N)) (s : State N) : Prop where
  occurs : ∀ T w, Occurs step (Returns T w) (init N) acts ↔ (s.tcb T).returnVal = some w
  returned : ∀ T, (s.tcb T).returnVal ≠ none → s.exited T ∨
    ∃ p, (s.proc p).thread = T ∧ (s.proc p).pc.site = some .exit
  exited : ∀ T, s.exited T → (s.tcb T).returnVal ≠ none
  exiting : ∀ p, (s.proc p).pc.site = some .exit →
    (s.tcb (s.proc p).thread).returnVal ≠ none
  read : ∀ p T v, ((s.proc p).pc = .joinFree true T v ∨ (s.proc p).pc = .joinReturn true T v) →
    v = (s.tcb T).returnVal ∧ s.exited T

namespace Values

variable {acts : List (Act N)} (h : Values acts s) (hi : Inv (fun _ => True) s)
  (ho' : Owned (fun _ => True) t) (hL : Lifetime acts s) (ht : Trans s a t) {T : Tid}

include hi ht

/-- A thread that has exited does not return again. -/
lemma returnVal_eq (hT : s.exited T) : (t.tcb T).returnVal = (s.tcb T).returnVal := by
  rcases ht.returnVal_cases T with ⟨e, -⟩ | ⟨rfl, -⟩ | ⟨-, -, hth, -⟩
  · exact e
  · exact absurd (hi.allocated.exited hT) (Nat.lt_irrefl _)
  · exact absurd hth (hi.owned.off T hT _)

include h

lemma occurs_step (hr : run step (init N) acts = some s) (w : ℕ) :
    Occurs step (Returns T w) (init N) (acts ++ [a]) ↔ (t.tcb T).returnVal = some w := by
  have hnew : (∃ u, run step (init N) acts = some u ∧ Returns T w u a) ↔ Returns T w s a := by
    simp [hr]
  rw [occurs_concat, hnew, h.occurs T w]
  rcases ht.returnVal_cases T with ⟨e, hn⟩ | ⟨rfl, e, hn⟩ | ⟨⟨w', hR, e⟩, hpc, hth, -⟩
  · simp [e, hn]
  · simp [e, hn, hi.allocated.unused _ le_rfl, uthreadAlloc]
  · -- it has not returned before
    have h0 : (s.tcb T).returnVal = none := by
      by_contra hne
      rcases h.returned T hne with hx | ⟨p, hp, hs⟩
      · exact hi.owned.off T hx _ hth
      · obtain rfl := hi.owned.alone p a.proc trivial (hp.trans hth.symm)
        simp [hpc, Pc.site] at hs
    have hw : Returns T w s a ↔ w' = w := by
      refine ⟨fun hR' => ?_, fun e => e ▸ hR⟩
      have := hR.1.symm.trans hR'.1
      simpa using this
    simp [h0, e, hw]

lemma returned_step (hT : (t.tcb T).returnVal ≠ none) : t.exited T ∨
    ∃ p, (t.proc p).thread = T ∧ (t.proc p).pc.site = some .exit := by
  have hold : (s.tcb T).returnVal ≠ none → t.exited T ∨
      ∃ p, (t.proc p).thread = T ∧ (t.proc p).pc.site = some .exit := by
    intro hne
    rcases h.returned T hne with hx | ⟨p, rfl, hs⟩
    · exact .inl (hi.owned.exited_mono hi.allocated ht hx)
    · by_cases hpa : p = a.proc
      · subst hpa
        rcases ht.exit_cases hs with ⟨e, hs'⟩ | hd | hm | ⟨c, hc, hnil⟩
        · exact .inr ⟨_, e, hs'⟩
        · exact .inl (.inl hd)
        · exact absurd hm (hi.owned.exiting _ hs .ready)
        · exact absurd hnil (hi.idle.readyQueue_ne_nil hc)
      · exact .inr ⟨p, by rw [ht.proc_of_ne hpa], by rw [ht.proc_of_ne hpa, hs]⟩
  rcases ht.returnVal_cases T with ⟨e, -⟩ | ⟨-, e, -⟩ | ⟨-, -, -, hp⟩
  · exact hold (e ▸ hT)
  · exact absurd e hT
  · exact .inr ⟨_, by rw [hp], by rw [hp]; rfl⟩

lemma exited_step (hT : t.exited T) : (t.tcb T).returnVal ≠ none := by
  rcases hi.owned.exited_cases ht hT with hx | ⟨rfl, u, hpc⟩
  · rw [returnVal_eq hi ht hx]
    exact h.exited T hx
  · have hne := h.exiting a.proc (by rw [hpc, Pc.site])
    rcases ht.returnVal_cases (s.proc a.proc).thread with ⟨e, -⟩ | ⟨e, -⟩ | ⟨-, hu, -⟩
    · rwa [e]
    · exact absurd (hi.allocated.thread a.proc) (e ▸ Nat.lt_irrefl _)
    · simp [hpc] at hu

lemma exiting_step (p : Fin N) (hp : (t.proc p).pc.site = some .exit) :
    (t.tcb (t.proc p).thread).returnVal ≠ none := by
  have hold : (s.proc p).pc.site = some .exit → (t.tcb (s.proc p).thread).returnVal ≠ none := by
    intro hs
    rcases ht.returnVal_cases (s.proc p).thread with ⟨e, -⟩ | ⟨e, -⟩ | ⟨⟨w, -, e⟩, -⟩
    · exact e ▸ h.exiting p hs
    · exact absurd (hi.allocated.thread p) (e ▸ Nat.lt_irrefl _)
    · simp [e]
  by_cases hpa : p = a.proc
  · subst hpa
    obtain ⟨e, hs | ⟨hc, -⟩ | ⟨v, hc, -⟩ | ⟨m, hc, -⟩ | ⟨-, q, w, hact, -⟩⟩ := ht.site_cases hp
    · exact e ▸ hold hs
    · simp at hc
    · simp at hc
    · simp at hc
    · have hR : Returns (s.proc a.proc).thread w s a := ⟨by rw [hact]; rfl, rfl⟩
      rcases ht.returnVal_cases (s.proc a.proc).thread with ⟨-, hn⟩ | ⟨-, -, hn⟩ | ⟨⟨w', -, e'⟩, -⟩
      · exact absurd hR (hn w)
      · exact absurd hR (hn w)
      · rw [e, e']
        simp
  · rw [ht.proc_of_ne hpa] at hp ⊢
    exact hold hp

include hL in
lemma read_step (p : Fin N) (v : Value)
    (hp : (t.proc p).pc = .joinFree true T v ∨ (t.proc p).pc = .joinReturn true T v) :
    v = (t.tcb T).returnVal ∧ t.exited T := by
  have hold : v = (s.tcb T).returnVal ∧ s.exited T → v = (t.tcb T).returnVal ∧ t.exited T :=
    fun ⟨e, hx⟩ => ⟨by rw [returnVal_eq hi ht hx, e], hi.owned.exited_mono hi.allocated ht hx⟩
  refine hold ?_
  by_cases hpa : p = a.proc
  · subst hpa
    rcases ht.woken_cases hp with ⟨hpc, rfl⟩ | hpc
    · refine ⟨rfl, ?_⟩
      have hj := hL.joined _ T (by rw [hpc]; rfl)
      rcases hi.owned.dead_or_held (by simp [Proc.carries, hpc, Pc.carries]) hj with hd | ⟨q, hq⟩
      · exact .inr hd
      · exact hi.owned.reaps q T (Pc.reaps_of_wakes hq)
    · exact h.read _ T v (.inl hpc)
  · exact h.read p T v (ht.proc_of_ne hpa ▸ hp)

include hL

/-- The return values are kept by every step. -/
theorem step (hr : run step (init N) acts = some s) : Values (acts ++ [a]) t where
  occurs _ := h.occurs_step hi ht hr
  returned _ := h.returned_step hi ht
  exited _ := h.exited_step hi ht
  exiting := h.exiting_step hi ht
  read p _ := h.read_step hi hL ht p

end Values

/-- At the start no thread has returned. -/
lemma values_init : Values [] (init N) := by
  have hv : ∀ T, ((init N).tcb T).returnVal = none := by
    intro T
    simp only [init, initTcb]
    grind [uthreadAlloc, uthreadNewThread]
  constructor
  · intro T w
    simp [Occurs, hv]
  · intro T h
    exact absurd (hv T) h
  · exact fun T h => absurd h (not_exited_init T)
  · simp [init, Pc.site]
  · simp [init]

/-! ## Runs -/

section Law

variable {acts : List (Act N)} (hN : 0 < N) (hone : (acts.filterMap Act.handle).Nodup)
  (h : AllSteps step (fun s a => ¬ Rewakes (fun _ => True) s a ∧ ¬ FreesLocked s a)
    (init N) acts)

include hN hone h

/-- The invariants along a run in which every handle is used once. -/
lemma lifetime_of_run (hr : run step (init N) acts = some s) :
    Inv (fun _ => True) s ∧ Lifetime acts s ∧ Values acts s := by
  have hone : ∀ T, calls T acts ≤ 1 := fun T => List.nodup_iff_count_le_one.mp hone T
  revert hone
  refine induct_of_allSteps (motive := fun acts s => (∀ T, calls T acts ≤ 1) →
    Inv (fun _ => True) s ∧ Lifetime acts s ∧ Values acts s)
    (fun _ => ⟨inv_init hN _, lifetime_init, values_init⟩) ?_ h hr
  rintro as a t u hr ih ⟨hC, hC'⟩ hu hone
  obtain ⟨hi, hL, hV⟩ := ih fun T => by
    have := hone T
    rw [calls_concat] at this
    omega
  have hi' := hi.step (fun _ _ => trivial) hC hu
  have ht := trans_of_step hu
  exact ⟨hi', hL.step hi.owned hi'.owned hi.allocated hi.joinGuarded ht hone hC hC',
    hV.step hi hL ht hr⟩

end Law

end Uthread
