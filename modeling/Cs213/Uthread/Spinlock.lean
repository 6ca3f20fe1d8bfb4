import Cs213.Library.Mutex
import Cs213.Library.Runs
import Mathlib.Logic.Function.Basic

set_option relaxedAutoImplicit false
set_option autoImplicit false

/-!
# Spinlocks

The spinlocks of `a9/uthread.c`, one access of a lock word at a time. `spinlock_lock` tests the word
before it exchanges it with its local variable `already_held`, and the exchange may come any time
after the test; a processor that comes too late writes the word as well.

## Main definitions

* `Uthread.Spinlock.State`, `Uthread.Spinlock.step` — any number of processors and of locks.
* `Uthread.Spinlock.SpinlockLaw` — at most one processor is inside a lock, and the lock word says
  whether one is.
* `Uthread.Spinlock.Represents` — the state of a lock is that of an atomic lock.

## Main results

* `Uthread.Spinlock.Represents.step` — a step is an operation of the atomic lock, or none.
* `Uthread.Spinlock.refines_mutex` — a run implements the atomic lock.
* `Uthread.Spinlock.spinlockLaw_of_run` — the law holds throughout every run.

## Implementation notes

Memory is sequentially consistent, and a processor is in one call at a time. What it does outside of
the three functions does not access the lock words and is not modelled; it may call `spinlock_lock`
on any lock, also on one that it is inside of.
-/

namespace Uthread.Spinlock

open Runs

/-! ## The code -/

/-- A `spinlock_t`. -/
abbrev SpinlockT := BitVec 32

/-- What a processor does next. In `spinlock_lock` it has a lock and the local variable
`already_held`. -/
inductive Pc (L : Type*)
  | user
  /-- `while (*lock);` -/
  | test (lock : L) (alreadyHeld : SpinlockT)
  /-- `xchg` -/
  | exchange (lock : L) (alreadyHeld : SpinlockT)
  /-- `while (already_held);` -/
  | loopTest (lock : L) (alreadyHeld : SpinlockT)
  deriving DecidableEq, Repr

/-- The lock words, what the processors do, and whether a processor is inside a lock, between the
return of `spinlock_lock` and its next `spinlock_unlock`. -/
structure State (P L : Type*) where
  lock : L → SpinlockT
  pc : P → Pc L
  inside : P → L → Bool

/-- The calls. -/
inductive Call (L : Type*)
  | spinlockCreate (lock : L)
  | spinlockLock (lock : L)
  | spinlockUnlock (lock : L)
  deriving DecidableEq, Repr

/-- A processor calls a function, or takes the next step of `spinlock_lock`. -/
inductive Act (P L : Type*)
  | call (p : P) (c : Call L)
  | run (p : P)
  deriving DecidableEq, Repr

/-- The processor that takes a step. -/
def Act.proc {P L : Type*} : Act P L → P
  | .call p _ => p
  | .run p => p

section Proc

variable {P L : Type*} (p : P) (c : Call L)

@[simp] lemma Act.proc_call : (Act.call p c).proc = p := rfl
@[simp] lemma Act.proc_run : (Act.run p : Act P L).proc = p := rfl

end Proc

section Code

variable {P L : Type*} [DecidableEq P] [DecidableEq L]

namespace State

/-- A store to a lock word. -/
def store (s : State P L) (l : L) (v : SpinlockT) : State P L :=
  { s with lock := Function.update s.lock l v }

/-- What processor `p` does next. -/
def goto (s : State P L) (p : P) (pc : Pc L) : State P L :=
  { s with pc := Function.update s.pc p pc }

/-- Processor `p` gets inside a lock or leaves it. -/
def setInside (s : State P L) (p : P) (l : L) (b : Bool) : State P L :=
  { s with inside := Function.update s.inside p (Function.update (s.inside p) l b) }

end State

/-- The calls: `spinlock_create` and `spinlock_unlock` are a store, and `spinlock_lock` begins. -/
def call (s : State P L) (p : P) : Call L → State P L
  | .spinlockCreate l => s.store l 0
  | .spinlockLock l => s.goto p (.test l 1)
  | .spinlockUnlock l => (s.store l 0).setInside p l false

/-- The next step of `spinlock_lock`. -/
def spinlockLock (s : State P L) (p : P) : Option (State P L) :=
  match s.pc p with
  | .user => none
  | .test l alreadyHeld =>
    if s.lock l ≠ 0 then some s else some (s.goto p (.exchange l alreadyHeld))
  | .exchange l alreadyHeld =>
    some ((s.store l alreadyHeld).goto p (.loopTest l (s.lock l)))
  | .loopTest l alreadyHeld =>
    if alreadyHeld ≠ 0 then some (s.goto p (.test l alreadyHeld))
    else some ((s.goto p .user).setInside p l true)

/-- **The step function.** -/
def step (s : State P L) : Act P L → Option (State P L)
  | .call p c => if s.pc p = .user then some (call s p c) else none
  | .run p => spinlockLock s p

end Code

variable {P L : Type*}

/-! ## The law -/

/-- No processor is inside the lock, or in a call on it. -/
def Unused (l : L) (s : State P L) : Prop :=
  ∀ p, s.inside p l = false ∧
    ∀ v, s.pc p ≠ .test l v ∧ s.pc p ≠ .exchange l v ∧ s.pc p ≠ .loopTest l v

/-- A lock is unlocked by a processor that is inside of it, and is not created again. -/
def Proper (l : L) (s : State P L) : Act P L → Prop
  | .call p (.spinlockUnlock k) => k = l → s.inside p l
  | .call _ (.spinlockCreate k) => k ≠ l
  | .call _ (.spinlockLock _) => True
  | .run _ => True

instance [DecidableEq L] (l : L) (s : State P L) : DecidablePred (Proper l s)
  | .call p (.spinlockUnlock k) => inferInstanceAs (Decidable (k = l → s.inside p l))
  | .call _ (.spinlockCreate k) => inferInstanceAs (Decidable (k ≠ l))
  | .call _ (.spinlockLock _) => isTrue trivial
  | .run _ => isTrue trivial

/-- **Mutual exclusion**: at most one processor is inside the lock; while one is, the lock word is
not zero; and when none is, and none has just exchanged out a zero, it is zero. -/
structure SpinlockLaw (l : L) (s : State P L) : Prop where
  exclusive : ∀ p q, s.inside p l → s.inside q l → p = q
  marked : ∀ p, s.inside p l → s.lock l ≠ 0
  free : (∀ p, ¬ s.inside p l) → (∀ p, s.pc p ≠ .loopTest l 0) → s.lock l = 0

/-! ## The atomic lock -/

/-- Processor `p` is inside the lock, or has just exchanged out a zero. -/
def Owns (l : L) (s : State P L) (p : P) : Prop := s.inside p l ∨ s.pc p = .loopTest l 0

/-- The lock is what an atomic lock is that `o` holds: only `o` owns it, the lock word is zero if it
is free, and no other processor will write a zero. -/
structure Represents (l : L) (s : State P L) (o : Option P) : Prop where
  owner : ∀ p, Owns l s p ↔ o = some p
  word : s.lock l = 0 ↔ o = none
  contender : ∀ p v, s.pc p = .test l v ∨ s.pc p = .exchange l v → v ≠ 0

/-- The operation of the atomic lock in a step: an exchange that takes out a zero acquires it. -/
def State.op [DecidableEq L] (l : L) (s : State P L) : Act P L → Option (Mutex.Op P)
  | .call p (.spinlockUnlock k) => if k = l then some (.release p) else none
  | .call _ _ => none
  | .run p => match s.pc p with
    | .exchange k _ => if k = l ∧ s.lock l = 0 then some (.acquire p) else none
    | _ => none

variable {l k : L} {s t : State P L} {o o' : Option P} {p q : P} {a : Act P L} {pc : Pc L}
  {v : SpinlockT} {b : Bool}

/-- The law holds of a lock that is like an atomic one. -/
lemma Represents.law (h : Represents l s o) : SpinlockLaw l s where
  exclusive p q hp hq := by
    have hp' : o = some p := (h.owner p).mp (.inl hp)
    have hq' : o = some q := (h.owner q).mp (.inl hq)
    exact Option.some.inj (hp'.symm.trans hq')
  marked p hp := by
    have hp' : o = some p := (h.owner p).mp (.inl hp)
    rw [Ne, h.word, hp']
    exact Option.some_ne_none p
  free hin hpc := by
    rw [h.word, Option.eq_none_iff_forall_ne_some]
    intro p hp
    exact ((h.owner p).mpr hp).elim (hin p) (hpc p)

/-- A step in which processor `p` alone moves, from an owner `o` to an owner `o'`. -/
lemma Represents.move (h : Represents l s o)
    (hothers : ∀ q, q ≠ p → t.pc q = s.pc q ∧ t.inside q l = s.inside q l)
    (howner : ∀ q, q ≠ p → (o' = some q ↔ o = some q)) (hself : Owns l t p ↔ o' = some p)
    (hword : t.lock l = 0 ↔ o' = none)
    (hcontender : ∀ v, t.pc p = .test l v ∨ t.pc p = .exchange l v → v ≠ 0) :
    Represents l t o' where
  owner q := by
    by_cases hq : q = p
    · subst hq
      exact hself
    · obtain ⟨hpc, hin⟩ := hothers q hq
      rw [howner q hq, ← h.owner q, Owns, Owns, hpc, hin]
  word := hword
  contender q v hv := by
    by_cases hq : q = p
    · subst hq
      exact hcontender v hv
    · rw [(hothers q hq).1] at hv
      exact h.contender q v hv

/-! ### What an update changes -/

section Update

variable [DecidableEq P]

@[simp] lemma lock_goto : (s.goto p pc).lock = s.lock := rfl
@[simp] lemma inside_goto : (s.goto p pc).inside = s.inside := rfl

@[simp] lemma pc_goto : (s.goto p pc).pc q = if q = p then pc else s.pc q :=
  Function.update_apply _ _ _ _

variable [DecidableEq L]

@[simp] lemma lock_setInside : (s.setInside p k b).lock = s.lock := rfl
@[simp] lemma pc_setInside : (s.setInside p k b).pc = s.pc := rfl

@[simp] lemma inside_setInside :
    (s.setInside p k b).inside q l = if q = p ∧ l = k then b else s.inside q l := by
  by_cases hq : q = p
  · subst hq
    by_cases hl : l = k <;> simp [State.setInside, hl]
  · simp [State.setInside, hq]

end Update

section Store

variable [DecidableEq L]

@[simp] lemma pc_store : (s.store k v).pc = s.pc := rfl
@[simp] lemma inside_store : (s.store k v).inside = s.inside := rfl

@[simp] lemma lock_store : (s.store k v).lock l = if l = k then v else s.lock l :=
  Function.update_apply _ _ _ _

/-- A lock that has just been created is free. -/
lemma represents_create (h : Unused l s) : Represents l (s.store l 0) none where
  owner p := by
    obtain ⟨hin, hpc⟩ := h p
    rw [Owns, inside_store, pc_store, hin]
    exact iff_of_false (not_or_intro Bool.false_ne_true (hpc 0).2.2) nofun
  word := by simp
  contender p v hv := absurd hv (not_or_intro ((h p).2 v).1 ((h p).2 v).2.1)

end Store

/-! ### Steps -/

section Step

variable [DecidableEq P] [DecidableEq L]

/-- A step moves one processor. -/
lemma step_others (ht : step s a = some t) (hq : q ≠ a.proc) :
    t.pc q = s.pc q ∧ t.inside q l = s.inside q l := by
  cases a with
  | call p c =>
    have hqp : q ≠ p := hq
    obtain ⟨-, ht⟩ := Option.ite_none_right_eq_some.mp ht
    cases ht
    cases c <;> simp [call, hqp]
  | run p =>
    have hqp : q ≠ p := hq
    simp only [step, spinlockLock] at ht
    split at ht
    · cases ht
    · split_ifs at ht <;> cases ht <;> simp [hqp]
    · cases ht
      simp [hqp]
    · split_ifs at ht <;> cases ht <;> simp [hqp]

/-- A step that is no operation on the lock: if the processor that moves owns the lock before and
after, or neither, and the lock word stays zero or nonzero, nothing has changed. -/
lemma Represents.quiet (h : Represents l s o) (ht : step s a = some t)
    (hself : Owns l t a.proc ↔ Owns l s a.proc) (hword : t.lock l = 0 ↔ s.lock l = 0)
    (hcontender : ∀ v, t.pc a.proc = .test l v ∨ t.pc a.proc = .exchange l v → v ≠ 0) :
    Represents l t o :=
  h.move (fun _ hq => step_others ht hq) (fun _ _ => Iff.rfl) (hself.trans (h.owner _))
    (hword.trans h.word) hcontender

/-- The operation of a step, in the states of the atomic lock. -/
def Simulated (l : L) (s : State P L) (o : Option P) (a : Act P L) (t : State P L) : Prop :=
  ∃ o', run Mutex.step o (s.op l a).toList = some o' ∧ Represents l t o'

/-- A call of one of the functions. -/
lemma Represents.step_call {c : Call L} (h : Represents l s o) (hC : Proper l s (.call p c))
    (ht : step s (.call p c) = some t) : Simulated l s o (.call p c) t := by
  obtain ⟨hpc, hcall⟩ := Option.ite_none_right_eq_some.mp ht
  cases hcall
  cases c with
  | spinlockCreate k =>
    have hk : l ≠ k := Ne.symm hC
    refine ⟨o, rfl, h.quiet ht Iff.rfl ?_ ?_⟩
    · simp [call, hk]
    · simp [call, hpc]
  | spinlockLock k =>
    refine ⟨o, rfl, h.quiet ht ?_ Iff.rfl ?_⟩
    · simp [call, Owns, hpc]
    · simp [call]
  | spinlockUnlock k =>
    by_cases hk : k = l
    · subst hk
      have ho : o = some p := (h.owner p).mp (.inl (hC rfl))
      subst ho
      refine ⟨none, by simp [State.op], h.move (fun _ hq => step_others ht hq) ?_ ?_ ?_ ?_⟩
      · intro q hq
        exact iff_of_false nofun fun hp => hq (Option.some.inj hp).symm
      · simp [call, Owns, hpc]
      · simp [call]
      · simp [call, hpc]
    · refine ⟨o, by simp [State.op, hk], h.quiet ht ?_ ?_ ?_⟩
      · simp [call, Owns, Ne.symm hk]
      · simp [call, Ne.symm hk]
      · simp [call, hpc]

/-- The exchange. -/
lemma Represents.step_exchange (h : Represents l s o) (hpc : s.pc p = .exchange k v)
    (ht : step s (.run p) = some t) : Simulated l s o (.run p) t := by
  have hnext : (s.store k v).goto p (.loopTest k (s.lock k)) = t := by
    simpa [step, spinlockLock, hpc] using ht
  cases hnext
  by_cases hk : k = l
  · subst hk
    have hv : v ≠ 0#32 := h.contender p v (.inr hpc)
    by_cases hfree : s.lock k = 0#32
    · -- a zero is taken out: the processor owns the lock from here on
      have ho : o = none := h.word.mp hfree
      subst ho
      refine ⟨some p, by simp [State.op, hpc, hfree], ?_⟩
      refine h.move (fun _ hq => step_others ht hq) ?_ ?_ ?_ ?_
      · intro q hq
        exact iff_of_false (fun hp => hq (Option.some.inj hp).symm) nofun
      · simp [Owns, hfree]
      · simpa using hv
      · simp
    · -- a processor that comes too late writes a nonzero word over another one
      refine ⟨o, by simp [State.op, hpc, hfree], h.quiet ht ?_ ?_ ?_⟩
      · simp [Owns, hpc, hfree]
      · simp [hv, hfree]
      · simp
  · refine ⟨o, by simp [State.op, hpc, hk], h.quiet ht ?_ ?_ ?_⟩
    · simp [Owns, hpc, hk]
    · simp [Ne.symm hk]
    · simp

/-- **A step** is an operation of the atomic lock, or none. -/
theorem Represents.step (h : Represents l s o) (hC : Proper l s a) (ht : step s a = some t) :
    Simulated l s o a t := by
  cases a with
  | call p c => exact h.step_call hC ht
  | run p =>
    cases hpc : s.pc p with
    | user => simp [Spinlock.step, spinlockLock, hpc] at ht
    | exchange k v => exact h.step_exchange hpc ht
    | test k v =>
      refine ⟨o, by simp [State.op, hpc], ?_⟩
      have hv : k = l → v ≠ 0#32 := by
        rintro rfl
        exact h.contender p v (.inl hpc)
      by_cases hfree : s.lock k = 0#32
      · have hnext : s.goto p (.exchange k v) = t := by
          simpa [Spinlock.step, spinlockLock, hpc, hfree] using ht
        cases hnext
        refine h.quiet ht ?_ Iff.rfl ?_
        · simp [Owns, hpc]
        · simpa using hv
      · have hnext : s = t := by
          simpa [Spinlock.step, spinlockLock, hpc, hfree] using ht
        exact hnext ▸ h
    | loopTest k v =>
      refine ⟨o, by simp [State.op, hpc], ?_⟩
      by_cases hv : v = 0#32
      · -- the return: the processor that owns the lock gets inside
        have hnext : (s.goto p .user).setInside p k true = t := by
          simpa [Spinlock.step, spinlockLock, hpc, hv] using ht
        cases hnext
        refine h.quiet ht ?_ Iff.rfl ?_
        · by_cases hk : k = l
          · simp [Owns, hpc, hv, hk]
          · simp [Owns, hpc, hk, Ne.symm hk]
        · simp
      · have hnext : s.goto p (.test k v) = t := by
          simpa [Spinlock.step, spinlockLock, hpc, hv] using ht
        cases hnext
        refine h.quiet ht ?_ Iff.rfl ?_
        · simp [Owns, hpc, hv]
        · simpa using fun _ => hv

/-! ### Runs -/

variable {acts : List (Act P L)}

/-- **A run implements the atomic lock**: it stands for a run of the atomic lock, and the lock is in
its last state. -/
theorem refines_mutex (h : Represents l s o) (hC : AllSteps Spinlock.step (Proper l) s acts)
    (ht : run Spinlock.step s acts = some t) :
    ∃ o', run Mutex.step o (trace Spinlock.step (fun s a => (s.op l a).toList) s acts) = some o' ∧
      Represents l t o' :=
  simulation (fun _ _ _ _ h hC ht => h.step hC ht) h hC ht

/-- **Spinlocks exclude.** After a lock has been created, the law holds in every state of every run
in which it is unlocked only by a processor that is inside of it. -/
theorem spinlockLaw_of_run (hunused : Unused l s)
    (hcreate : Spinlock.step s (.call p (.spinlockCreate l)) = some t)
    (hC : AllSteps Spinlock.step (Proper l) t acts) :
    Throughout Spinlock.step (SpinlockLaw l) t acts := by
  obtain ⟨-, hcall⟩ := Option.ite_none_right_eq_some.mp hcreate
  cases hcall
  rintro pre suf rfl u hu
  obtain ⟨o, -, ho⟩ := refines_mutex (represents_create hunused) hC.left hu
  exact ho.law

end Step

/-- Two processors and a lock that has not been created yet. -/
def start : State Bool Unit := ⟨fun _ => 1, fun _ => .user, fun _ _ => false⟩

/-- Both processors test the lock before one of them exchanges; the other one comes too late, and
gets the lock when it is unlocked. -/
def contended : List (Act Bool Unit) :=
  [.call false (.spinlockLock ()), .call true (.spinlockLock ()), .run false, .run true, .run false,
    .run true, .run false, .run true, .run true, .call false (.spinlockUnlock ()), .run true,
    .run true, .run true]

/-- The law holds throughout this run. -/
theorem spinlockLaw_contended :
    Throughout step (SpinlockLaw ()) (call start false (.spinlockCreate ())) contended :=
  spinlockLaw_of_run (s := start) (fun _ => ⟨rfl, fun _ => ⟨nofun, nofun, nofun⟩⟩) rfl (by decide)

example : (run step (call start false (.spinlockCreate ())) contended).map
    (fun s => (s.inside false (), s.inside true (), s.lock ())) = some (false, true, 1) := by decide

end Uthread.Spinlock
