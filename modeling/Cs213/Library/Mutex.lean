import Mathlib.Data.Option.Basic

set_option relaxedAutoImplicit false
set_option autoImplicit false

/-!
# Mutual exclusion from a family of locks

Parties `P` and locks `R`. `held p` is the lock that party `p` is inside of, if any, and `locked r`
the word of lock `r`. A lock may be locked with nobody inside, when its holder leaves without
unlocking it.

A single lock is also described by what it is for: it has at most one holder.

## Main definitions

* `Mutex.Guarded` — a lock with a party inside is locked, and has no other party inside.
* `Mutex.step` — a lock that is acquired and released in one step each.

## Main results

* `Mutex.Guarded.step` — a step of one party keeps this, if the party enters only a lock that was
  not locked, leaves it locked as long as it is inside, and unlocks no lock but its own.
-/

namespace Mutex

variable {P R : Type*}

/-- Every lock that a party is inside of is locked, and it is inside of it alone. -/
structure Guarded (held : P → Option R) (locked : R → Bool) : Prop where
  locked : ∀ p r, held p = some r → locked r = true
  unique : ∀ p q r, held p = some r → held q = some r → p = q

variable {held held' : P → Option R} {locked locked' : R → Bool}

/-- **The step rule.** A step of party `p` keeps mutual exclusion. -/
theorem Guarded.step (h : Guarded held locked) (p : P) (others : ∀ q, q ≠ p → held' q = held q)
    (acquire : ∀ r, held' p = some r →
      locked' r = true ∧ (held p = some r ∨ locked r = false))
    (release : ∀ q r, q ≠ p → held q = some r → locked' r = false → held p = some r) :
    Guarded held' locked' := by
  have hself : ∀ q r, q ≠ p → held' p = some r → held' q ≠ some r := by
    intro q r hq hp hq'
    rw [others q hq] at hq'
    rcases (acquire r hp).2 with hp' | hl
    · exact hq (h.unique q p r hq' hp')
    · simp [h.locked q r hq'] at hl
  constructor
  · intro q r hq
    by_cases hqp : q = p
    · subst hqp
      exact (acquire r hq).1
    · rw [others q hqp] at hq
      refine Bool.of_not_eq_false fun hl => hqp ?_
      exact h.unique q p r hq (release q r hqp hq hl)
  · intro q₁ q₂ r h₁ h₂
    by_cases e₁ : q₁ = p <;> by_cases e₂ : q₂ = p
    · rw [e₁, e₂]
    · exact absurd h₂ (hself q₂ r e₂ (e₁ ▸ h₁))
    · exact absurd h₁ (hself q₁ r e₁ (e₂ ▸ h₂))
    · rw [others q₁ e₁] at h₁
      rw [others q₂ e₂] at h₂
      exact h.unique q₁ q₂ r h₁ h₂

/-! ### One lock -/

/-- What a party does with a lock. -/
inductive Op (P : Type*)
  | acquire (p : P)
  | release (p : P)
  deriving DecidableEq, Repr

/-- An atomic lock: its state is the party that holds it, if any. It is acquired by anybody when it
is free, and released by its holder. -/
def step [DecidableEq P] : Option P → Op P → Option (Option P)
  | none, .acquire p => some (some p)
  | some q, .release p => if q = p then some none else none
  | some _, .acquire _ => none
  | none, .release _ => none

section Step

variable [DecidableEq P] (p : P)

@[simp] lemma step_acquire : step none (.acquire p) = some (some p) := rfl

@[simp] lemma step_release : step (some p) (.release p) = some none := if_pos rfl

end Step

end Mutex
