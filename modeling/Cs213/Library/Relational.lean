import Mathlib.Data.Nat.Notation
import Mathlib.Tactic.SplitIfs
import Cs213.Library.Outcomes

set_option relaxedAutoImplicit false
set_option autoImplicit false

/-!
# Two computations that go the same way

A computation simulates another one, if from related states it ends with the same value or with the
same exception, and in related states again. Exceptions of some kinds are excused: when the first
computation ends with one of these, nothing is said about the second.

## Main definitions

* `Relational.Simulates` — a computation is simulated by another.

## Main results

* `Relational.Simulates.bind` — computations followed by others.
* `Relational.Simulates.iterate` — computations that are repeated.
-/

namespace Relational

open Outcomes

universe u

variable {ε σ τ α β : Type u} {R : σ → τ → Prop} {E : ε → Prop}

/-- The computation `y` goes the same way as `x`, from every two states that `R` relates, unless `x`
ends with an exception in `E`. -/
def Simulates (R : σ → τ → Prop) (E : ε → Prop) (x : EStateM ε σ α) (y : EStateM ε τ α) : Prop :=
  ∀ ⦃s s'⦄, R s s' → Ends x s (fun a t => ∃ t', y s' = .ok a t' ∧ R t t')
    fun e t => E e ∨ ∃ t', y s' = .error e t' ∧ R t t'

variable {x : EStateM ε σ α} {y : EStateM ε τ α}

lemma simulates_pure (a : α) : Simulates R E (pure a) (pure a) :=
  fun _ s' h => Ends.of_ok rfl ⟨s', rfl, h⟩

lemma simulates_throw (e : ε) : Simulates (α := α) R E (throw e) (throw e) :=
  fun _ s' h => Ends.of_error rfl (.inr ⟨s', rfl, h⟩)

/-- A change of the state. -/
lemma simulates_modify {f : σ → σ} {g : τ → τ} (h : ∀ s s', R s s' → R (f s) (g s')) :
    Simulates (ε := ε) R E (modify f : EStateM ε σ PUnit) (modify g) :=
  fun s s' hs => Ends.of_ok rfl ⟨g s', rfl, h s s' hs⟩

/-- **Computations followed by others.** -/
theorem Simulates.bind {f : α → EStateM ε σ β} {g : α → EStateM ε τ β} (h : Simulates R E x y)
    (hf : ∀ a, Simulates R E (f a) (g a)) : Simulates R E (x >>= f) (y >>= g) := by
  intro s s' hs
  refine Ends.bind ?_
  cases hx : x s with
  | ok a t =>
    obtain ⟨t', hy, ht⟩ := (h hs).value hx
    refine .of_ok hx ?_
    have hbind : (y >>= g) s' = g a t' := by simp only [Bind.bind, EStateM.bind, hy]
    rw [hbind]
    exact hf a ht
  | error e t =>
    refine .of_error hx (((h hs).exception hx).imp_right ?_)
    rintro ⟨t', hy, ht⟩
    exact ⟨t', by simp only [Bind.bind, EStateM.bind, hy], ht⟩

/-- Computations that look at the state. -/
lemma simulates_get {f : σ → EStateM ε σ β} {g : τ → EStateM ε τ β}
    (h : ∀ s s', R s s' → Simulates R E (f s) (g s')) :
    Simulates R E (get >>= f) (get >>= g) :=
  fun s s' hs => h s s' hs hs

/-- Computations with two branches. -/
lemma Simulates.ite {x' : EStateM ε σ α} {y' : EStateM ε τ α} {c : Prop} [Decidable c]
    (h : Simulates R E x y) (h' : Simulates R E x' y') :
    Simulates R E (if c then x else x') (if c then y else y') := by
  split_ifs
  · exact h
  · exact h'

/-- A computation repeated. -/
def iterate (x : EStateM ε σ PUnit) : ℕ → EStateM ε σ PUnit
  | 0 => pure ⟨⟩
  | n + 1 => do
    x
    iterate x n

/-- **Computations that are repeated.** -/
theorem Simulates.iterate {x : EStateM ε σ PUnit} {y : EStateM ε τ PUnit}
    (h : Simulates R E x y) (n : ℕ) :
    Simulates R E (Relational.iterate x n) (Relational.iterate y n) := by
  induction n with
  | zero => exact simulates_pure PUnit.unit
  | succ n ih => exact h.bind fun _ => ih

end Relational
