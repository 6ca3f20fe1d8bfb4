import Mathlib.Logic.Basic

set_option relaxedAutoImplicit false
set_option autoImplicit false

/-!
# How a computation ends

A computation with a state and exceptions ends with a value or with an exception, and in both
cases in some state: `EStateM` keeps the changes made before an exception. A specification says
what holds at the end in each of the two cases.

## Main definitions

* `Outcomes.Ends` — what holds when a computation ends.

## Main results

* `Outcomes.Ends.bind` — a computation followed by another.
* `Outcomes.Ends.value`, `Outcomes.Ends.exception` — what the specification says about a result.
-/

namespace Outcomes

universe u

variable {ε σ α β : Type u} {x : EStateM ε σ α} {s t : σ} {a : α} {e : ε}
  {Q : α → σ → Prop} {E : ε → σ → Prop}

/-- Run from `s`, the computation `x` ends with a value and in a state with `Q`, or with an
exception and in a state with `E`. -/
def Ends (x : EStateM ε σ α) (s : σ) (Q : α → σ → Prop) (E : ε → σ → Prop) : Prop :=
  match x s with
  | .ok a t => Q a t
  | .error e t => E e t

lemma Ends.of_ok (h : x s = .ok a t) (hQ : Q a t) : Ends x s Q E := by
  unfold Ends
  rw [h]
  exact hQ

lemma Ends.of_error (h : x s = .error e t) (hE : E e t) : Ends x s Q E := by
  unfold Ends
  rw [h]
  exact hE

/-- What is known about the value. -/
theorem Ends.value (h : Ends x s Q E) (hx : x s = .ok a t) : Q a t := by
  unfold Ends at h
  rwa [hx] at h

/-- What is known about the exception. -/
theorem Ends.exception (h : Ends x s Q E) (hx : x s = .error e t) : E e t := by
  unfold Ends at h
  rwa [hx] at h

/-- **A computation followed by another.** An exception of the first is one of the whole. -/
theorem Ends.bind {f : α → EStateM ε σ β} {Q : β → σ → Prop}
    (h : Ends x s (fun a t => Ends (f a) t Q E) E) : Ends (x >>= f) s Q E := by
  cases hx : x s with
  | ok a t =>
    have hf : Ends (f a) t Q E := h.value hx
    have hbind : (x >>= f) s = f a t := by simp only [Bind.bind, EStateM.bind, hx]
    unfold Ends at hf ⊢
    rwa [hbind]
  | error e t =>
    have hbind : (x >>= f) s = .error e t := by simp only [Bind.bind, EStateM.bind, hx]
    exact .of_error hbind (h.exception hx)

/-- A computation whose first part ends with a value. -/
lemma ends_bind_of_ok {f : α → EStateM ε σ β} {Q : β → σ → Prop} (h : x s = .ok a t) :
    Ends (x >>= f) s Q E ↔ Ends (f a) t Q E := by
  have hbind : (x >>= f) s = f a t := by simp only [Bind.bind, EStateM.bind, h]
  unfold Ends
  rw [hbind]

end Outcomes
