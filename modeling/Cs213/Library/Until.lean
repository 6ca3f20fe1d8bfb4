import Mathlib.Computability.StateTransition
import Mathlib.Tactic.SplitIfs

set_option relaxedAutoImplicit false
set_option autoImplicit false

/-!
# The first state of a kind

A deterministic system `f : σ → Option σ` is followed up to the first state that has a property
`P`. Nothing is said about what it does from there on.

## Main definitions

* `Until.upTo` — the system, stopped where `P` holds.
* `Until.First` — the first state where `P` holds.
* `Until.Leads` — the system gets from the states of one kind to a state of another.

## Main results

* `Until.First.of_reaches` — the first state does not change on the way to it.
* `Until.First.unique` — there is one first state at most.
* `Until.not_of_reaches` — a way that ends avoids the states where `P` holds.
* `Until.Leads.loop` — going round a loop a given number of times.
-/

namespace Until

open StateTransition

variable {σ : Type*}

/-- The system `f`, stopped in the states where `P` holds. -/
def upTo (f : σ → Option σ) (P : σ → Prop) [DecidablePred P] (s : σ) : Option σ :=
  if P s then none else f s

/-- The state `t` is the first one from `s` on where `P` holds. -/
structure First (f : σ → Option σ) (P : σ → Prop) [DecidablePred P] (s t : σ) : Prop where
  reaches : Reaches (upTo f P) s t
  holds : P t

variable {f : σ → Option σ} {P : σ → Prop} [DecidablePred P] {s t u : σ}

/-- One step of the way. -/
lemma reaches_of_step (hP : ¬ P s) (h : f s = some t) : Reaches (upTo f P) s t := by
  apply Relation.ReflTransGen.single
  show upTo f P s = some t
  rw [upTo, if_neg hP, h]

/-- The way ends where `P` holds. -/
lemma eq_of_reaches (hP : P s) (h : Reaches (upTo f P) s t) : t = s := by
  rcases Relation.ReflTransGen.cases_head h with rfl | ⟨v, hv, -⟩
  · rfl
  · have hstop : upTo f P s = some v := hv
    rw [upTo, if_pos hP] at hstop
    cases hstop

/-- The way goes through states of the system. -/
lemma reaches_of_upTo (h : Reaches (upTo f P) s t) : Reaches f s t := by
  induction h with
  | refl => exact Relation.ReflTransGen.refl
  | @tail u v _ huv ih =>
    have hstep : upTo f P u = some v := huv
    have hf : f u = some v := by
      rw [upTo] at hstep
      split_ifs at hstep
      exact hstep
    exact ih.tail hf

/-- If the system stops without having got to a state where `P` holds, then it does not get to one
at all. -/
theorem not_of_reaches (h : Reaches (upTo f P) s t) (hP : ¬ P t) (hstop : f t = none)
    (hu : Reaches f s u) : ¬ P u := by
  induction h using Relation.ReflTransGen.head_induction_on with
  | refl =>
    rcases Relation.ReflTransGen.cases_head hu with rfl | ⟨v, hv, -⟩
    · exact hP
    · have hsome : f t = some v := hv
      rw [hstop] at hsome
      cases hsome
  | @head s v hsv _ ih =>
    have hstep : upTo f P s = some v := hsv
    rw [upTo] at hstep
    split_ifs at hstep with hs
    rcases Relation.ReflTransGen.cases_head hu with rfl | ⟨w, hw, hwu⟩
    · exact hs
    · have hfw : f s = some w := hw
      obtain rfl : v = w := Option.some.inj (hstep.symm.trans hfw)
      exact ih hwu

/-- **On the way** to the first state, it stays the first state. -/
theorem First.of_reaches (h : First f P s u) (ht : Reaches (upTo f P) s t) : First f P t u := by
  refine ⟨?_, h.holds⟩
  rcases reaches_total ht h.reaches with htu | hut
  · exact htu
  · rw [eq_of_reaches h.holds hut]
    exact Relation.ReflTransGen.refl

/-- **The first state** is unique. -/
theorem First.unique (h : First f P s t) (h' : First f P s u) : t = u :=
  (eq_of_reaches h.holds (h'.of_reaches h.reaches).reaches).symm

/-- If there is a first state, and it is not `s`, then the system makes a step from `s`. -/
lemma First.step (h : First f P s u) (hP : ¬ P s) : ∃ t, f s = some t := by
  rcases Relation.ReflTransGen.cases_head h.reaches with rfl | ⟨t, ht, -⟩
  · exact absurd h.holds hP
  · have hstep : upTo f P s = some t := ht
    rw [upTo, if_neg hP] at hstep
    exact ⟨t, hstep⟩

/-! ## Leading from one kind of states to another -/

/-- From every state where `P` holds the system `g` gets to one where `Q` holds. -/
def Leads (g : σ → Option σ) (P Q : σ → Prop) : Prop := ∀ ⦃s⦄, P s → ∃ t, Q t ∧ Reaches g s t

namespace Leads

variable {g : σ → Option σ} {Q R : σ → Prop}

lemma refl (Q : σ → Prop) : Leads g Q Q := fun s hs => ⟨s, hs, Relation.ReflTransGen.refl⟩

lemma trans {P : σ → Prop} (h : Leads g P Q) (h' : Leads g Q R) : Leads g P R := by
  intro s hs
  obtain ⟨t, ht, hst⟩ := h hs
  obtain ⟨u, hu, htu⟩ := h' ht
  exact ⟨u, hu, hst.trans htu⟩

/-- **Consequence**: from fewer states, or to more. -/
lemma mono {P P' Q' : σ → Prop} (h : Leads g P Q) (hP : ∀ s, P' s → P s) (hQ : ∀ s, Q s → Q' s) :
    Leads g P' Q' := by
  intro s hs
  obtain ⟨t, ht, hst⟩ := h (hP s hs)
  exact ⟨t, hQ t ht, hst⟩

/-- **A loop.** If each round leads from the states of `I k` to one of `I (k + 1)`, then `n` rounds
lead from the states of `I 0` to one of `I n`. -/
theorem loop {I : ℕ → σ → Prop} {n : ℕ} (round : ∀ k < n, Leads g (I k) (I (k + 1))) :
    Leads g (I 0) (I n) := by
  induction n with
  | zero => exact refl (I 0)
  | succ n ih =>
    have hprefix : Leads g (I 0) (I n) := ih fun k hk => round k (Nat.lt_succ_of_lt hk)
    exact hprefix.trans (round n (Nat.lt_succ_self n))

/-- The first state where `P` holds, from one of the states that lead to it. -/
lemma first (h : Leads (upTo f P) Q R) (hR : ∀ t, R t → P t) (hs : Q s) :
    ∃ t, R t ∧ First f P s t := by
  obtain ⟨t, ht, hst⟩ := h hs
  exact ⟨t, ht, hst, hR t ht⟩

/-- What leads to the first state where `P` holds says what it is. -/
lemma holds_first (h : Leads (upTo f P) Q R) (hR : ∀ t, R t → P t) (hs : Q s)
    (hu : First f P s u) : R u := by
  obtain ⟨t, ht, hst⟩ := h.first hR hs
  rwa [hu.unique hst]

/-- A first state is still ahead in the states on the way. -/
lemma first_ahead (h : Leads (upTo f P) Q R) (hs : Q s) (hu : First f P s u) :
    ∃ t, R t ∧ First f P t u := by
  obtain ⟨t, ht, hst⟩ := h hs
  exact ⟨t, ht, hu.of_reaches hst⟩

end Leads

end Until
