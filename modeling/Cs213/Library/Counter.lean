import Mathlib.Algebra.BigOperators.Group.Finset.Basic
import Mathlib.Algebra.Order.BigOperators.Group.Finset

set_option relaxedAutoImplicit false
set_option autoImplicit false

/-!
# A counter that threads increment without a lock

An increment is a load of the counter and a later store of the loaded value plus one. Between the
two other threads can load and store, and their increments are lost.

## Main definitions

* `Counter.Local` — what a thread has done with the counter.
* `Counter.Step` — a load, a store, or neither.
* `Counter.Bounded`, `Counter.Exact` — the invariants for many threads, and for one that stores.

## Main results

* `Counter.Bounded.step`, `Counter.Exact.step`, `Counter.Exact.step_other`.
* `Counter.Bounded.two_le_of` — of the increments of threads that make two or more, two are not
  lost.
-/

namespace Counter

open Finset

variable {ι : Type*}

/-- What a thread has done with the counter: how many stores, and the value that it has loaded and
has not stored yet. -/
@[ext]
structure Local where
  stored : ℕ
  loaded : Option ℕ

/-- A step of a thread, which takes the counter from `c` to `c'`. -/
inductive Step (c : ℕ) (l : Local) : ℕ → Local → Prop
  | stay : Step c l c l
  | load : Step c l c ⟨l.stored, some c⟩
  | store (x : ℕ) (h : l.loaded = some x) : Step c l (x + 1) ⟨l.stored + 1, none⟩

section Step

variable {c c' : ℕ} {l l' : Local}

/-- A step that is no load and no store. -/
lemma Step.of_stay (hc : c' = c) (hs : l'.stored = l.stored) (hl : l'.loaded = l.loaded) :
    Step c l c' l' := by
  obtain rfl : l' = l := Local.ext hs hl
  exact hc ▸ .stay

/-- A load. -/
lemma Step.of_load (hc : c' = c) (hs : l'.stored = l.stored) (hl : l'.loaded = some c) :
    Step c l c' l' := by
  obtain rfl : l' = ⟨l.stored, some c⟩ := Local.ext hs hl
  exact hc ▸ .load

/-- A store. -/
lemma Step.of_store (x : ℕ) (hx : l.loaded = some x) (hc : c' = x + 1)
    (hs : l'.stored = l.stored + 1) (hl : l'.loaded = none) : Step c l c' l' := by
  obtain rfl : l' = ⟨l.stored + 1, none⟩ := Local.ext hs hl
  exact hc ▸ .store x hx

lemma Step.stored_le (h : Step c l c' l') : l.stored ≤ l'.stored := by
  cases h with
  | stay => exact Nat.le_refl _
  | load => exact Nat.le_refl _
  | store x hx => exact Nat.le_succ _

/-- Only a store changes the counter. -/
lemma Step.eq_of_stored (h : Step c l c' l') (hs : l'.stored = l.stored) : c' = c := by
  cases h with
  | stay => rfl
  | load => rfl
  | store x hx => exact absurd hs (Nat.succ_ne_self _)

end Step

/-- **The invariant**, for the threads in `T`: no value is above the number of stores, and a value
is small only as long as some thread has not stored twice. -/
structure Bounded (T : Finset ι) (c : ℕ) (l : ι → Local) : Prop where
  le : c ≤ ∑ i ∈ T, (l i).stored
  loaded_le : ∀ i x, (l i).loaded = some x → x ≤ ∑ i ∈ T, (l i).stored
  pos : ∀ i, 0 < (l i).stored → 0 < c
  /-- What a thread loads after a store of its own is positive. -/
  again : ∀ i x, (l i).loaded = some x → 0 < (l i).stored → 0 < x
  two_le : 2 ≤ c ∨ (∀ i, (l i).stored = 0) ∨ ∃ i, (l i).stored = 1

/-- The invariant for the only thread `u` that stores. -/
structure Exact (u : ι) (c : ℕ) (l : ι → Local) : Prop where
  eq : c = (l u).stored
  loaded : ∀ x, (l u).loaded = some x → x = c

/-- A sum, when one of its terms changes. -/
lemma sum_move {T : Finset ι} {u : ι} {f g : ι → ℕ} (hu : u ∈ T)
    (hne : ∀ v ∈ T, v ≠ u → g v = f v) : ∑ i ∈ T, g i + f u = ∑ i ∈ T, f i + g u := by
  classical
  have hrest : ∑ i ∈ T.erase u, g i = ∑ i ∈ T.erase u, f i :=
    sum_congr rfl fun i hi => hne i (mem_of_mem_erase hi) (ne_of_mem_erase hi)
  rw [← add_sum_erase _ g hu, ← add_sum_erase _ f hu, hrest]
  omega

section Invariants

variable {T : Finset ι} {c c' : ℕ} {l l' : ι → Local} {u : ι}

/-- **A step** of one thread, which is one of `T` if it stores. -/
theorem Bounded.step (h : Bounded T c l) (hst : Step c (l u) c' (l' u))
    (hne : ∀ v, v ≠ u → l' v = l v) (hT : (l' u).stored = (l u).stored ∨ u ∈ T) :
    Bounded T c' l' := by
  have hcases : ∀ v, v = u ∨ l' v = l v := fun v => (eq_or_ne v u).imp_right (hne v)
  have hle : ∑ i ∈ T, (l i).stored ≤ ∑ i ∈ T, (l' i).stored := by
    refine sum_le_sum fun i _ => ?_
    rcases hcases i with rfl | e
    · exact hst.stored_le
    · rw [e]
  generalize hl : l' u = k at hst hT
  cases hst with
  | stay =>
    have heq : l' = l := funext fun v => (hcases v).elim (fun e => e ▸ hl) id
    exact heq ▸ h
  | load =>
    have hstored : ∀ v, (l' v).stored = (l v).stored := by
      intro v
      rcases hcases v with rfl | e
      · rw [hl]
      · rw [e]
    refine ⟨h.le.trans hle, fun i x hx => ?_, fun i hi => h.pos i (hstored i ▸ hi),
      fun i x hx hi => ?_, by simpa only [hstored] using h.two_le⟩
    · rcases hcases i with rfl | e
      · rw [hl] at hx
        cases hx
        exact h.le.trans hle
      · exact (h.loaded_le i x (e ▸ hx)).trans hle
    · rw [hstored] at hi
      rcases hcases i with rfl | e
      · rw [hl] at hx
        cases hx
        exact h.pos i hi
      · exact h.again i x (e ▸ hx) hi
  | store x hx =>
    have hu : u ∈ T := hT.resolve_left (Nat.succ_ne_self _)
    have hsum : ∑ i ∈ T, (l' i).stored = ∑ i ∈ T, (l i).stored + 1 := by
      have hsum := sum_move (f := fun i => (l i).stored) (g := fun i => (l' i).stored) hu
        fun v _ hv => congrArg Local.stored (hne v hv)
      rw [hl] at hsum
      simp only at hsum
      omega
    refine ⟨?_, fun i y hy => ?_, fun _ _ => Nat.succ_pos x, fun i y hy hi => ?_, ?_⟩
    · rw [hsum]
      exact Nat.succ_le_succ (h.loaded_le u x hx)
    · rcases hcases i with rfl | e
      · rw [hl] at hy
        cases hy
      · exact (h.loaded_le i y (e ▸ hy)).trans hle
    · rcases hcases i with rfl | e
      · rw [hl] at hy
        cases hy
      · exact h.again i y (e ▸ hy) (e ▸ hi)
    · -- the first store of a thread, or a later one
      rcases Nat.eq_zero_or_pos (l u).stored with h₀ | h₀
      · exact .inr (.inr ⟨u, by rw [hl, h₀]⟩)
      · exact .inl (Nat.succ_le_succ (h.again u x hx h₀))

/-- **Two increments are not lost**, if some thread has stored and none has stored only once. -/
lemma Bounded.two_le_of (h : Bounded T c l) (hone : ∀ i, (l i).stored ≠ 1)
    (hu : 0 < (l u).stored) : 2 ≤ c := by
  rcases h.two_le with h₂ | h₀ | ⟨i, hi⟩
  · exact h₂
  · exact absurd (h₀ u) hu.ne'
  · exact absurd hi (hone i)

/-- **A step of the only thread that stores.** -/
theorem Exact.step (h : Exact u c l) (hst : Step c (l u) c' (l' u)) : Exact u c' l' := by
  generalize hl : l' u = k at hst
  cases hst with
  | stay =>
    refine ⟨?_, fun x hx => h.loaded x (hl ▸ hx)⟩
    rw [hl]
    exact h.eq
  | load =>
    refine ⟨?_, fun x hx => ?_⟩
    · rw [hl]
      exact h.eq
    · rw [hl] at hx
      cases hx
      rfl
  | store x hx =>
    refine ⟨?_, fun y hy => ?_⟩
    · rw [hl, h.loaded x hx, h.eq]
    · rw [hl] at hy
      cases hy

/-- A step of another thread, which does not store. -/
lemma Exact.step_other (h : Exact u c l) (hc : c' = c) (hu : l' u = l u) : Exact u c' l' := by
  subst hc
  refine ⟨?_, fun x hx => h.loaded x (hu ▸ hx)⟩
  rw [hu]
  exact h.eq

/-- At the start no thread has stored. -/
lemma bounded_zero (hl : ∀ i, l i = ⟨0, none⟩) : Bounded T 0 l where
  le := Nat.zero_le _
  loaded_le i x hx := by simp [hl] at hx
  pos i hi := by simp [hl] at hi
  again i x hx := by simp [hl] at hx
  two_le := .inr (.inl fun i => by rw [hl])

lemma exact_zero (hl : ∀ i, l i = ⟨0, none⟩) : Exact u 0 l :=
  ⟨by rw [hl], fun x hx => by simp [hl] at hx⟩

end Invariants

end Counter
