import Mathlib.Data.List.Count
import Mathlib.Order.Nat

set_option relaxedAutoImplicit false
set_option autoImplicit false

/-!
# Things that are in at most one place

A family of lists `C : L → List T` says what lies in each place. A thing is *exclusively* placed if
it lies in at most one place and occurs there at most once.

## Main definitions

* `Placement.Exclusive` — exclusive placement of one thing.
* `Placement.Shift` — a step that takes copies of a thing away, or moves it to another place.

## Main results

* `Placement.Shift.of_sum` — a shift is recognised by counting copies in two places.
* `Placement.Shift.exclusive` — a shift keeps exclusive placement.
* `Placement.Shift.mem` — and leaves a thing nowhere that was nowhere.
* `Placement.Exclusive.appear` — placing a thing that was nowhere is exclusive.
-/

namespace Placement

variable {L T : Type*} [DecidableEq T]

/-- `t` lies in at most one of the places, and at most once. -/
structure Exclusive (C : L → List T) (t : T) : Prop where
  count_le : ∀ l, (C l).count t ≤ 1
  unique : ∀ l k, t ∈ C l → t ∈ C k → l = k

variable {C C' : L → List T} {t : T}

/-- A thing that lies in a place with no more copies than before lay there before. -/
lemma mem_of_count_le {l : L} (h : (C' l).count t ≤ (C l).count t) (ht : t ∈ C' l) :
    t ∈ C l :=
  List.count_pos_iff.mp ((List.count_pos_iff.mpr ht).trans_le h)

/-- Taking copies away keeps placement exclusive. -/
lemma Exclusive.mono (h : Exclusive C t) (hle : ∀ l, (C' l).count t ≤ (C l).count t) :
    Exclusive C' t where
  count_le l := (hle l).trans (h.count_le l)
  unique l k hl hk := h.unique l k (mem_of_count_le (hle l) hl) (mem_of_count_le (hle k) hk)

/-- A thing that is in no place but `l'`, and there at most once. -/
lemma Exclusive.of_single (l' : L) (hdst : (C' l').count t ≤ 1) (h : ∀ k, k ≠ l' → t ∉ C' k) :
    Exclusive C' t := by
  constructor
  · intro l
    by_cases hl : l = l'
    · exact hl ▸ hdst
    · rw [List.count_eq_zero_of_not_mem (h l hl)]
      exact Nat.zero_le 1
  · intro k₁ k₂ h₁ h₂
    by_contra hne
    by_cases e : k₁ = l'
    · exact h k₂ (fun e₂ => hne (e.trans e₂.symm)) h₂
    · exact h k₁ e h₁

/-- A thing that was nowhere can be placed once, in one place. -/
lemma Exclusive.appear (l' : L) (h : ∀ l, t ∉ C l) (hdst : (C' l').count t ≤ 1)
    (hle : ∀ k, k ≠ l' → (C' k).count t ≤ (C k).count t) : Exclusive C' t :=
  .of_single l' hdst fun k hk ht => h k (mem_of_count_le (hle k hk) ht)

/-- A thing can be moved from place `l` to place `l'`. -/
lemma Exclusive.move {l l' : L} (h : Exclusive C t) (hl : t ∈ C l) (hne : l ≠ l')
    (hsrc : (C' l).count t < (C l).count t) (hdst : (C' l').count t ≤ (C l').count t + 1)
    (hle : ∀ k, k ≠ l → k ≠ l' → (C' k).count t ≤ (C k).count t) : Exclusive C' t := by
  have h0 : ∀ k, k ≠ l → t ∉ C k := fun k hk ht => hk (h.unique k l ht hl)
  refine .of_single l' ?_ fun k hk ht => ?_
  · rwa [List.count_eq_zero_of_not_mem (h0 l' hne.symm)] at hdst
  · by_cases hkl : k = l
    · subst hkl
      have := h.count_le k
      have := List.count_pos_iff.mpr ht
      omega
    · exact h0 k hkl (mem_of_count_le (hle k hkl hk) ht)

/-- A thing that is exclusively placed at `l` is nowhere once it has been taken from there. -/
lemma Exclusive.not_mem_of_remove {l : L} (h : Exclusive C t) (hl : t ∈ C l)
    (hsrc : (C' l).count t < (C l).count t)
    (hle : ∀ k, k ≠ l → (C' k).count t ≤ (C k).count t) (k : L) : t ∉ C' k := by
  intro ht
  by_cases hk : k = l
  · subst hk
    have := h.count_le k
    have := List.count_pos_iff.mpr ht
    omega
  · exact hk (h.unique k l (mem_of_count_le (hle k hk) ht) hl)

/-- A step that does not add copies of `t` anywhere, or moves one from `l` to `l'`. -/
inductive Shift (C C' : L → List T) (t : T) : Prop
  | stay (hle : ∀ l, (C' l).count t ≤ (C l).count t)
  | move (l l' : L) (hl : t ∈ C l) (hne : l ≠ l') (hsrc : (C' l).count t < (C l).count t)
      (hdst : (C' l').count t ≤ (C l').count t + 1)
      (hle : ∀ k, k ≠ l → k ≠ l' → (C' k).count t ≤ (C k).count t)

/-- **A shift keeps exclusive placement.** -/
theorem Shift.exclusive (hs : Shift C C' t) (h : Exclusive C t) : Exclusive C' t := by
  cases hs with
  | stay hle => exact h.mono hle
  | move l l' hl hne hsrc hdst hle => exact h.move hl hne hsrc hdst hle

/-- If `t` is exclusively placed and two places together have no more copies than before, then no
copy is added there or one moves from one of them to the other. -/
lemma Shift.of_sum (h : Exclusive C t) (l l' : L) (hne : l ≠ l')
    (hsum : (C' l).count t + (C' l').count t ≤ (C l).count t + (C l').count t)
    (hle : ∀ k, k ≠ l → k ≠ l' → (C' k).count t ≤ (C k).count t) : Shift C C' t := by
  have h₁ := h.count_le l
  have h₂ := h.count_le l'
  rcases Nat.lt_or_ge ((C l').count t) ((C' l').count t) with h' | h'
  · exact .move l l' (List.count_pos_iff.mp (by omega)) hne (by omega) (by omega) hle
  · rcases Nat.lt_or_ge ((C l).count t) ((C' l).count t) with h'' | h''
    · exact .move l' l (List.count_pos_iff.mp (by omega)) hne.symm (by omega) (by omega)
        fun k h₁ h₂ => hle k h₂ h₁
    · refine .stay fun k => ?_
      by_cases hk : k = l
      · exact hk ▸ h''
      · by_cases hk' : k = l'
        · exact hk' ▸ h'
        · exact hle k hk hk'

/-- What is somewhere after a shift was somewhere before. -/
lemma Shift.mem (hs : Shift C C' t) {l : L} (ht : t ∈ C' l) : ∃ k, t ∈ C k := by
  cases hs with
  | stay hle => exact ⟨l, mem_of_count_le (hle l) ht⟩
  | move k _ hk => exact ⟨k, hk⟩

end Placement
