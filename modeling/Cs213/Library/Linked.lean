import Mathlib.Data.List.Nodup
import Mathlib.Logic.Function.Basic

set_option relaxedAutoImplicit false
set_option autoImplicit false

/-!
# Linked lists

Cells that are linked by a field: `next a` is the cell after `a`, and `none` the null pointer. A
queue of cells is a pointer to the first and one to the last of them.

## Main definitions

* `Linked.Seg` — a pointer leads through the cells of a list to another pointer.
* `Linked.IsQueue` — the cells from a head pointer to the end are a list, whose last cell is the
  tail.

## Main results

* `Linked.Seg.unique`, `Linked.Seg.nodup` — what leads to the null pointer visits determined cells,
  and each of them once.
* `Linked.IsQueue.frame` — links of other cells do not matter.
* `Linked.IsQueue.push`, `Linked.IsQueue.pop` — a cell is linked behind the last one, and the first
  one is taken off.
-/

namespace Linked

variable {ν : Type*} {next next' : ν → Option ν}

/-! ### Segments -/

/-- The pointer `p` leads through the cells of the list to the pointer `e`. -/
def Seg (next : ν → Option ν) : Option ν → List ν → Option ν → Prop
  | p, [], e => p = e
  | p, a :: l, e => p = some a ∧ Seg next (next a) l e

namespace Seg

variable {p e : Option ν} {a : ν} {l m : List ν}

/-- The cells of a list that is put together. -/
lemma append_iff : Seg next p (l ++ m) e ↔ ∃ q, Seg next p l q ∧ Seg next q m e := by
  induction l generalizing p with
  | nil => simp [Seg]
  | cons a l ih =>
    show p = some a ∧ Seg next (next a) (l ++ m) e ↔ _
    rw [ih]
    constructor
    · rintro ⟨hp, q, hl, hm⟩
      exact ⟨q, ⟨hp, hl⟩, hm⟩
    · rintro ⟨q, ⟨hp, hl⟩, hm⟩
      exact ⟨hp, q, hl, hm⟩

/-- The last cell apart. -/
lemma concat_iff : Seg next p (l ++ [a]) e ↔ Seg next p l (some a) ∧ next a = e := by
  rw [append_iff]
  constructor
  · rintro ⟨q, hl, rfl, he⟩
    exact ⟨hl, he⟩
  · rintro ⟨hl, he⟩
    exact ⟨some a, hl, rfl, he⟩

/-- Only the links of the visited cells matter. -/
lemma congr (h : Seg next p l e) (hnext : ∀ a ∈ l, next' a = next a) : Seg next' p l e := by
  induction l generalizing p with
  | nil => exact h
  | cons a l ih =>
    obtain ⟨hp, hl⟩ := h
    rw [List.forall_mem_cons] at hnext
    refine ⟨hp, ?_⟩
    rw [hnext.1]
    exact ih hl hnext.2

/-- What leads to the null pointer starts with the first cell. -/
lemma eq_head? (h : Seg next p l none) : p = l.head? := by
  cases l with
  | nil => exact h
  | cons a l => exact h.1

/-- **The visited cells are determined** by the pointer that leads through them to the end. -/
theorem unique (hl : Seg next p l none) (hm : Seg next p m none) : l = m := by
  induction l generalizing p m with
  | nil =>
    have hhead := hm.eq_head?
    rw [hl.eq_head?] at hhead
    exact (List.head?_eq_none_iff.mp hhead.symm).symm
  | cons a l ih =>
    obtain ⟨rfl, hl⟩ := hl
    cases m with
    | nil => cases hm
    | cons b m =>
      obtain ⟨hb, hm⟩ := hm
      cases hb
      rw [ih hl hm]

/-- **Each cell is visited once** on the way to the null pointer: after a second visit the rest of
the way would be the same again. -/
theorem nodup (h : Seg next p l none) : l.Nodup := by
  induction l generalizing p with
  | nil => exact List.nodup_nil
  | cons a l ih =>
    obtain ⟨-, hl⟩ := h
    rw [List.nodup_cons]
    refine ⟨fun hmem => ?_, ih hl⟩
    obtain ⟨pre, post, rfl⟩ := List.append_of_mem hmem
    obtain ⟨q, -, -, hpost⟩ := append_iff.mp hl
    have hlen := congrArg List.length (unique hl hpost)
    rw [List.length_append, List.length_cons] at hlen
    omega

end Seg

/-! ### Queues -/

/-- The cells of a queue: `head` leads through them to the end, and `tail` is the last one. -/
structure IsQueue (next : ν → Option ν) (head tail : Option ν) (l : List ν) : Prop where
  seg : Seg next head l none
  tail_eq : tail = l.getLast?

namespace IsQueue

variable {head tail : Option ν} {a t : ν} {l m : List ν}

/-- Nothing is in the empty queue. -/
lemma nil : IsQueue next none none [] := ⟨rfl, rfl⟩

/-- The head is the first cell. -/
lemma head_eq (h : IsQueue next head tail l) : head = l.head? := h.seg.eq_head?

/-- The head is null exactly if the tail is. -/
lemma head_eq_none_iff (h : IsQueue next head tail l) : head = none ↔ tail = none := by
  rw [h.head_eq, h.tail_eq, List.head?_eq_none_iff, List.getLast?_eq_none_iff]

/-- **The frame rule**: the links of the other cells do not matter. -/
theorem frame (h : IsQueue next head tail l) (hnext : ∀ a ∈ l, next' a = next a) :
    IsQueue next' head tail l :=
  ⟨h.seg.congr hnext, h.tail_eq⟩

/-- The first cell is taken off. -/
theorem pop (h : IsQueue next head tail (a :: l)) :
    IsQueue next (next a) (if next a = none then none else tail) l := by
  obtain ⟨-, hseg⟩ := h.seg
  refine ⟨hseg, ?_⟩
  rw [hseg.eq_head?, h.tail_eq]
  cases l with
  | nil => rfl
  | cons b l => rw [if_neg nofun, List.getLast?_cons_cons]

variable [DecidableEq ν]

/-- **A cell is linked behind the last one.** -/
theorem push (h : IsQueue next head (some a) l) (ht : t ∉ l) :
    IsQueue (Function.update (Function.update next t none) a (some t)) head (some t)
      (l ++ [t]) := by
  obtain ⟨m, rfl⟩ := List.getLast?_eq_some_iff.mp h.tail_eq.symm
  have hnodup := h.seg.nodup
  obtain ⟨hm, -⟩ := Seg.concat_iff.mp h.seg
  rw [List.nodup_append] at hnodup
  have ham : a ∉ m := fun hmem => hnodup.2.2 a hmem a List.mem_cons_self rfl
  have hta : t ≠ a := by
    rintro rfl
    simp at ht
  refine ⟨?_, by simp⟩
  rw [Seg.concat_iff, Seg.concat_iff]
  refine ⟨⟨hm.congr fun b hb => ?_, ?_⟩, ?_⟩
  · have hba : b ≠ a := fun heq => ham (heq ▸ hb)
    have hbt : b ≠ t := by
      rintro rfl
      exact ht (List.mem_append_left _ hb)
    rw [Function.update_of_ne hba, Function.update_of_ne hbt]
  · rw [Function.update_self]
  · rw [Function.update_of_ne hta, Function.update_self]

/-- A cell is put into the empty queue. -/
theorem push_nil : IsQueue (Function.update next t none) (some t) (some t) [t] :=
  ⟨⟨rfl, Function.update_self ..⟩, rfl⟩

end IsQueue

end Linked
