import Mathlib.Data.List.Nodup

set_option relaxedAutoImplicit false
set_option autoImplicit false

/-!
# Looking up an owner by windows

The owner of a point is looked up in a list of windows, which are tested in their order; a point
that is in no window is looked up in another way. Every owner has a territory, whose points it is to
be found for.

## Main definitions

* `Lookup.lookup` — the owner that is found.

## Main results

* `Lookup.lookup_iff` — every owner is found on its territory exactly if its own window covers it
  and no earlier window meets it.
* `Lookup.lookup_rest_iff` — the points that are looked up in the other way.
-/

namespace Lookup

variable {α β ι : Type*} (covers : α → ι → Prop) [∀ a, DecidablePred (covers a)] (owner : α → β)

/-- The owner of the first window that covers a point, and `rest` if there is none. -/
def lookup (rest : Option β) (x : ι) : List α → Option β
  | [] => rest
  | a :: l => if covers a x then some (owner a) else lookup rest x l

variable {covers owner} {territory : α → ι → Prop} {rest : ι → Option β} {l : List α}

/-- The owner is that of a window, or it is found in the other way. -/
lemma mem_of_lookup {x : ι} {r : Option β} {b : β} (h : lookup covers owner r x l = some b) :
    b ∈ l.map owner ∨ r = some b := by
  induction l with
  | nil => exact .inr h
  | cons a l ih =>
    unfold lookup at h
    split_ifs at h with hcov
    · cases h
      exact .inl List.mem_cons_self
    · exact (ih h).imp_left (List.mem_cons_of_mem _)

/-- **Every owner is found on its territory** exactly if its own window covers it and no earlier
window meets it. -/
theorem lookup_iff (hnodup : (l.map owner).Nodup)
    (hrest : ∀ a ∈ l, ∀ x, territory a x → rest x ≠ some (owner a)) :
    (∀ a ∈ l, ∀ x, territory a x → lookup covers owner (rest x) x l = some (owner a)) ↔
      (∀ a ∈ l, ∀ x, territory a x → covers a x) ∧
        l.Pairwise fun b a => ∀ x, territory a x → ¬ covers b x := by
  induction l with
  | nil => simp
  | cons b l ih =>
    rw [List.map_cons, List.nodup_cons] at hnodup
    obtain ⟨hb, hnodup⟩ := hnodup
    have hne : ∀ a ∈ l, owner b ≠ owner a := fun a ha heq => hb (heq ▸ List.mem_map_of_mem ha)
    have ih := ih hnodup fun a ha => hrest a (List.mem_cons_of_mem _ ha)
    -- the window of `b` comes first: it has to keep away from the others
    have htail : ∀ a ∈ l, ∀ x,
        lookup covers owner (rest x) x (b :: l) = some (owner a) ↔
          ¬ covers b x ∧ lookup covers owner (rest x) x l = some (owner a) := by
      intro a ha x
      rw [lookup]
      by_cases hcov : covers b x
      · simp [hcov, hne a ha]
      · simp [hcov]
    have hhead : ∀ x, territory b x →
        (lookup covers owner (rest x) x (b :: l) = some (owner b) ↔ covers b x) := by
      intro x hx
      rw [lookup]
      by_cases hcov : covers b x
      · simp [hcov]
      · simp only [if_neg hcov, iff_false_right hcov]
        intro hlookup
        rcases mem_of_lookup hlookup with hmem | heq
        · exact hb hmem
        · exact hrest b List.mem_cons_self x hx heq
    rw [List.pairwise_cons, List.forall_mem_cons, List.forall_mem_cons]
    constructor
    · rintro ⟨hfirst, hothers⟩
      obtain ⟨hown, hpair⟩ := ih.mp fun a ha x hx => ((htail a ha x).mp (hothers a ha x hx)).2
      refine ⟨⟨fun x hx => (hhead x hx).mp (hfirst x hx), hown⟩, fun a ha x hx => ?_, hpair⟩
      exact ((htail a ha x).mp (hothers a ha x hx)).1
    · rintro ⟨⟨hfirst, hown⟩, haway, hpair⟩
      refine ⟨fun x hx => (hhead x hx).mpr (hfirst x hx), fun a ha x hx => ?_⟩
      exact (htail a ha x).mpr ⟨haway a ha x hx, ih.mpr ⟨hown, hpair⟩ a ha x hx⟩

/-- **A point that belongs to none of the windows** is looked up in the other way exactly if no
window covers it. -/
theorem lookup_rest_iff {x : ι} {r : Option β} (hr : ∀ a ∈ l, r ≠ some (owner a)) :
    lookup covers owner r x l = r ↔ ∀ a ∈ l, ¬ covers a x := by
  induction l with
  | nil => simp [lookup]
  | cons b l ih =>
    rw [List.forall_mem_cons, lookup]
    by_cases hcov : covers b x
    · simp [hcov, (hr b List.mem_cons_self).symm]
    · simp [hcov, ih fun a ha => hr a (List.mem_cons_of_mem _ ha)]

end Lookup
