import Mathlib

set_option relaxedAutoImplicit false
set_option autoImplicit false

/-!
# Selecting an element of a list

A list is read from its beginning, and the element read takes the place of the one selected so far
or does not. Two ways to compare elements are set against each other: one that selects what is
wanted, and one that is used instead.

## Main definitions

* `Selection.pick` — the element read takes the place of the one selected, or not.
* `Selection.select` — the element selected from a list.
* `Selection.Best` — an element of a list that no element exceeds.

## Main results

* `Selection.best_select` — with the comparison by a value, the best element is selected.
* `Selection.select_take_eq_iff` — two comparisons select the same, from all beginnings of a list,
  exactly if no pick goes wrong.
* `Selection.select_flat_eq_iff` — the same with beginnings that are continued by their last
  element.
-/

namespace Selection

variable {α : Type*} (takes : α → α → Prop) [DecidableRel takes]

/-- The element `x` takes the place of `m`, or not. -/
def pick (m x : α) : α := if takes x m then x else m

/-- The element selected from `m` and the elements of a list, one after the other. -/
def select (m : α) (l : List α) : α := l.foldl (pick takes) m

variable {takes} {m x : α} {l l' : List α}

@[simp] lemma select_nil : select takes m [] = m := rfl

lemma select_append : select takes m (l ++ l') = select takes (select takes m l) l' :=
  List.foldl_append

lemma select_take_succ {k : ℕ} (hk : k < l.length) :
    select takes m (l.take (k + 1)) = pick takes (select takes m (l.take k)) l[k] := by
  rw [List.take_succ_eq_append_getElem hk, select_append]
  rfl

/-- An element that has been read changes nothing when it is read again. -/
lemma pick_pick : pick takes (pick takes m x) x = pick takes m x := by
  by_cases h : takes x m
  · rw [pick, pick, if_pos h, ite_self]
  · rw [pick, pick, if_neg h, if_neg h]

lemma select_replicate (n : ℕ) :
    select takes (pick takes m x) (List.replicate n x) = pick takes m x := by
  induction n with
  | zero => rfl
  | succ n ih =>
    rw [List.replicate_succ]
    show select takes (pick takes (pick takes m x) x) (List.replicate n x) = _
    rw [pick_pick, ih]

/-! ## The best element -/

section Best

variable {β : Type*} [LinearOrder β] {f : α → β}

/-- The element `v` of a list has the greatest value. -/
def Best (f : α → β) (v : α) (l : List α) : Prop := v ∈ l ∧ ∀ x ∈ l, f x ≤ f v

/-- **The comparison by a value** selects the best element. -/
theorem best_select (htakes : ∀ x m, takes x m ↔ f m < f x) (m : α) (l : List α) :
    Best f (select takes m l) (m :: l) := by
  induction l generalizing m with
  | nil => exact ⟨List.mem_singleton_self m, fun x hx => by rw [List.mem_singleton.mp hx]; rfl⟩
  | cons y l ih =>
    obtain ⟨hmem, hle⟩ := ih (pick takes m y)
    have hpick : f m ≤ f (pick takes m y) ∧ f y ≤ f (pick takes m y) ∧
        pick takes m y ∈ m :: y :: l := by
      by_cases h : takes y m
      · rw [pick, if_pos h]
        exact ⟨le_of_lt ((htakes y m).mp h), le_refl _,
          List.mem_cons_of_mem _ List.mem_cons_self⟩
      · rw [pick, if_neg h]
        exact ⟨le_refl _, le_of_not_gt fun hlt => h ((htakes y m).mpr hlt), List.mem_cons_self⟩
    have hfirst := hle _ List.mem_cons_self
    refine ⟨?_, fun x hx => ?_⟩
    · rcases List.mem_cons.mp hmem with heq | hl
      · show select _ (pick takes m y) l ∈ _
        rw [heq]
        exact hpick.2.2
      · exact List.mem_cons_of_mem _ (List.mem_cons_of_mem _ hl)
    · rcases List.mem_cons.mp hx with rfl | hx
      · exact le_trans hpick.1 hfirst
      · rcases List.mem_cons.mp hx with rfl | hx
        · exact le_trans hpick.2.1 hfirst
        · exact hle x (List.mem_cons_of_mem _ hx)

/-- The values of best elements are the same. -/
lemma Best.unique {v w : α} (hf : Function.Injective f) (hv : Best f v l) (hw : Best f w l) :
    v = w :=
  hf (le_antisymm (hw.2 v hv.1) (hv.2 w hw.1))

end Best

/-! ## Comparisons that go wrong -/

section Compare

variable {takes' : α → α → Prop} [DecidableRel takes']

/-- The comparisons pick the same element, in every place of a list. -/
def Agree (takes takes' : α → α → Prop) [DecidableRel takes] [DecidableRel takes'] (m : α)
    (l : List α) : Prop :=
  ∀ k (hk : k < l.length), pick takes' (select takes m (l.take k)) l[k] =
    pick takes (select takes m (l.take k)) l[k]

/-- The comparisons pick the same element if they agree, and if there is one element only. -/
lemma pick_eq_iff : pick takes' m x = pick takes m x ↔ x = m ∨ (takes' x m ↔ takes x m) := by
  by_cases h : takes x m <;> by_cases h' : takes' x m
  · simp [pick, h, h']
  · simp [pick, h, h', eq_comm]
  · simp [pick, h, h']
  · simp [pick, h, h']

/-- Comparisons that agree select the same. -/
lemma Agree.select_take_eq (h : Agree takes takes' m l) {k : ℕ} (hk : k ≤ l.length) :
    select takes' m (l.take k) = select takes m (l.take k) := by
  induction k with
  | zero => rfl
  | succ k ih =>
    rw [select_take_succ hk, select_take_succ hk, ih (Nat.le_of_lt hk), h k hk]

lemma Agree.select_eq (h : Agree takes takes' m l) : select takes' m l = select takes m l := by
  have := h.select_take_eq (Nat.le_refl l.length)
  rwa [List.take_length] at this

/-- **All beginnings of a list**: the comparisons select the same from each of them exactly if they
agree. -/
theorem select_take_eq_iff :
    (∀ k ≤ l.length, select takes' m (l.take k) = select takes m (l.take k)) ↔
      Agree takes takes' m l := by
  constructor
  · intro h k hk
    have hnext := h (k + 1) hk
    rwa [select_take_succ hk, select_take_succ hk, h k (Nat.le_of_lt hk)] at hnext
  · exact fun h k hk => h.select_take_eq hk

/-- The list up to element `k`, which is repeated to the end. -/
def flat (l : List α) (k : ℕ) (hk : k < l.length) : List α :=
  l.take (k + 1) ++ List.replicate (l.length - (k + 1)) l[k]

lemma length_flat {k : ℕ} (hk : k < l.length) : (flat l k hk).length = l.length := by
  rw [flat, List.length_append, List.length_take, List.length_replicate]
  omega

lemma select_flat {k : ℕ} (hk : k < l.length) :
    select takes m (flat l k hk) = select takes m (l.take (k + 1)) := by
  rw [flat, select_append, select_take_succ hk, select_replicate]

/-- **Lists of one length**: the comparisons select the same from a list, cut off after each of its
elements and filled up with that element, exactly if they agree. -/
theorem select_flat_eq_iff :
    (∀ k (hk : k < l.length), select takes' m (flat l k hk) = select takes m (flat l k hk)) ↔
      Agree takes takes' m l := by
  rw [← select_take_eq_iff]
  constructor
  · intro h k hk
    cases k with
    | zero => rfl
    | succ k => rw [← select_flat hk, ← select_flat hk, h k hk]
  · intro h k hk
    rw [select_flat hk, select_flat hk]
    exact h (k + 1) hk

end Compare

end Selection
