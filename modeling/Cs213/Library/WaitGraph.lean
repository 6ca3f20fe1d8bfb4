import Mathlib.Logic.Relation
import Mathlib.Order.WellFounded
import Mathlib.Data.Fintype.Card

set_option relaxedAutoImplicit false
set_option autoImplicit false

/-!
# Cycles in a wait-for graph

A relation `R` on parties says who waits for whom. When one party `m` gets new edges and nobody else
does, a cycle can appear only through `m`.

## Main results

* `WaitGraph.cycle_cases` — a cycle was there before, or an edge out of `m` closes it.
* `WaitGraph.exists_cycle` — finitely many parties that all wait include a cycle.
-/

namespace WaitGraph

open Relation

variable {V : Type*} {R R' : V → V → Prop} {m x y : V}

/-- On a path to a party that waits for another, every edge leads to such a party. -/
lemma transGen_goes_on (h : TransGen R' x y) (hy : ∃ z, R' y z) :
    TransGen (fun u v => R' u v ∧ ∃ z, R' v z) x y := by
  induction h with
  | single h => exact .single ⟨h, hy⟩
  | tail _ h ih => exact .tail (ih ⟨_, h⟩) ⟨h, hy⟩

/-- A path to `m` is cut at its first visit of `m`. -/
lemma reflTransGen_of_ne (h : ∀ u v, u ≠ m → R' u v → R u v) (hx : ReflTransGen R' x m) :
    ReflTransGen R x m := by
  induction hx using ReflTransGen.head_induction_on with
  | refl => exact .refl
  | @head u v hab _ ih =>
    by_cases hu : u = m
    · exact hu ▸ .refl
    · exact .head (h u v hu hab) ih

/-- A path avoids the edges out of `m`, or it is split after the last of them. -/
lemma transGen_cases (h : ∀ u v, u ≠ m → R' u v → R u v) (hxy : TransGen R' x y) :
    TransGen R x y ∨ ∃ q, R' m q ∧ ReflTransGen R q y ∧ ReflTransGen R' x m := by
  induction hxy with
  | single hb =>
    by_cases hx : x = m
    · exact .inr ⟨_, hx ▸ hb, .refl, hx ▸ .refl⟩
    · exact .inl (.single (h _ _ hx hb))
  | @tail b c hxb hbc ih =>
    by_cases hb : b = m
    · exact .inr ⟨c, hb ▸ hbc, .refl, hb ▸ hxb.to_reflTransGen⟩
    · have hR := h b c hb hbc
      exact ih.imp (·.tail hR) fun ⟨q, hq, hqb, hm⟩ => ⟨q, hq, hqb.tail hR, hm⟩

/-- **Where a cycle comes from.** Suppose every new edge that does not start at `m` leads to a
party that waits for nobody. Then a cycle was there before, or a new edge `m → q` closes a path
from `q` to `m`. -/
theorem cycle_cases (h : ∀ u v w, u ≠ m → R' u v → R' v w → R u v) (hx : TransGen R' x x) :
    TransGen R x x ∨ ∃ q, R' m q ∧ ReflTransGen R q m := by
  have hgo : ∀ u v, u ≠ m → (R' u v ∧ ∃ z, R' v z) → R u v :=
    fun u v hu ⟨huv, z, hz⟩ => h u v z hu huv hz
  obtain ⟨z, hz, -⟩ := TransGen.head'_iff.mp hx
  rcases transGen_cases hgo (transGen_goes_on hx ⟨z, hz⟩) with hc | ⟨q, ⟨hq, -⟩, hqx, hxm⟩
  · exact .inl hc
  · exact .inr ⟨q, hq, hqx.trans (reflTransGen_of_ne hgo hxm)⟩

/-- **A cycle must be there**, if every one of finitely many parties waits for some party. -/
theorem exists_cycle [Finite V] [Nonempty V] (h : ∀ x, ∃ y, R x y) : ∃ x, TransGen R x x := by
  by_contra hno
  push Not at hno
  have hirrefl : Std.Irrefl (Function.swap (TransGen R)) := ⟨hno⟩
  have htrans : IsTrans V (Function.swap (TransGen R)) := ⟨fun _ _ _ hxy hyz => hyz.trans hxy⟩
  have hwf : WellFounded (Function.swap (TransGen R)) :=
    Finite.wellFounded_of_trans_of_irrefl _
  -- a party from which no path leads on
  obtain ⟨m, -, hm⟩ := hwf.has_min Set.univ Set.univ_nonempty
  obtain ⟨y, hy⟩ := h m
  exact hm y trivial (.single hy)

end WaitGraph
