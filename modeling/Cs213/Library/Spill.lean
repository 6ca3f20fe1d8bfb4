import Mathlib.Data.Nat.Notation
import Mathlib.Data.List.Basic
import Mathlib.Logic.Function.Basic

set_option relaxedAutoImplicit false
set_option autoImplicit false

/-!
# Registers on a stack

A stack grows downwards in a memory, by `w` addresses for each value. Registers that are pushed one
after the other are found there in the opposite order.

## Main definitions

* `Spill.Holds` — the registers `rs` are in memory, from an address on upwards.

## Main results

* `Spill.Holds.push` — pushing one more register.
* `Spill.Holds.congr` — writes elsewhere do not matter.
-/

namespace Spill

variable {ι α : Type*} {w : ℕ} {m m' : ℕ → α} {R : ι → α} {a : ℕ} {r : ι} {rs : List ι}

/-- The memory has the values that the registers `rs` have in `R`, from the address `a` on. -/
def Holds (w : ℕ) (m : ℕ → α) (R : ι → α) : ℕ → List ι → Prop
  | _, [] => True
  | a, r :: rs => m a = R r ∧ Holds w m R (a + w) rs

@[simp] lemma holds_nil : Holds w m R a [] := trivial

@[simp] lemma holds_cons :
    Holds w m R a (r :: rs) ↔ m a = R r ∧ Holds w m R (a + w) rs := Iff.rfl

namespace Holds

/-- Only the addresses of the registers matter. -/
theorem congr (h : Holds w m R a rs) (hm : ∀ x, a ≤ x → x < a + w * rs.length → m' x = m x)
    (hw : 0 < w) : Holds w m' R a rs := by
  induction rs generalizing a with
  | nil => exact holds_nil
  | cons r rs ih =>
    obtain ⟨hr, hrs⟩ := h
    have hlen : w * (r :: rs).length = w + w * rs.length := by
      rw [List.length_cons, Nat.mul_succ, Nat.add_comm]
    rw [hlen] at hm
    refine ⟨(hm a (Nat.le_refl a) (by omega)).trans hr, ih hrs fun x hx hlt => hm x ?_ ?_⟩
    · omega
    · omega

/-- **A push**: the register is added below those that have been pushed before. -/
theorem push (h : Holds w m R (a + w) rs) (hw : 0 < w) :
    Holds w (Function.update m a (R r)) R a (r :: rs) := by
  refine ⟨Function.update_self .., h.congr (fun x hx _ => ?_) hw⟩
  exact Function.update_of_ne (by omega) _ _

end Holds

end Spill
