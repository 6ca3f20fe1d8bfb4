import Cs213.ReaderWriter.Shape
import Cs213.Uthread.Monitor

set_option relaxedAutoImplicit false
set_option autoImplicit false

/-!
# Mutual exclusion in the reader/writer program

The holder of the monitor is the thread inside it. A thread that is at a point inside the monitor
is in its own code, or, at the first such point, still in the call of `uthread_monitor_enter`, where
it may have stopped and been woken up any number of times.

## Main definitions

* `ReaderWriter.At` — where a thread is in `uthread.c` when it is at a point inside the monitor.
* `ReaderWriter.Holding` — a thread has taken the monitor and has not given it back.
* `ReaderWriter.Good` — the invariants of the program.

## Main results

* `ReaderWriter.Good.step_lib`, `ReaderWriter.Good.step_own`, `ReaderWriter.good_init`.
* `ReaderWriter.Good.alone_of_holding` — mutual exclusion.
-/

namespace ReaderWriter

open Uthread Runs

variable {N : ℕ} {cfg : Config} {s t : Sys N}

/-! ## The thread system under the program -/

/-- The invariants of the thread system. Only the initial thread joins, so no other thread is ever
woken up twice. -/
structure Under (s : State N) : Prop where
  inv : Inv (· ≠ 0) s
  saved : Saved s
  calls : Calls Policy s

lemma Under.step {s t : State N} {a : Uthread.Act N} (h : Under s)
    (ht : Uthread.step s a = some t)
    (ha : ∀ op, a.begins = some op → Policy (s.proc a.proc).thread op) : Under t where
  inv := h.inv.step (fun _ hv => hv) (h.calls.not_rewakes fun _ _ hj hp => hj hp) ht
  saved := h.saved.step h.inv.allocated (trans_of_step ht)
  calls := h.calls.step (trans_of_step ht) ha

lemma under_init (hN : 0 < N) : Under (Uthread.init N) := ⟨inv_init hN _, saved_init, calls_init⟩

/-! ## Inside the monitor -/

/-- The points at which a thread goes on when `uthread_monitor_enter` has returned. -/
@[grind] def Point.opening : Point → Prop
  | .load0 | .check0 => True
  | .loop | .store0 _ | .load1 | .store1 _ | .check1 _ | .leave | .finished => False

/-- Thread `u` is in its own code, or on the way to its first point inside the monitor. -/
def At (s : Sys N) (u : Tid) (pt : Point) : Prop :=
  (∃ p, (s.core.proc p).thread = u ∧ (s.core.proc p).pc = .user) ∨
    pt.opening ∧ InCall s.core u (fun pc => pc.op = some (.enter mon)) (.enter mon)

/-- The thread on processor `p` has taken the monitor and has not given it back. -/
def Holding (s : Sys N) (p : Fin N) : Prop :=
  (s.core.proc p).pc = .enterUnlock mon ∨ Inside s p

/-- The invariants of the program. -/
structure Good (cfg : Config) (s : Sys N) : Prop where
  under : Under s.core
  shape : Shape cfg s
  law : ∀ u dta i pt, s.code u = .drive dta i pt → pt.bracketed → At s u pt
  held : ∀ p, Holding s p → (s.core.monitor mon).holder = some (s.core.proc p).thread
  asserted : ∀ p, (s.core.proc p).pc ≠ .aborted .holder

namespace Good

variable (h : Good cfg s)

include h

/-- The initial thread does not use the monitor. -/
lemma ne_zero_of_holding {p : Fin N} (hp : Holding s p) : (s.core.proc p).thread ≠ 0 := by
  rcases hp with hpc | ⟨-, hb⟩ | hpc
  · exact (h.under.calls.pc p (.enter mon) (by rw [hpc]; rfl)).2
  · cases hk : s.code (s.core.proc p).thread with
    | drive dta i pt => exact h.shape.ne_zero_of_drive hk
    | _ => simp [hk, Code.bracketed] at hb
  · exact (h.under.calls.pc p (.exit mon) (by rw [hpc]; rfl)).2

/-- **Mutual exclusion.** -/
lemma alone_of_holding {p q : Fin N} (hp : Holding s p) (hq : Holding s q) : p = q := by
  have e := (h.held p hp).symm.trans (h.held q hq)
  exact h.under.inv.owned.alone p q (h.ne_zero_of_holding hp) (Option.some.inj e)

/-- A thread beyond its first point inside the monitor is in its own code. -/
lemma inside_of_not_opening {u : Tid} {dta : DriveTestArg} {i : ℕ} {pt : Point}
    (hu : s.code u = .drive dta i pt) (hb : pt.bracketed) (ho : ¬ pt.opening) :
    ∃ p, (s.core.proc p).thread = u ∧ Inside s p := by
  rcases h.law u dta i pt hu hb with ⟨p, rfl, hpc⟩ | ⟨ho', -⟩
  · exact ⟨p, rfl, .inl ⟨hpc, by rw [hu]; exact hb⟩⟩
  · exact absurd ho' ho

/-! ### Steps inside `uthread.c` -/

section Lib

variable {p : Fin N} {c : State N} (hc : Uthread.step s.core (.run p) = some c)

include hc

omit h in
lemma ne_user : (s.core.proc p).pc ≠ .user := by
  intro hpc
  simp [Uthread.step, hpc, Uthread.exec] at hc

lemma law_lib (u : Tid) (dta : DriveTestArg) (i : ℕ) (pt : Point)
    (hu : s.code u = .drive dta i pt) (hb : pt.bracketed) : At { s with core := c } u pt := by
  have ht := trans_of_step hc
  rcases h.law u dta i pt hu hb with ⟨q, rfl, hpc⟩ | ⟨ho, hin⟩
  · have hq : q ≠ p := by
      rintro rfl
      exact ne_user hc hpc
    exact .inl ⟨q, by rw [ht.proc_of_ne hq], by rw [ht.proc_of_ne hq, hpc]⟩
  · have hi := h.under.inv
    rcases hin.enter_step hi.allocated hi.owned (h.shape.ne_zero_of_drive hu) hi.idle
      h.under.saved ht with hin | ⟨-, e⟩
    · exact .inr ⟨ho, hin⟩
    · exact .inl ⟨p, congrArg Proc.thread e, congrArg Proc.pc e⟩

/-- A thread that is inside the monitor after a step inside `uthread.c` has just got there. -/
lemma enterUnlock_of_inside_lib (hu : Under c) (hp : Inside { s with core := c } p) :
    (s.core.proc p).pc = .enterUnlock mon ∧ (c.proc p).thread = (s.core.proc p).thread := by
  have ht := trans_of_step hc
  suffices hpc : (s.core.proc p).pc = .enterUnlock mon by
    refine ⟨hpc, ht.thread.resolve_right fun ⟨d, e⟩ => ?_⟩
    simp [hpc] at e
  rcases hp with ⟨hpc, hb⟩ | hpc
  · dsimp only at hpc hb
    cases hk : s.code (c.proc p).thread with
    | drive dta i pt =>
      rw [hk] at hb
      have h0 := h.shape.ne_zero_of_drive hk
      have hone : ∀ q, (c.proc q).thread = (c.proc p).thread → q = p := fun q e =>
        hu.inv.owned.alone q p (e ▸ h0) e
      rcases h.law _ dta i pt hk hb with ⟨q, e, hq⟩ | ⟨-, hin⟩
      · have hqp : q ≠ p := by
          rintro rfl
          exact ne_user hc hq
        exact absurd (hone q (by rw [ht.proc_of_ne hqp, e])) hqp
      · have hi := h.under.inv
        rcases hin.enter_step hi.allocated hi.owned h0 hi.idle h.under.saved ht with
          (⟨q, e, hq⟩ | ⟨hoff, -⟩) | ⟨e, -⟩
        · rw [hone q e, hpc] at hq
          cases hq
        · exact absurd rfl (hoff p)
        · exact e
    | _ => simp [hk, Code.bracketed] at hb
  · have := ht.exitLock_cases hpc
    simp [Act.begins] at this

lemma held_lib (hu : Under c) (q : Fin N) (hq : Holding { s with core := c } q) :
    (c.monitor mon).holder = some (c.proc q).thread := by
  have ht := trans_of_step hc
  by_cases hqp : q = p
  · subst hqp
    rcases hq with hpc | hin
    · exact ht.enterUnlock_cases hpc
    · obtain ⟨hpc, e⟩ := h.enterUnlock_of_inside_lib hc hu hin
      have hs := h.held q (.inl hpc)
      rw [e]
      rcases ht.monitor_cases mon with ⟨e', -⟩ | ⟨e', -⟩ | ⟨-, e', -⟩ | ⟨e', -⟩
      · rw [e', hs]
      · simp [hs] at e'
      · rw [e', hs]
      · simp [hpc] at e'
  · have hqs : Holding s q := by
      simpa only [Holding, Inside, ht.proc_of_ne hqp] using hq
    have hs := h.held q hqs
    rw [ht.proc_of_ne hqp]
    rcases ht.monitor_cases mon with ⟨e', -⟩ | ⟨e', -⟩ | ⟨-, e', -⟩ | ⟨e', -⟩
    · rw [e', hs]
    · simp [hs] at e'
    · rw [e', hs]
    · -- the processor that gives the monitor back is the one that holds it
      exact absurd (h.alone_of_holding hqs (.inr (.inr e'))) hqp

lemma asserted_lib (q : Fin N) : (c.proc q).pc ≠ .aborted .holder := by
  have ht := trans_of_step hc
  by_cases hqp : q = p
  · subst hqp
    intro hpc
    obtain ⟨m, hpc, hne⟩ := ht.aborted_cases hpc
    obtain rfl : m = mon := (h.under.calls.pc q (.exit m) (by
      rw [show (s.core.proc q).pc = _ from hpc]
      rfl)).1
    exact hne (h.held q (.inr (.inr hpc)))
  · exact ht.proc_of_ne hqp ▸ h.asserted q

/-- **The invariants are kept** by the steps inside `uthread.c`. -/
lemma step_lib : Good cfg { s with core := c } :=
  have hu := h.under.step hc (by simp [Act.begins])
  { under := hu
    shape := h.shape.step_lib ((trans_of_step hc).fresh_eq (by simp [Act.begins]))
    law := h.law_lib hc
    held := h.held_lib hc hu
    asserted := h.asserted_lib hc }

end Lib

/-! ### Steps of a thread in its own code -/

section Own

variable {p : Fin N} (hpc : (s.core.proc p).pc = .user)
  (ho : Own cfg s p (s.code (s.core.proc p).thread) t)

include ho

/-- The other threads stay where they are in their procedures. -/
lemma code_of_ne {u : Tid} (hu : u ≠ (s.core.proc p).thread) :
    t.code u = s.code u ∨
      u = s.core.fresh ∧ s.code u = .base ∧ ∃ dta, t.code u = .drive dta 0 .loop := by
  by_cases huf : u = s.core.fresh
  · have hb := h.shape.base u (by have := h.under.inv.allocated.base; grind) (.inr huf.ge)
    rcases ho.code_cases with ⟨i, -, -, -, -, hc⟩ | ⟨-, -, k', hc, -⟩
    · exact .inr ⟨huf, hb, _, by rw [hc, huf, Function.update_self]⟩
    · exact .inl (by rw [hc, Function.update_of_ne hu])
  · rcases ho.code_cases with ⟨i, -, -, -, -, hc⟩ | ⟨-, -, k', hc, -⟩
    · exact .inl (by rw [hc, Function.update_of_ne huf, Function.update_of_ne hu])
    · exact .inl (by rw [hc, Function.update_of_ne hu])

/-- A thread that is at a point inside the monitor was inside before, or has just called
`uthread_monitor_enter`. -/
lemma bracketed_cases {dta : DriveTestArg} {i : ℕ} {pt : Point}
    (hk : t.code (s.core.proc p).thread = .drive dta i pt) (hb : pt.bracketed) :
    t.core = s.core ∧ (s.code (s.core.proc p).thread).bracketed ∨
    t.core.proc p = ⟨(s.core.proc p).thread, .enterLock mon⟩ ∧ pt.opening := by
  have hne : (s.core.proc p).thread ≠ s.core.fresh := (h.under.inv.allocated.thread p).ne
  generalize s.code (s.core.proc p).thread = k at ho
  cases ho with
  | enter dta i c hi hc =>
    have := (trans_of_step hc).proc_of_enter
    grind
  | _ => grind

omit h in
/-- A step of a thread in its own code leads to the check of the holder from inside the
monitor. -/
lemma exitLock_cases (ht : (t.core.proc p).pc = .exitLock mon) (hpc : (s.core.proc p).pc = .user) :
    (s.code (s.core.proc p).thread).bracketed := by
  have hcall : ∀ c op, Uthread.step s.core (.call p op) = some c → (c.proc p).pc = .exitLock mon →
      op = .exit mon := fun c op hc => (trans_of_step hc).call_cases.2.2.2 mon
  generalize s.code (s.core.proc p).thread = k at ho
  cases ho <;> grind

lemma under_own : Under t.core := by
  rcases h.shape.core_cases ho with e | ⟨op, hc, hop⟩
  · exact e ▸ h.under
  · refine h.under.step hc fun op' hb => ?_
    cases hb
    exact hop

include hpc

/-- The other processors and the monitor are left alone. -/
lemma core_own : (∀ q, (t.core.proc q).thread = (s.core.proc q).thread) ∧
    (∀ q, q ≠ p → t.core.proc q = s.core.proc q) ∧
    t.core.monitor mon = s.core.monitor mon := by
  rcases h.shape.core_cases ho with e | ⟨op, hc, -⟩
  · simp [e]
  · have ht := trans_of_step hc
    refine ⟨fun q => ?_, fun q hq => ht.proc_of_ne hq, ht.monitor_of_user hpc mon⟩
    by_cases hq : q = p
    · subst hq
      refine ht.thread.resolve_right fun ⟨d, e⟩ => ?_
      rw [show (s.core.proc q).pc = _ from e] at hpc
      cases hpc
    · rw [ht.proc_of_ne hq]

lemma law_own (u : Tid) (dta : DriveTestArg) (i : ℕ) (pt : Point) (hu : t.code u = .drive dta i pt)
    (hb : pt.bracketed) : At t u pt := by
  by_cases hup : u = (s.core.proc p).thread
  · subst hup
    rcases h.bracketed_cases ho hu hb with ⟨e, -⟩ | ⟨e, hopen⟩
    · exact .inl ⟨p, by rw [e], by rw [e, hpc]⟩
    · exact .inr ⟨hopen, .inl ⟨p, by rw [e], by rw [e]; rfl⟩⟩
  · have hus : s.code u = .drive dta i pt := by
      rcases h.code_of_ne ho hup with e | ⟨-, -, dta', e⟩
      · rw [← e, hu]
      · rw [hu] at e
        cases e
        exact absurd hb id
    rcases h.law u dta i pt hus hb with ⟨q, rfl, hq⟩ | ⟨hopen, hin⟩
    · have hqp : q ≠ p := fun e => hup (e ▸ rfl)
      have e := (h.core_own hpc ho).2.1 q hqp
      exact .inl ⟨q, by rw [e], by rw [e, hq]⟩
    · refine .inr ⟨hopen, ?_⟩
      rcases h.shape.core_cases ho with e | ⟨op, hc, -⟩
      · exact e ▸ hin
      · have hi := h.under.inv
        refine (hin.enter_step hi.allocated hi.owned (h.shape.ne_zero_of_drive hus) hi.idle
          h.under.saved (trans_of_step hc)).resolve_right fun ⟨e, _⟩ => ?_
        rw [show (s.core.proc p).pc = _ from e] at hpc
        cases hpc

/-- A step of a thread in its own code does not take the monitor. -/
lemma holding_own (q : Fin N) (hq : Holding t q) : Holding s q := by
  obtain ⟨hth, hproc, -⟩ := h.core_own hpc ho
  by_cases hqp : q = p
  · subst hqp
    refine .inr (.inl ⟨hpc, ?_⟩)
    rcases hq with hq | ⟨hq, hb⟩ | hq
    · rcases h.shape.core_cases ho with e | ⟨op, hc, -⟩
      · rw [e, hpc] at hq
        cases hq
      · exact absurd hq ((trans_of_step hc).call_cases.2.2.1 mon)
    · rw [hth] at hb
      cases hk : t.code (s.core.proc q).thread with
      | drive dta i pt =>
        rw [hk] at hb
        rcases h.bracketed_cases ho hk hb with ⟨-, hb⟩ | ⟨e, -⟩
        · exact hb
        · rw [e] at hq
          cases hq
      | _ => simp [hk, Code.bracketed] at hb
    · exact exitLock_cases ho hq hpc
  · rw [Holding, Inside, hproc q hqp] at hq
    refine hq.imp_right fun hq => hq.imp_left fun ⟨hq, hb⟩ => ⟨hq, ?_⟩
    cases hk : t.code (s.core.proc q).thread with
    | drive dta i pt =>
      rw [hk] at hb
      have h0 := (h.shape.step_own h.under.inv.allocated ho).ne_zero_of_drive hk
      have hne : (s.core.proc q).thread ≠ (s.core.proc p).thread := fun e =>
        hqp (h.under.inv.owned.alone q p h0 e)
      rcases h.code_of_ne ho hne with e | ⟨-, -, dta', e⟩
      · rwa [← e, hk]
      · cases hk.symm.trans e
        exact absurd hb id
    | _ => simp [hk, Code.bracketed] at hb

lemma asserted_own (q : Fin N) : (t.core.proc q).pc ≠ .aborted .holder := by
  by_cases hqp : q = p
  · subst hqp
    rcases h.shape.core_cases ho with e | ⟨op, hc, -⟩
    · exact e ▸ h.asserted q
    · exact (trans_of_step hc).call_cases.2.1
  · exact (h.core_own hpc ho).2.1 q hqp ▸ h.asserted q

/-- **The invariants are kept** by the steps of a thread in its own code. -/
lemma step_own : Good cfg t where
  under := h.under_own ho
  shape := h.shape.step_own h.under.inv.allocated ho
  law := h.law_own hpc ho
  held q hq := by
    obtain ⟨hth, -, hm⟩ := h.core_own hpc ho
    rw [hm, hth, h.held q (h.holding_own hpc ho q hq)]
  asserted := h.asserted_own hpc ho

end Own

end Good

/-- **The invariants hold at the start.** -/
lemma good_init (hN : 0 < N) : Good cfg (init N) where
  under := under_init hN
  shape := shape_init
  law u dta i pt hu := by
    simp only [init] at hu
    grind
  held p hp := by
    rcases hp with hp | ⟨-, hp⟩ | hp
    · simp [init, Uthread.init] at hp
    · simp only [init] at hp
      grind
    · simp [init, Uthread.init] at hp
  asserted p := by simp [init, Uthread.init]

end ReaderWriter
